import SourceBundle.Collect
import Mathlib.Data.List.Basic

/-!
What a request says about the files to take, and that the settings made of it say the same. Exclusions count by the
names in them, suffixes without the blanks around them.
-/

namespace SourceBundle

open Text

theorem bind_ok {ε α β : Type} {e : Except ε α} {f : α → Except ε β} {b : β} :
    e >>= f = .ok b ↔ ∃ a, e = .ok a ∧ f a = .ok b := by
  cases e with
  | error e =>
      constructor
      · intro bound
        cases bound
      · rintro ⟨a, failed, -⟩
        cases failed
  | ok a =>
      constructor
      · intro bound
        exact ⟨a, rfl, bound⟩
      · rintro ⟨b, same, bound⟩
        cases same
        exact bound

theorem mapM_ok {α β : Type} {f : α → Except Error β} {as : List α} {bs : List β} (mapped : as.mapM f = .ok bs) :
    (∀ b, b ∈ bs ↔ ∃ a ∈ as, f a = .ok b) ∧ ∀ a ∈ as, ∃ b, f a = .ok b := by
  induction as generalizing bs with
  | nil =>
      obtain rfl : bs = [] := by simpa [pure, Except.pure] using mapped.symm
      simp
  | cons a as ih =>
      rw [List.mapM_cons] at mapped
      obtain ⟨first, here, mapped⟩ := bind_ok.1 mapped
      obtain ⟨later, there, mapped⟩ := bind_ok.1 mapped
      obtain rfl : bs = first :: later := by simpa [pure, Except.pure] using mapped.symm
      obtain ⟨members, total⟩ := ih there
      refine ⟨fun b => ?_, List.forall_mem_cons.2 ⟨⟨first, here⟩, total⟩⟩
      rw [List.mem_cons, members, List.exists_mem_cons_iff, here, Except.ok.injEq, eq_comm]

def Path.Part.name? : Path.Part → Option String
  | .name s => some s
  | _ => none

namespace Config

/-- The names in an exclusion; blanks around it, slashes and dots add none. -/
def excludedNames (entry : String) : List String := (Path.parts ⟨trimmed entry⟩).filterMap Path.Part.name?

/-- No exclusion names the entry with these names or a directory above it. -/
def Includes (config : Config) (names : List String) : Prop :=
  ∀ above, above ≠ [] → above <+: names → ∀ entry ∈ config.exclude, excludedNames entry ≠ above

def suffixesOr (config : Config) (language : Language) : List String :=
  match config.suffixes with
  | none => language.suffixes
  | some asked => asked.map trimmed

def Accepts (config : Config) (language : Language) (name : String) : Prop :=
  ∃ suffix ∈ config.suffixesOr language, suffix.toList <:+ name.toList

end Config

namespace Settings

variable {home : Option String} {root : Path} {config : Config} {s : Settings} {entry name : String}
  {names : List String}

theorem exclusionNames_ok {parts : List Path.Part} (read : exclusionNames parts = .ok names) :
    names = parts.filterMap Path.Part.name? := by
  induction parts generalizing names with
  | nil =>
      obtain rfl : [] = names := by simpa [exclusionNames] using read
      rfl
  | cons part parts ih =>
      cases part with
      | root => cases read
      | up => cases read
      | here => exact ih read
      | name t =>
          rw [exclusionNames] at read
          cases later : exclusionNames parts with
          | error fault =>
              rw [later] at read
              cases read
          | ok rest =>
              rw [later] at read
              obtain rfl : t :: rest = names := by simpa [Except.map] using read
              rw [ih later]
              rfl

theorem exclusion_ok (read : exclusion entry = .ok names) : names = Config.excludedNames entry ∧ names ≠ [] := by
  rw [exclusion] at read
  split at read
  · cases read
  · split at read
    · cases read
    · cases read
    · rename_i filled found
      obtain rfl : _ = names := by simpa using read
      exact ⟨exclusionNames_ok found, filled⟩

theorem mem_insertExclusion {other : List String} {sorted : List (List String)} :
    other ∈ insertExclusion names sorted ↔ other = names ∨ other ∈ sorted := by
  induction sorted with
  | nil => simp [insertExclusion]
  | cons first later ih =>
      rw [insertExclusion]
      split
      · simp
      · split
        · rename_i same
          simp [same]
        · rw [List.mem_cons, ih, List.mem_cons, or_left_comm]

theorem mem_exclusions {entries : List String} {excluded : List (List String)}
    (read : exclusions entries = .ok excluded) :
    (∀ names, names ∈ excluded ↔ ∃ entry ∈ entries, exclusion entry = .ok names) ∧
      ∀ entry ∈ entries, ∃ names, exclusion entry = .ok names := by
  have folded : ∀ (names : List String) (read sorted : List (List String)),
      names ∈ read.foldl (fun sorted names => insertExclusion names sorted) sorted ↔
        names ∈ read ∨ names ∈ sorted := by
    intro names read
    induction read with
    | nil => simp
    | cons first later ih =>
        intro sorted
        rw [List.foldl_cons, ih, mem_insertExclusion, List.mem_cons, or_left_comm, or_assoc]
  obtain ⟨all, mapped, rest⟩ := bind_ok.1 read
  obtain rfl : _ = excluded := by simpa [pure, Except.pure] using rest
  obtain ⟨members, total⟩ := mapM_ok mapped
  refine ⟨fun names => ?_, total⟩
  rw [folded, ← members]
  simp

/-- The settings are those of the request, and every part of it passes its check. -/
structure Resolves (home : Option String) (root : Path) (config : Config) (s : Settings) : Prop where
  source : ∃ source, sourcePath config.source = .ok source ∧ s.source = root.join source
  language : Language.ofText config.lang = .ok s.language
  excluded : exclusions config.exclude = .ok s.excluded
  suffixes : suffixList s.language config.suffixes = .ok s.suffixes
  output : ∃ output, outputPath home config.output = .ok output ∧ s.output = root.join output
  recursive : s.recursive = config.recursive
  profiles : s.profiles = config.profiles

theorem ofConfig_ok_iff : ofConfig home root config = .ok s ↔ Resolves home root config s := by
  constructor
  · intro resolved
    obtain ⟨source, asked, rest⟩ := bind_ok.1 resolved
    obtain ⟨language, spoken, rest⟩ := bind_ok.1 rest
    obtain ⟨excluded, read, rest⟩ := bind_ok.1 rest
    obtain ⟨suffixes, listed, rest⟩ := bind_ok.1 rest
    obtain ⟨output, target, rest⟩ := bind_ok.1 rest
    cases rest
    exact ⟨⟨source, asked, rfl⟩, spoken, read, listed, ⟨output, target, rfl⟩, rfl, rfl⟩
  · intro resolves
    cases s with
    | mk source output suffixes excluded recursive profiles language =>
        obtain ⟨⟨above, asked, rfl⟩, spoken, read, listed, ⟨target, checked, rfl⟩, rfl, rfl⟩ := resolves
        exact bind_ok.2 ⟨above, asked, bind_ok.2 ⟨language, spoken, bind_ok.2 ⟨excluded, read,
          bind_ok.2 ⟨suffixes, listed, bind_ok.2 ⟨target, checked, rfl⟩⟩⟩⟩⟩

theorem excludesNames_iff : s.excludesNames names = true ↔ names ∈ s.excluded := by
  have injective : Function.Injective (List.map Path.Part.name) := List.map_injective_iff.2 fun _ _ same => by
    cases same
    rfl
  rw [excludesNames, excludes, List.any_eq_true]
  constructor
  · rintro ⟨other, member, same⟩
    rw [beq_iff_eq] at same
    rwa [← injective same]
  · intro member
    exact ⟨names, member, beq_self_eq_true _⟩

theorem excludesNames_ofConfig (resolved : ofConfig home root config = .ok s) (names : List String) :
    s.excludesNames names = true ↔ ∃ entry ∈ config.exclude, Config.excludedNames entry = names := by
  obtain ⟨members, total⟩ := mem_exclusions (ofConfig_ok_iff.1 resolved).excluded
  rw [excludesNames_iff, members]
  constructor
  · rintro ⟨entry, member, named⟩
    exact ⟨entry, member, (exclusion_ok named).1.symm⟩
  · rintro ⟨entry, member, rfl⟩
    obtain ⟨names, named⟩ := total entry member
    rw [(exclusion_ok named).1] at named
    exact ⟨entry, member, named⟩

theorem accepts_ofConfig (resolved : ofConfig home root config = .ok s) (name : String) :
    s.accepts name = true ↔ config.Accepts s.language name := by
  have listed := (ofConfig_ok_iff.1 resolved).suffixes
  have same : ∀ suffix, suffix ∈ s.suffixes ↔ suffix ∈ config.suffixesOr s.language := by
    intro suffix
    rw [Config.suffixesOr]
    cases asked : config.suffixes with
    | none =>
        rw [asked, suffixList] at listed
        rw [Except.ok.inj listed]
    | some suffixes =>
        rw [asked, suffixList] at listed
        split at listed
        · cases listed
        · split at listed
          · cases listed
          · rw [← Except.ok.inj listed]
            exact List.mem_eraseDups
  rw [accepts, List.any_eq_true, Config.Accepts]
  simp only [same, List.isSuffixOf_iff_suffix]

end Settings

end SourceBundle
