import SourceBundle.Proofs.Bundle.Runs
import SourceBundle.Proofs.Collect.Request

/-!
The errors that each stage of the program can raise, and the exit code that goes with their kind.
-/

namespace SourceBundle

section Except

variable {ε ε' α β : Type} {x : Except ε α} {f : α → Except ε β} {e : ε}

theorem bind_error : x >>= f = .error e ↔ x = .error e ∨ ∃ a, x = .ok a ∧ f a = .error e := by
  cases x <;> simp [bind, Except.bind]

theorem map_ok {g : α → β} {b : β} : x.map g = .ok b ↔ ∃ a, x = .ok a ∧ g a = b := by
  cases x <;> simp [Except.map]

theorem map_error {g : α → β} : x.map g = .error e ↔ x = .error e := by
  cases x <;> simp [Except.map]

theorem mapError_ok {g : ε → ε'} {a : α} : x.mapError g = .ok a ↔ x = .ok a := by
  cases x <;> simp [Except.mapError]

theorem mapError_error {g : ε → ε'} {e : ε'} : x.mapError g = .error e ↔ ∃ cause, x = .error cause ∧ g cause = e := by
  cases x <;> simp [Except.mapError]

theorem ite_ok {b : Bool} {a a' : α} {fault : ε} (found : (if b then Except.ok a else .error fault) = .ok a') :
    b = true ∧ a = a' := by
  split at found
  · exact ⟨‹_›, Except.ok.inj found⟩
  · cases found

theorem ite_error {b : Bool} {a : α} {fault : ε} (failed : (if b then Except.ok a else .error fault) = .error e) :
    fault = e := by
  split at failed
  · cases failed
  · exact Except.error.inj failed

theorem mapM_error {f : α → Except ε β} {as : List α} (failed : as.mapM f = .error e) : ∃ a ∈ as, f a = .error e := by
  induction as with
  | nil => cases failed
  | cons a as ih =>
      rw [List.mapM_cons] at failed
      rcases bind_error.1 failed with first | ⟨b, -, failed⟩
      · exact ⟨a, List.mem_cons_self, first⟩
      · rcases bind_error.1 failed with later | ⟨bs, -, failed⟩
        · obtain ⟨a, member, here⟩ := ih later
          exact ⟨a, List.mem_cons_of_mem _ member, here⟩
        · cases failed

end Except

namespace Error

inductive OfConfiguration : Error → Prop where
  | absent (path : Path) : OfConfiguration (.noConfigFile path)
  | unnamed (name : String) (directory : Path) : OfConfiguration (.noNamedConfig name directory)
  | malformed (path : Path) (reason : String) : OfConfiguration (.configSyntax path reason)

inductive OfArguments : Error → Prop where
  | argument (fault : ArgumentFault) : OfArguments (.argument fault)
  | language (name : String) : OfArguments (.unsupportedLanguage name)

inductive OfReading : Error → Prop where
  | directory (path : Path) (fault : Fault) : OfReading (.directoryRead path fault)
  | file (path : Path) (fault : Fault) : OfReading (.fileRead path fault)
  | text (path : Path) : OfReading (.fileDecode path)

inductive OfWriting : Error → Prop where
  | directory (path : Path) (fault : Fault) : OfWriting (.directoryCreation path fault)
  | file (path : Path) (fault : Fault) : OfWriting (.fileWrite path fault)

inductive OfSystem : Error → Prop where
  | root (path : Path) (fault : Fault) : OfSystem (.projectRoot path fault)
  | reading {e : Error} (kind : e.OfReading) : OfSystem e
  | writing {e : Error} (kind : e.OfWriting) : OfSystem e

theorem exitCode_eq_one (e : Error) : e.exitCode = 1 ↔ e.OfConfiguration := by
  cases e with
  | noConfigFile path => exact iff_of_true rfl (.absent path)
  | noNamedConfig name directory => exact iff_of_true rfl (.unnamed name directory)
  | configSyntax path reason => exact iff_of_true rfl (.malformed path reason)
  | _ => exact ⟨nofun, nofun⟩

theorem exitCode_eq_five (e : Error) : e.exitCode = 5 ↔ e.OfArguments := by
  cases e with
  | argument fault => exact iff_of_true rfl (.argument fault)
  | unsupportedLanguage name => exact iff_of_true rfl (.language name)
  | _ => exact ⟨nofun, nofun⟩

theorem exitCode_eq_two (e : Error) : e.exitCode = 2 ↔ e.OfSystem := by
  cases e with
  | projectRoot path fault => exact iff_of_true rfl (.root path fault)
  | directoryRead path fault => exact iff_of_true rfl (.reading (.directory path fault))
  | fileRead path fault => exact iff_of_true rfl (.reading (.file path fault))
  | fileDecode path => exact iff_of_true rfl (.reading (.text path))
  | fileWrite path fault => exact iff_of_true rfl (.writing (.file path fault))
  | directoryCreation path fault => exact iff_of_true rfl (.writing (.directory path fault))
  | _ => exact ⟨nofun, by rintro (_ | ⟨⟨⟩⟩ | ⟨⟨⟩⟩)⟩

theorem exitCode_ne_zero (e : Error) : e.exitCode ≠ 0 := by
  cases e <;> simp [exitCode]

end Error

variable {env : Environment} {t : FileTree} {root : Path} {e : Error}

theorem Environment.root_error {asked : Option String} (failed : env.root t asked = .error e) :
    ∃ path fault, e = .projectRoot path fault := by
  rw [Environment.root] at failed
  split at failed
  · cases failed
  · cases failed
    exact ⟨_, _, rfl⟩

theorem FileTree.read_of_isFile {p : Path} (there : t.isFile p = true) : ∃ content, t.read p = .ok content := by
  rw [isFile] at there
  split at there
  · rename_i content mode found
    exact ⟨content, by rw [read, found]; rfl⟩
  · cases there

namespace Config

variable {path : Path} {choice : ConfigChoice}

theorem fileAt_error (failed : fileAt t path = .error e) : e.OfConfiguration := by
  obtain rfl : Error.noConfigFile _ = e := ite_error failed
  exact .absent _

theorem fileNamed_error {asked : String} {name : Path} (failed : fileNamed t root asked name = .error e) :
    e.OfConfiguration := by
  obtain rfl : Error.noNamedConfig asked (directory root) = e := ite_error failed
  exact .unnamed _ _

theorem locate_error (failed : locate env t root choice = .error e) : e.OfConfiguration := by
  cases choice with
  | disabled => cases failed
  | standard => cases failed
  | named asked =>
      rw [locate] at failed
      split at failed
      · exact fileAt_error (map_error.1 failed)
      · exact fileNamed_error (map_error.1 failed)

theorem fileAt_isFile {file : Path} (found : fileAt t path = .ok file) : t.isFile file = true := by
  obtain ⟨there, rfl⟩ := ite_ok found
  exact there

theorem fileNamed_isFile {asked : String} {name file : Path} (found : fileNamed t root asked name = .ok file) :
    t.isFile file = true := by
  obtain ⟨there, rfl⟩ := ite_ok found
  exact there

theorem locate_isFile (found : locate env t root choice = .ok (some path)) : t.isFile path = true := by
  cases choice with
  | disabled => cases found
  | standard =>
      have standard := Except.ok.inj found
      split at standard
      · rename_i there
        cases standard
        exact there
      · cases standard
  | named asked =>
      rw [locate] at found
      split at found
      · obtain ⟨file, found, same⟩ := map_ok.1 found
        cases same
        exact fileAt_isFile found
      · obtain ⟨file, found, same⟩ := map_ok.1 found
        cases same
        exact fileNamed_isFile found

/-- A file that is there can be read, if it is a text. -/
theorem loadFile_error (there : t.isFile path = true) (failed : loadFile t path = .error e) :
    e.OfConfiguration ∨ e = .fileRead path .notText := by
  obtain ⟨bytes, content⟩ := FileTree.read_of_isFile there
  rw [loadFile, content] at failed
  dsimp only at failed
  split at failed
  · cases failed
    exact .inr rfl
  · split at failed
    · cases failed
      exact .inl (.malformed _ _)
    · cases failed

theorem load_error (failed : load env t root choice = .error e) :
    e.OfConfiguration ∨ ∃ path, e = .fileRead path .notText := by
  rcases bind_error.1 failed with missing | ⟨found, located, failed⟩
  · exact .inl (locate_error missing)
  · cases found with
    | none => cases failed
    | some path => exact (loadFile_error (locate_isFile located) failed).imp_right fun unread => ⟨path, unread⟩

end Config

namespace Settings

variable {s : Settings} {home : Option String} {config : Config}

theorem sourcePath_error {asked : Option String} (failed : sourcePath asked = .error e) : e.OfArguments := by
  rw [sourcePath] at failed
  split at failed
  · cases failed
    exact .argument _
  · split at failed
    · cases failed
      exact .argument _
    · cases failed

theorem ofText_error {text : String} (failed : Language.ofText text = .error e) : e.OfArguments := by
  unfold Language.ofText at failed
  dsimp only at failed
  split at failed
  · cases failed
    exact .argument _
  · split at failed
    · cases failed
    · cases failed
      exact .language _

theorem exclusion_error {entry : String} (failed : exclusion entry = .error e) : e.OfArguments := by
  unfold exclusion at failed
  dsimp only at failed
  split at failed
  · cases failed
    exact .argument _
  · split at failed
    · cases failed
      exact .argument _
    · cases failed
      exact .argument _
    · cases failed

theorem exclusions_error {entries : List String} (failed : exclusions entries = .error e) : e.OfArguments := by
  rcases bind_error.1 failed with unread | ⟨names, -, failed⟩
  · obtain ⟨entry, -, failed⟩ := mapM_error unread
    exact exclusion_error failed
  · cases failed

theorem suffixList_error {language : Language} {asked : Option (List String)}
    (failed : suffixList language asked = .error e) : e.OfArguments := by
  unfold suffixList at failed
  dsimp only at failed
  split at failed
  · cases failed
  · split at failed
    · cases failed
      exact .argument _
    · split at failed
      · cases failed
        exact .argument _
      · cases failed

theorem outputPath_error {asked : String} (failed : outputPath home asked = .error e) : e.OfArguments := by
  unfold outputPath at failed
  dsimp only at failed
  split at failed
  · cases failed
    exact .argument _
  · split at failed
    · cases failed
      exact .argument _
    · cases failed

theorem ofConfig_error (failed : ofConfig home root config = .error e) : e.OfArguments := by
  rcases bind_error.1 failed with failed | ⟨source, -, failed⟩
  · exact sourcePath_error failed
  rcases bind_error.1 failed with failed | ⟨language, -, failed⟩
  · exact ofText_error failed
  rcases bind_error.1 failed with failed | ⟨excluded, -, failed⟩
  · exact exclusions_error failed
  rcases bind_error.1 failed with failed | ⟨suffixes, -, failed⟩
  · exact suffixList_error failed
  rcases bind_error.1 failed with failed | ⟨output, -, failed⟩
  · exact outputPath_error failed
  cases failed

theorem sourcesIn_error {entries : Entries.Raw} {above : Path} {below : List String}
    (failed : s.sourcesIn t above below entries = .error e) : e.OfReading := by
  have append : ∀ {found : List SourceFile} {later : Except Error (List SourceFile)},
      (later = .error e → e.OfReading) → later.map (found ++ ·) = .error e → e.OfReading :=
    fun read failed => read (map_error.1 failed)
  induction entries using Entries.Raw.walkInduction generalizing above below with
  | empty => cases failed
  | directory name inner others ih ih' =>
      rw [sourcesIn] at failed
      split at failed
      · exact append ih' failed
      · split at failed
        · split at failed
          · cases failed
            exact .directory _ _
          · rcases bind_error.1 failed with here | ⟨found, -, failed⟩
            · exact ih here
            · exact append ih' failed
        · exact append ih' failed
  | leaf name node others closed ih =>
      cases node with
      | directory inner => exact absurd rfl (closed inner)
      | file content mode =>
          rw [sourcesIn] at failed
          split at failed <;> exact append ih failed
      | link target =>
          rw [sourcesIn] at failed
          split at failed <;> exact append ih failed

theorem collect_error (failed : s.collect t = .error e) : e.OfReading := by
  rw [collect] at failed
  split at failed
  · cases failed
    exact .directory _ _
  · exact sourcesIn_error failed
  · cases failed

theorem sourceText_error {f : SourceFile} (failed : sourceText t f = .error e) : e.OfReading := by
  rw [sourceText] at failed
  split at failed
  · cases failed
    exact .file _ _
  · split at failed
    · cases failed
      exact .text _
    · cases failed

theorem plan_error (failed : s.plan t = .error e) : e.OfReading := by
  rcases bind_error.1 failed with failed | ⟨sources, -, failed⟩
  · exact collect_error failed
  · obtain ⟨f, -, failed⟩ := mapM_error failed
    rcases bind_error.1 failed with failed | ⟨text, -, failed⟩
    · exact sourceText_error failed
    · cases failed

end Settings

end SourceBundle
