import SourceBundle.Proofs.Bundle.Runs
import SourceBundle.Proofs.Collect.Request

/-!
The output path of a request. Its spelling is checked before anything is done, but only for a slash at its end: a path
that ends in dots or is the home directory passes, and a run with one that ends in dots fails once it writes.
-/

namespace SourceBundle

open Text

namespace Path

def endsInDots (p : Path) : Bool := (cutString '/' p.text).getLast?.any FileTree.isDots

/-- The spelling is that of a file: it ends in a name and is not the home directory alone. -/
def SpellsFile (home : Option String) (p : Path) : Prop :=
  p.endsInDots = false ∧ ∀ h, home = some h → p.text ≠ h

variable {home : Option String} {p q : Path} {s : String}

theorem endsInDots_slash (x y : List Char) :
    endsInDots ⟨String.ofList (x ++ '/' :: y)⟩ = endsInDots ⟨String.ofList y⟩ := by
  rw [endsInDots, endsInDots, cutString, cutString, String.toList_ofList, String.toList_ofList, cut_append_mark,
    List.map_append, List.getLast?_append_of_ne_nil _ (by simpa using cut_ne_nil '/' y)]

theorem endsInDots_join (p q : Path) : (p.join q).endsInDots = q.endsInDots := by
  rw [join]
  split
  · rfl
  · split
    · rename_i ends
      rcases Bool.or_eq_true _ _ ▸ ends with empty | slash
      · rw [String.isEmpty_iff.1 empty, String.empty_append]
      · obtain ⟨x, split⟩ := List.getLast?_eq_some_iff.1 (beq_iff_eq.1 slash)
        have text : p.text ++ q.text = String.ofList (x ++ '/' :: q.text.toList) := by
          rw [← String.toList_inj]
          simp [split]
        rw [text, endsInDots_slash, String.ofList_toList]
    · have text : p.text ++ "/" ++ q.text = String.ofList (p.text.toList ++ '/' :: q.text.toList) := by
        rw [← String.toList_inj]
        simp
      rw [text, endsInDots_slash, String.ofList_toList]

theorem endsInDots_expandHome (home : Option String) (apart : s ≠ "~") :
    (expandHome home s).endsInDots = endsInDots ⟨s⟩ := by
  unfold expandHome
  split
  · rename_i single
    exact absurd (String.toList_inj.1 single) apart
  · rename_i rest h below
    have expanded : h ++ String.ofList ('/' :: rest) = String.ofList (h.toList ++ '/' :: rest) := by
      rw [← String.toList_inj]
      simp
    have spelled : s = String.ofList (['~'] ++ '/' :: rest) := by
      rw [← String.toList_inj, below]
      simp
    rw [expanded, endsInDots_slash, spelled, endsInDots_slash]
  · rfl

theorem spellsFile_expandHome : SpellsFile home (expandHome home s) ↔
    endsInDots ⟨s⟩ = false ∧ ∀ h, home = some h → s ≠ "~" ∧ (s = h → ['~', '/'] <+: s.toList) := by
  unfold expandHome
  split
  · rename_i h single
    have tilde : s = "~" := by rw [← String.toList_inj, single]; rfl
    constructor
    · rintro ⟨-, other⟩
      exact absurd rfl (other h rfl)
    · rintro ⟨-, other⟩
      exact absurd tilde (other h rfl).1
  · rename_i rest h below
    have long : h ++ String.ofList ('/' :: rest) ≠ h := by
      intro same
      have lengths := congrArg (fun s => s.toList.length) same
      simp at lengths
    have opened : ['~', '/'] <+: s.toList := ⟨rest, by simp [below]⟩
    have other : s ≠ "~" := by
      rintro rfl
      cases below
    have dots := endsInDots_expandHome (some h) other
    simp only [expandHome, below] at dots
    simp only [SpellsFile, dots, Option.some.injEq, forall_eq', opened, other, ne_eq, long, not_false_eq_true,
      implies_true, and_self]
  · rename_i single below
    apply and_congr_right
    intro named
    refine forall_congr' fun h => imp_congr_right fun known => ?_
    constructor
    · intro other
      exact ⟨fun tilde => single h (by simp [tilde]) known, fun same => absurd same other⟩
    · rintro ⟨-, opened⟩ same
      obtain ⟨rest, split⟩ := opened same
      exact below rest h split.symm known

end Path

variable {t : FileTree} {p : Path}

theorem FileTree.Names.endsInDots {place : Location} {name : String} (names : t.Names p place name) :
    p.endsInDots = false := by
  rw [Path.endsInDots]
  cases ending : (cutString '/' p.text).getLast? with
  | none => rfl
  | some last =>
      cases dots : FileTree.isDots last with
      | false => exact dots
      | true =>
          obtain ⟨steps, split, -⟩ := names.above
          obtain ⟨before, stretches⟩ := List.getLast?_eq_some_iff.1 ending
          have filled : [last].filter (fun s => !s.isEmpty) = [last] := by
            rw [FileTree.isDots, Bool.or_eq_true, beq_iff_eq, beq_iff_eq] at dots
            rcases dots with rfl | rfl <;> rfl
          rw [Path.names, stretches, List.filter_append, filled] at split
          obtain rfl : last = name := List.singleton_inj.1 (List.append_inj' split rfl).2
          rw [names.plain] at dots
          cases dots

def EndsUnslashed (s : String) : Prop := ∃ c, s.toList.getLast? = some c ∧ c ≠ '/' ∧ c ≠ '\\'

def Config.outputSpelling (c : Config) : String := trimmed c.output

namespace Settings

variable {home : Option String} {root : Path} {config : Config} {s : Settings}

theorem outputPath_unslashed {asked : String} (ends : EndsUnslashed (trimmed asked)) :
    outputPath home asked = .ok (Path.expandHome home (trimmed asked)) := by
  obtain ⟨last, ending, other⟩ := ends
  simp [outputPath, ending, other]

theorem outputPath_refused {asked : String} (ends : ¬ EndsUnslashed (trimmed asked)) :
    outputPath home asked = .error (.argument (.output asked)) := by
  unfold outputPath
  dsimp only
  split
  · rfl
  · rename_i last ending
    rw [if_pos]
    by_contra open_
    exact ends ⟨last, ending, by simpa using open_⟩

theorem ofConfig_output (accepted : ofConfig home root config = .ok s) (asked : String) :
    ofConfig home root { config with output := asked } =
      (outputPath home asked).map fun output => { s with output := root.join output } := by
  obtain ⟨source, sourced, rest⟩ := bind_ok.1 accepted
  obtain ⟨language, spoken, rest⟩ := bind_ok.1 rest
  obtain ⟨excluded, read, rest⟩ := bind_ok.1 rest
  obtain ⟨suffixes, listed, rest⟩ := bind_ok.1 rest
  obtain ⟨output, target, rest⟩ := bind_ok.1 rest
  obtain rfl : _ = s := by simpa [pure, Except.pure] using rest
  simp only [ofConfig, sourced, spoken, read, listed, bind, Except.bind]
  cases outputPath home asked <;> rfl

theorem run_dotted (dotted : s.output.endsInDots = true) (t : FileTree) :
    match s.plan t with
    | .error e => s.run t = (t, .error e)
    | .ok _ => ∃ changed fault, t.MakesDirectories (Buffer.stagingDirectory s.output) changed ∧
        (s.run t = (changed, .error (.directoryCreation (Buffer.stagingDirectory s.output) fault)) ∨
          s.run t = (changed, .error (.fileWrite s.output fault))) := by
  rcases ran : s.run t with ⟨changed, e | receipt⟩
  · rcases run_error ran with ⟨failed, rfl⟩ | ⟨⟨files, planned⟩, makes, fault, rfl | rfl⟩
    · rw [failed]
    · rw [planned]
      exact ⟨changed, fault, makes, .inl rfl⟩
    · rw [planned]
      exact ⟨changed, fault, makes, .inr rfl⟩
  · obtain ⟨files, -, -, made, place, name, writes⟩ := run_ok_iff.1 ran
    rw [writes.replaces.names.endsInDots] at dotted
    cases dotted

/-- A spelling is accepted just where it is not empty and has no slash at its end. It is that of a file unless it ends
in dots or is the home directory alone. If it ends in dots, a run that gets so far as to write makes directories at
most, and then fails. -/
theorem output_spellsFile_iff (accepted : ofConfig home root config = .ok s) :
    (∀ asked, (EndsUnslashed (trimmed asked) → ∃ s', ofConfig home root { config with output := asked } = .ok s') ∧
        (¬ EndsUnslashed (trimmed asked) →
          ofConfig home root { config with output := asked } = .error (.argument (.output asked)))) ∧
      EndsUnslashed config.outputSpelling ∧
      s.output = root.join (Path.expandHome home config.outputSpelling) ∧
      (Path.SpellsFile home (Path.expandHome home config.outputSpelling) ↔
        Path.endsInDots ⟨config.outputSpelling⟩ = false ∧ ∀ h, home = some h →
          config.outputSpelling ≠ "~" ∧ (config.outputSpelling = h → ['~', '/'] <+: config.outputSpelling.toList)) ∧
      (Path.endsInDots ⟨config.outputSpelling⟩ = true → ∀ t, match s.plan t with
        | .error e => s.run t = (t, .error e)
        | .ok _ => ∃ changed fault, t.MakesDirectories (Buffer.stagingDirectory s.output) changed ∧
            (s.run t = (changed, .error (.directoryCreation (Buffer.stagingDirectory s.output) fault)) ∨
              s.run t = (changed, .error (.fileWrite s.output fault)))) := by
  obtain ⟨output, checked, target⟩ := (ofConfig_ok_iff.1 accepted).output
  have ends : EndsUnslashed config.outputSpelling := by
    by_contra slashed
    rw [outputPath_refused slashed] at checked
    cases checked
  obtain rfl : Path.expandHome home config.outputSpelling = output :=
    Except.ok.inj ((outputPath_unslashed ends).symm.trans checked)
  refine ⟨fun asked => ⟨fun open_ => ?_, fun slashed => ?_⟩, ends, target, Path.spellsFile_expandHome,
    fun dotted => run_dotted ?_⟩
  · rw [ofConfig_output accepted, outputPath_unslashed open_]
    exact ⟨_, rfl⟩
  · rw [ofConfig_output accepted, outputPath_refused slashed]
    rfl
  · have apart : config.outputSpelling ≠ "~" := by
      intro tilde
      rw [tilde] at dotted
      cases dotted
    rw [target, Path.endsInDots_join]
    exact (Path.endsInDots_expandHome home apart).trans dotted

def aboveNew : Config where
  source := some "src"
  output := "new/.."

theorem output_aboveNew : ∃ s, ofConfig (some "/home") ⟨"/"⟩ aboveNew = .ok s ∧
    ¬ Path.SpellsFile (some "/home") (Path.expandHome (some "/home") aboveNew.outputSpelling) ∧
      (s.run cluttered).2 = .error (.fileWrite s.output .busy) ∧
      cluttered.leadsSomewhere ⟨"/new"⟩ = false ∧ (s.run cluttered).1.isDirectory ⟨"/new"⟩ = true := by
  refine ⟨⟨⟨"/src"⟩, ⟨"/new/.."⟩, [".swift"], [], false, {}, .swift⟩, by decide +kernel, ?_, by decide +kernel⟩
  rintro ⟨named, -⟩
  revert named
  decide +kernel

theorem output_spellsFile_iff_aboveNew : ∃ s, ofConfig (some "/home") ⟨"/"⟩ aboveNew = .ok s ∧
    s.output = Path.join ⟨"/"⟩ (Path.expandHome (some "/home") aboveNew.outputSpelling) ∧
      ¬ Path.SpellsFile (some "/home") (Path.expandHome (some "/home") aboveNew.outputSpelling) ∧
        ∃ changed fault, cluttered.MakesDirectories (Buffer.stagingDirectory s.output) changed ∧
          (s.run cluttered = (changed, .error (.directoryCreation (Buffer.stagingDirectory s.output) fault)) ∨
            s.run cluttered = (changed, .error (.fileWrite s.output fault))) := by
  have accepted : ofConfig (some "/home") ⟨"/"⟩ aboveNew =
      .ok ⟨⟨"/src"⟩, ⟨"/new/.."⟩, [".swift"], [], false, {}, .swift⟩ := by decide +kernel
  obtain ⟨-, -, target, spells, fails⟩ := output_spellsFile_iff accepted
  have dotted : Path.endsInDots ⟨aboveNew.outputSpelling⟩ = true := by decide +kernel
  have planned : Settings.plan ⟨⟨"/src"⟩, ⟨"/new/.."⟩, [".swift"], [], false, {}, .swift⟩ cluttered =
      .ok [⟨⟨⟨"/src/a.swift"⟩, ["a.swift"]⟩, 10, "let a = 1\n"⟩,
        ⟨⟨⟨"/src/b.swift"⟩, ["b.swift"]⟩, 10, "let b = 2\n"⟩] := by decide +kernel
  have failed := fails dotted cluttered
  rw [planned] at failed
  refine ⟨_, accepted, target, fun spelled => ?_, failed⟩
  rw [(spells.1 spelled).1] at dotted
  cases dotted

end Settings

end SourceBundle
