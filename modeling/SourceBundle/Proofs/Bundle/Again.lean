import SourceBundle.Proofs.Bundle.Runs
import SourceBundle.Proofs.Bundle.Staging
import SourceBundle.Proofs.Collect.Unnoticed

/-!
Running again at once. The second run repeats the first where the output path still leads to the bundle and the bundle
has not become a source of itself.
-/

namespace SourceBundle

namespace FileTree.Replaces

variable {t made changed : FileTree} {p : Path} {content other : ByteArray} {place o : Location} {name : String}

theorem entryPlace_again (replaces : t.Replaces p content place name changed) (named : changed.entryPlace p = .ok o) :
    o = place ++ [name] ∧ changed.Names p place name := by
  obtain ⟨steps, split, leads⟩ := replaces.names.above
  obtain ⟨place', entries, last, parent, rfl⟩ := entryPlace_ok named
  obtain rfl := parent_name split parent
  obtain ⟨again, -⟩ := (parent_ok_iff replaces.names.plain).1 parent
  obtain ⟨steps', split', leads'⟩ := again.above
  obtain rfl : steps' = steps := (List.append_inj' (split'.symm.trans split) rfl).1
  have elsewhere : place' ≠ place ++ [last] := by
    intro same
    have inside := again.inside
    rw [same, replaces.file] at inside
    cases inside
  rw [start_eq replaces.agrees.current] at leads'
  have back := leads'.without replaces.agrees replaces.file elsewhere
  obtain rfl : place' = place := Except.ok.inj ((walk_of_leads back).symm.trans (walk_of_leads leads))
  exact ⟨rfl, again⟩

theorem names_of_read (replaces : t.Replaces p content place name changed) (found : changed.read p = .ok other) : other = content ∧ changed.Names p place name := by
  rw [replaces.read] at found
  split at found
  · rename_i named
    obtain ⟨taken, gone⟩ := remove_agrees replaces.names.inside replaces.free
    have larger := (replaces.agrees.trans taken.symm).larger gone
    exact ⟨(Except.ok.inj found).symm, ((entryPlace_ok_iff replaces.names.plain).1 named).grow larger⟩
  · cases found

theorem read_again (larger : made.Extends changed) (replaces : made.Replaces p content place name changed) :
    changed.read p = .ok content := by
  have back : changed.Extends made := by
    refine ⟨replaces.agrees.current, fun other node here => ?_⟩
    by_cases same : other = place ++ [name]
    · subst same
      have there := larger.kept _ _ replaces.file
      rw [replaces.file, ← there, here]
    · rw [replaces.agrees.same other same, here]
  have leads := (replaces.names.grow back).resolve replaces.ends replaces.short replaces.file (by simp)
  exact read_ok_iff.2 ⟨_, _, leads, replaces.file⟩

end FileTree.Replaces

namespace Settings

variable {s : Settings} {t changed : FileTree} {files : List RewrittenFile} {receipt : Receipt}

theorem toUTF8_inj {a b : String} (same : a.toUTF8 = b.toUTF8) : a = b := String.toByteArray_inj.1 same

/-- The bundle of the files is read at the output path, and it is what another run would write for the same files. -/
def Settled (s : Settings) (t : FileTree) (files : List RewrittenFile) : Prop :=
  t.read s.output = .ok (bundleText files).toUTF8 ∧
    ∃ again, s.plan t = .ok again ∧ again.map (·.file) = files.map (·.file) ∧ bundleText again = bundleText files

theorem run_settled_iff (planned : s.plan t = .ok files) (ran : s.run t = (changed, .ok receipt)) :
    s.run changed = (changed, .ok receipt) ↔ s.Settled changed files := by
  obtain ⟨files', planned', rfl, made, place, name, writes⟩ := run_ok_iff.1 ran
  obtain rfl : files = files' := Except.ok.inj (planned.symm.trans planned')
  have replaces := writes.replaces
  constructor
  · intro repeated
    obtain ⟨again, replanned, same, made', place', name', writes'⟩ := run_ok_iff.1 repeated
    have found := writes'.replaces.read_again writes'.makes.larger
    obtain ⟨bytes, -⟩ := replaces.names_of_read found
    have text : bundleText again = bundleText files := toUTF8_inj bytes
    rw [Receipt.mk.injEq] at same
    exact ⟨found.trans (congrArg Except.ok bytes), again, replanned, same.2.1.symm, text⟩
  · rintro ⟨found, again, replanned, same, text⟩
    obtain ⟨-, names⟩ := replaces.names_of_read found
    have bytes : (Buffer.holding files).bytes = (Buffer.holding again).bytes := by
      rw [Buffer.holding, Buffer.holding, text]
    have written := Buffer.write_again writes.staged names replaces.ends replaces.short
      (bytes ▸ replaces.file)
    rw [run_eq, replanned]
    simp only [written, same, size_holding]
    rw [← Report.size_bundleText, text, Report.size_bundleText]

/-- A run that has succeeded is repeated by a second one just where it has settled. It has where the output path still
names the bundle, no source file is collected at that place, and the plan is the same without the bundle. -/
theorem run_again (planned : s.plan t = .ok files) (ran : s.run t = (changed, .ok receipt)) :
    (s.run changed = (changed, .ok receipt) ↔ s.Settled changed files) ∧
    ∀ o, changed.entryPlace s.output = .ok o → s.plan (changed.remove o) = .ok files →
      ¬ s.CollectsAt changed o → s.run changed = (changed, .ok receipt) := by
  have repeats := run_settled_iff planned ran
  refine ⟨repeats, fun o named without apart => repeats.2 ?_⟩
  obtain ⟨files', planned', -, made, place, name, writes⟩ := run_ok_iff.1 ran
  obtain rfl : files = files' := Except.ok.inj (planned.symm.trans planned')
  have replaces := writes.replaces
  obtain ⟨rfl, names⟩ := replaces.entryPlace_again named
  have file := replaces.file
  have free : changed.shown? (place ++ [name]) ≠ some (.directory .empty) := by simp [file]
  obtain ⟨taken, gone⟩ := FileTree.remove_agrees names.inside free
  have leads := names.resolve replaces.ends replaces.short file (by simp)
  refine ⟨FileTree.read_ok_iff.2 ⟨_, _, leads, file⟩, files, ?_, rfl, rfl⟩
  exact plan_unnoticed taken.symm file gone apart without

theorem run_again_out :
    (bundledInto "out").run ((bundledInto "out").run cluttered).1 =
      (((bundledInto "out").run cluttered).1, .ok (clutteredReceipt "out")) := by
  have planned : (bundledInto "out").plan cluttered = .ok clutteredFiles := by decide +kernel
  have ran : (bundledInto "out").run cluttered =
      (((bundledInto "out").run cluttered).1, .ok (clutteredReceipt "out")) :=
    Prod.ext rfl (by decide +kernel)
  apply (run_again planned ran).2 ["out"] (by decide +kernel) (by decide +kernel)
  rintro ⟨source, names, name, leads, same, -⟩
  have found : ((bundledInto "out").run cluttered).1.resolve ⟨"src"⟩ = .ok ["src"] := by decide +kernel
  rw [show (bundledInto "out").source = ⟨"src"⟩ from rfl, found] at leads
  cases leads
  simp at same

theorem run_again_grows :
    ((bundledInto "src/c.swift").run cluttered).2 = .ok (clutteredReceipt "src/c.swift") ∧
      ((bundledInto "src/c.swift").run ((bundledInto "src/c.swift").run cluttered).1).2 =
        .ok ⟨⟨"src/c.swift"⟩, (clutteredReceipt "").files ++ [⟨⟨"src/c.swift"⟩, ["c.swift"]⟩], 45⟩ := by
  decide +kernel

end Settings

end SourceBundle
