import SourceBundle.Command.Execution
import SourceBundle.Proofs.Bundle.Contents
import SourceBundle.Proofs.Bundle.Writing

/-!
What a run does to the file tree. It writes what a dry run shows, and it changes one entry or none; beside that, it
only makes the directories that lead to the bundle.
-/

namespace SourceBundle

/-- Directories are made that lead to a path, and then a file takes the place that the path names. Its mode is that of
the file to which the path led by then. -/
structure FileTree.Receives (t made changed : FileTree) (p : Path) (content : ByteArray) (o : Location) : Prop where
  directories : t.MakesDirectories (Buffer.stagingDirectory p) made
  named : made.entryPlace p = .ok o
  free : made.shown? o ≠ some (.directory .empty)
  file : changed.shown? o = some (.file content ((made.mode? p).getD FileTree.standardMode))
  others : changed.AgreesOff o made
  mode : ∀ mode, t.mode? p = some mode → made.mode? p = some mode

theorem Command.runWith_dry {env : Environment} {o : Options} {t : FileTree} (dry : o.dryRun = true) :
    (runWith env o t).1 = t := by
  rw [runWith]
  split
  · rfl
  · rw [if_pos dry]
    split <;> rfl

namespace Settings

variable {s : Settings} {t changed : FileTree} {files : List RewrittenFile} {receipt : Receipt}

theorem receives_of_writes {b : Buffer} {p : Path} {made : FileTree} {place : Location} {name : String}
    (writes : b.Writes t p made place name changed) : t.Receives made changed p b.bytes (place ++ [name]) where
  directories := writes.makes
  named := (FileTree.entryPlace_ok_iff writes.replaces.names.plain).2 writes.replaces.names
  free := writes.replaces.free
  file := writes.replaces.file
  others := writes.replaces.agrees
  mode _ found := writes.makes.larger.mode? found

theorem size_holding (files : List RewrittenFile) : (Buffer.holding files).size = Report.totalOutput files :=
  Report.size_bundleText files

theorem run_ok_iff : s.run t = (changed, .ok receipt) ↔ ∃ files, s.plan t = .ok files ∧
    receipt = ⟨s.output, files.map (·.file), Report.totalOutput files⟩ ∧
    ∃ made place name, (Buffer.holding files).Writes t s.output made place name changed := by
  rw [run_eq]
  constructor
  · intro ran
    split at ran
    · cases ran
    · rename_i files planned
      split at ran
      · cases ran
      · rename_i size written
        obtain ⟨rfl, writes⟩ := Buffer.write_ok_iff.1 written
        cases ran
        exact ⟨files, planned, by rw [size_holding], writes⟩
  · rintro ⟨files, planned, rfl, writes⟩
    rw [planned]
    simp only [Buffer.write_ok_iff.2 ⟨rfl, writes⟩, size_holding]

theorem run_error {e : Error} (failed : s.run t = (changed, .error e)) :
    s.plan t = .error e ∧ changed = t ∨
      (∃ files, s.plan t = .ok files) ∧ t.MakesDirectories (Buffer.stagingDirectory s.output) changed ∧
        ∃ fault, e = .directoryCreation (Buffer.stagingDirectory s.output) fault ∨
          e = .fileWrite s.output fault := by
  rw [run_eq] at failed
  split at failed
  · rename_i planned
    cases failed
    exact .inl ⟨planned, rfl⟩
  · rename_i files planned
    split at failed
    · rename_i written
      cases failed
      exact .inr ⟨⟨files, planned⟩, Buffer.write_error written⟩
    · cases failed

/-- A dry run changes nothing, and a run that fails before it writes does not either. Else the run takes the files in
the order of the dry run and writes their texts, as many bytes as the dry run shows. The output path leads to them,
unless it led through the entry whose place the bundle has taken. -/
theorem run_as_planned (s : Settings) (t : FileTree) :
    (∀ env o, o.dryRun = true → (Command.runWith env o t).1 = t) ∧
    match s.plan t with
    | .error e => s.run t = (t, .error e)
    | .ok files =>
        (∃ changed fault,
          s.run t = (changed, .error (.directoryCreation (Buffer.stagingDirectory s.output) fault)) ∨
            s.run t = (changed, .error (.fileWrite s.output fault))) ∨
        ∃ made changed o,
          s.run t = (changed, .ok ⟨s.output, files.map (·.file), Report.totalOutput files⟩) ∧
          t.Receives made changed s.output (bundleText files).toUTF8 o ∧
          changed.read s.output = if (made.remove o).entryPlace s.output = .ok o then .ok (bundleText files).toUTF8
            else .error .notDirectory := by
  constructor
  · exact fun env o dry => Command.runWith_dry dry
  · cases planned : s.plan t with
    | error e =>
        rw [run_eq, planned]
    | ok files =>
        dsimp only
        rcases ran : s.run t with ⟨changed, e | receipt⟩
        · left
          rcases run_error ran with ⟨failed, -⟩ | ⟨-, -, fault, rfl | rfl⟩
          · rw [planned] at failed
            cases failed
          · exact ⟨changed, fault, .inl rfl⟩
          · exact ⟨changed, fault, .inr rfl⟩
        · right
          obtain ⟨files', planned', rfl, made, place, name, writes⟩ := run_ok_iff.1 ran
          obtain rfl : files = files' := Except.ok.inj (planned.symm.trans planned')
          exact ⟨made, changed, place ++ [name], rfl, receives_of_writes writes,
            writes.replaces.read⟩

def cluttered : FileTree where
  entries := ⟨.entry "d" (.directory .empty) (.entry "f" (.file .empty 0o600) (.entry "l" (.link ⟨"d"⟩)
    (.entry "src" (.directory (.entry "a.swift" (.file "let a = 1\n".toUTF8 0o644)
      (.entry "b.swift" (.file "let b = 2\n".toUTF8 0o644) .empty))) .empty))), by decide⟩

def clutteredFiles : List RewrittenFile :=
  [⟨⟨⟨"src/a.swift"⟩, ["a.swift"]⟩, 10, "let a = 1\n"⟩, ⟨⟨⟨"src/b.swift"⟩, ["b.swift"]⟩, 10, "let b = 2\n"⟩]

def clutteredReceipt (output : String) : Receipt :=
  ⟨⟨output⟩, [⟨⟨"src/a.swift"⟩, ["a.swift"]⟩, ⟨⟨"src/b.swift"⟩, ["b.swift"]⟩], 22⟩

def bundledInto (output : String) : Settings where
  source := ⟨"src"⟩
  output := ⟨output⟩
  suffixes := [".swift"]
  excluded := []
  recursive := true
  profiles := {}
  language := .swift

theorem run_as_planned_out : ∃ made changed o,
    (bundledInto "out").run cluttered = (changed, .ok (clutteredReceipt "out")) ∧
      cluttered.Receives made changed ⟨"out"⟩ "\nlet a = 1\n\nlet b = 2\n".toUTF8 o := by
  have planned : (bundledInto "out").plan cluttered = .ok clutteredFiles := by decide +kernel
  have result := (run_as_planned (bundledInto "out") cluttered).2
  rw [planned] at result
  rcases result with ⟨changed, fault, failed⟩ | ⟨made, changed, o, ran, receives, -⟩
  · have outcome : ((bundledInto "out").run cluttered).2 = .ok (clutteredReceipt "out") := by decide +kernel
    rcases failed with failed | failed
    · rw [failed] at outcome
      cases outcome
    · rw [failed] at outcome
      cases outcome
  · have text : bundleText clutteredFiles = "\nlet a = 1\n\nlet b = 2\n" := by decide +kernel
    rw [text] at receives
    exact ⟨made, changed, o, ran, receives⟩

theorem run_as_planned_detour :
    ((bundledInto "l/../l").run cluttered).2 = .ok (clutteredReceipt "l/../l") ∧
      ((bundledInto "l/../l").run cluttered).1.read ⟨"l/../l"⟩ = .error .notDirectory := by
  decide +kernel

/-- A run that fails has at most made directories. One that succeeds has made them and put the bundle in the place of
one entry. -/
theorem run_changes (s : Settings) (t : FileTree) :
    match s.run t with
    | (changed, .error _) => t.MakesDirectories (Buffer.stagingDirectory s.output) changed
    | (changed, .ok _) => ∃ files made o, s.plan t = .ok files ∧
        t.Receives made changed s.output (bundleText files).toUTF8 o := by
  rcases ran : s.run t with ⟨changed, e | receipt⟩
  · rcases run_error ran with ⟨-, rfl⟩ | ⟨-, makes, -⟩
    · exact .refl _ _
    · exact makes
  · obtain ⟨files, planned, -, made, place, name, writes⟩ := run_ok_iff.1 ran
    exact ⟨files, made, place ++ [name], planned, receives_of_writes writes⟩

/-- The mode is that of a file to which the path leads only once a directory is made; and there may be nothing at the
output path in the end. -/
theorem run_changes_unforeseen :
    (cluttered.mode? ⟨"n/../f"⟩ = none ∧
      ((bundledInto "n/../f").run cluttered).2 = .ok (clutteredReceipt "n/../f") ∧
      ((bundledInto "n/../f").run cluttered).1.mode? ⟨"n/../f"⟩ = some 0o600) ∧
    ((bundledInto "l/../l").run cluttered).2 = .ok (clutteredReceipt "l/../l") ∧
      ((bundledInto "l/../l").run cluttered).1.leadsSomewhere ⟨"l/../l"⟩ = false := by
  decide +kernel

end Settings

end SourceBundle
