import SourceBundle.Bundle
import SourceBundle.Proofs.FileTree.Directories

/-!
Writing a file. The directories that lead to it are made first; then one entry changes, or none does.
-/

namespace SourceBundle

namespace FileTree

variable {t changed : FileTree} {p : Path} {content : ByteArray} {place : Location} {name : String}

structure Destination (t : FileTree) (p : Path) (place : Location) (name : String) : Prop where
  names : t.Names p place name
  ends : p.endsWithSlash = false
  short : name.utf8ByteSize ≤ Path.greatestNameSize
  free : t.shown? (place ++ [name]) ≠ some (.directory .empty)

theorem destination_ok_iff : t.destination p = .ok (place, name) ↔ t.Destination p place name := by
  rw [destination, bind_ok]
  constructor
  · rintro ⟨⟨above, entries, last⟩, parent, found⟩
    dsimp only at found
    split at found
    · cases found
    · rename_i plain
      obtain ⟨names, inside⟩ := (parent_ok_iff (by simpa using plain)).1 parent
      split at found
      · cases found
      · rename_i size
        have short : last.utf8ByteSize ≤ Path.greatestNameSize := by
          by_contra long
          exact size (by rw [lookUp, if_pos (Nat.not_le.1 long)])
        split at found
        · cases found
        · rename_i ends
          split at found
          · cases found
          · rename_i closed
            cases found
            refine ⟨names, by simpa using ends, short, fun here => ?_⟩
            obtain ⟨sub, here⟩ := shown?_directory.1 here
            rw [node?_entry inside] at here
            exact closed sub (lookUp_ok_iff.2 ⟨short, here⟩)
  · rintro ⟨names, ends, short, free⟩
    obtain ⟨entries, inside⟩ := shown?_directory.1 names.inside
    refine ⟨⟨place, entries, name⟩, (parent_ok_iff names.plain).2 ⟨names, inside⟩, ?_⟩
    have size : lookUp name entries ≠ .error .nameTooLong := by
      rw [lookUp, if_neg (Nat.not_lt.2 short)]
      split <;> simp
    have closed : ∀ sub, lookUp name entries ≠ .ok (.directory sub) := by
      intro sub found
      rw [lookUp_ok_iff, ← node?_entry inside] at found
      exact free (shown?_directory.2 ⟨sub, found.2⟩)
    dsimp only
    rw [names.plain, ends]
    -- By `size` and `closed` neither refusal applies.
    simp only [Bool.false_eq_true, if_false]

structure Replaces (t : FileTree) (p : Path) (content : ByteArray) (place : Location) (name : String)
    (changed : FileTree) : Prop extends t.Destination p place name where
  put : changed = t.put place name (.file content ((t.mode? p).getD standardMode))

theorem replaceFile_ok_iff : t.replaceFile p content = .ok changed ↔
    ∃ place name, t.Replaces p content place name changed := by
  rw [replaceFile, bind_ok]
  constructor
  · rintro ⟨⟨place, name⟩, found, replaced⟩
    exact ⟨place, name, destination_ok_iff.1 found, (Except.ok.inj replaced).symm⟩
  · rintro ⟨place, name, destination, rfl⟩
    exact ⟨(place, name), destination_ok_iff.2 destination, rfl⟩

namespace Replaces

variable (replaces : t.Replaces p content place name changed)

include replaces

theorem shown (other : Location) : changed.shown? other =
    if other = place ++ [name] then some (.file content ((t.mode? p).getD standardMode)) else t.shown? other := by
  obtain ⟨entries, inside⟩ := shown?_directory.1 replaces.names.inside
  have free : ∀ sub, t.node? (place ++ [name]) ≠ some (.directory sub) := fun sub here =>
    replaces.free (shown?_directory.2 ⟨sub, here⟩)
  rw [replaces.put]
  exact shown?_put inside replaces.names.isName free rfl other

theorem file : changed.shown? (place ++ [name]) = some (.file content ((t.mode? p).getD standardMode)) := by
  rw [replaces.shown, if_pos rfl]

theorem agrees : changed.AgreesOff (place ++ [name]) t := by
  refine ⟨?_, fun other apart => ?_⟩
  · rw [replaces.put]
    rfl
  · rw [replaces.shown, if_neg apart]

/-- Where the file is read at the path, and where the path no longer leads to it. -/
theorem read : changed.read p =
      if (t.remove (place ++ [name])).entryPlace p = .ok (place ++ [name]) then .ok content
      else .error .notDirectory := by
  obtain ⟨taken, gone⟩ := remove_agrees replaces.names.inside replaces.free
  exact read_replaced replaces.names replaces.ends replaces.short replaces.free replaces.agrees replaces.file taken gone

end Replaces

end FileTree

namespace Buffer

variable {b : Buffer} {t changed : FileTree} {p : Path} {n : Nat} {e : Error}

structure Writes (b : Buffer) (t : FileTree) (p : Path) (made : FileTree) (place : Location) (name : String)
    (changed : FileTree) : Prop where
  directories : t.createDirectories (stagingDirectory p).text.utf8ByteSize (stagingDirectory p) = (made, none)
  staged : (stagingPath (stagingDirectory p)).check = .ok ()
  replaces : made.Replaces p b.bytes place name changed

theorem write_ok_iff : b.write t p = (changed, .ok n) ↔
    n = b.size ∧ ∃ made place name, b.Writes t p made place name changed := by
  constructor
  · intro written
    rw [write] at written
    split at written
    · cases written
    · rename_i made directories
      split at written
      · cases written
      · rename_i replaced
        obtain ⟨⟨⟩, staged, replaced⟩ := bind_ok.1 replaced
        obtain ⟨place, name, replaces⟩ := FileTree.replaceFile_ok_iff.1 replaced
        cases written
        exact ⟨rfl, made, place, name, directories, staged, replaces⟩
  · rintro ⟨rfl, made, place, name, directories, staged, replaces⟩
    simp only [write, directories, staged, bind, Except.bind, FileTree.replaceFile_ok_iff.2 ⟨place, name, replaces⟩]

theorem write_error (failed : b.write t p = (changed, .error e)) :
    t.MakesDirectories (stagingDirectory p) changed ∧
      ∃ fault, e = .directoryCreation (stagingDirectory p) fault ∨ e = .fileWrite p fault := by
  have makes := t.createDirectories_makes (stagingDirectory p).text.utf8ByteSize (stagingDirectory p)
  rw [write] at failed
  split at failed
  · rename_i made fault directories
    rw [directories] at makes
    cases failed
    exact ⟨makes, fault, .inl rfl⟩
  · rename_i made directories
    rw [directories] at makes
    split at failed
    · rename_i fault _
      cases failed
      exact ⟨makes, fault, .inr rfl⟩
    · cases failed

theorem Writes.makes {made : FileTree} {place : Location} {name : String}
    (writes : b.Writes t p made place name changed) : t.MakesDirectories (stagingDirectory p) made := by
  have makes := t.createDirectories_makes (stagingDirectory p).text.utf8ByteSize (stagingDirectory p)
  rwa [writes.directories] at makes

end Buffer

end SourceBundle
