import SourceBundle.Proofs.Bundle.Contents
import SourceBundle.Proofs.Bundle.Staging

/-!
The steps behind the replacement of a file: a temporary file is made beside the entry, filled, given its mode and moved.
Where a step fails the temporary file is taken away. What comes out is the replacement in one step.
-/

namespace SourceBundle

open Text

namespace FileTree

def privateMode : Nat := 0o600

def createNew (t : FileTree) (p : Path) : Except Fault (Location × String × FileTree) := do
  let (place, entries, name) ← t.parent p
  if isDots name then .error .occupied
  else match lookUp name entries with
    | .ok _ => .error .occupied
    | .error .missing => .ok (place, name, t.put place name (.file .empty privateMode))
    | .error fault => .error fault

def rename (t : FileTree) (o : Location) (p : Path) : Except Fault FileTree := do
  let (place, name) ← t.destination p
  match t.node? o with
  | some node => .ok ((t.remove o).put place name node)
  | none => .error .missing

end FileTree

namespace Buffer

def fillTemporary (b : Buffer) (t : FileTree) (place : Location) (name : String) (p : Path) : FileTree :=
  let filled := t.put place name (.file b.bytes FileTree.privateMode)
  filled.put place name (.file b.bytes ((filled.mode? p).getD FileTree.standardMode))

/-- Puts the bytes into the file at a path by way of a temporary file with the given name. Where that fails, the
temporary file is taken away. -/
def moveInto (b : Buffer) (temporary : String) (t : FileTree) (p : Path) : FileTree × Option Fault :=
  match t.createNew ((stagingDirectory p).join ⟨temporary⟩) with
  | .error fault => (t, some fault)
  | .ok (place, name, opened) =>
      let staged := b.fillTemporary opened place name p
      match staged.rename (place ++ [name]) p with
      | .error fault => (staged.remove (place ++ [name]), some fault)
      | .ok moved => (moved, none)

end Buffer

namespace Path

variable {p : Path} {name : String} {x : List Char}

theorem names_of_text (text : p.text.toList = x ++ '/' :: name.toList) (proper : isName name = true) :
    p.names = ((cut '/' x).map String.ofList).filter (fun s => !s.isEmpty) ++ [name] := by
  obtain ⟨filled, slash, -⟩ := isName_iff.1 proper
  have solid : name ≠ "" := by simpa using filled
  rw [names, cutString, text, cut_append_mark, cut_of_not_mem slash, List.map_append, List.filter_append]
  simp [solid]

theorem join_spec (proper : isName name = true) (filled : p.text ≠ "") :
    (p.join ⟨name⟩).names = p.names ++ [name] ∧ (p.join ⟨name⟩).isAbsolute = p.isAbsolute := by
  have solid : p.text.toList ≠ [] := by simpa using filled
  by_cases ends : p.text.toList.getLast? = some '/'
  · obtain ⟨x, text⟩ := List.getLast?_eq_some_iff.1 ends
    have joined := join_slash proper text
    constructor
    · rw [names_of_text (by rw [joined, String.toList_ofList]) proper, names, cutString, text, cut_append_mark]
      simp
    · rw [joined, isAbsolute, isAbsolute, String.toList_ofList, text]
      cases x <;> simp
  · have joined := join_solid proper solid ends
    have text : (p.join ⟨name⟩).text.toList = p.text.toList ++ '/' :: name.toList := by
      rw [joined]
      simp
    constructor
    · rw [names_of_text text proper]
      rfl
    · rw [isAbsolute, isAbsolute, text, List.head?_append_of_ne_nil _ solid]

theorem check_ok_iff : p.check = .ok () ↔
    p.checkText = .ok () ∧ p.text.utf8ByteSize ≤ greatestSize := by
  constructor
  · intro sound
    have text := checkText_of_check sound
    rw [check_eq text] at sound
    split at sound
    · cases sound
    · rename_i short
      exact ⟨text, Nat.not_lt.1 short⟩
  · rintro ⟨text, short⟩
    rw [check_eq text, if_neg (Nat.not_lt.2 short)]

theorem check_join {other : String} (proper : isName name = true) (proper' : isName other = true)
    (size : name.utf8ByteSize = other.utf8ByteSize) (sound : (p.join ⟨name⟩).check = .ok ()) :
    (p.join ⟨other⟩).check = .ok () := by
  obtain ⟨filled, -, nul, -⟩ := isName_iff.1 proper'
  rw [check_ok_iff, checkText_iff] at sound ⊢
  simp only [join, isAbsolute_name proper, isAbsolute_name proper', Bool.false_eq_true, if_false] at sound ⊢
  split <;> simp_all

end Path

namespace FileTree

variable {t made : FileTree} {p : Path} {place o : Location} {name : String} {node : Node} {content : ByteArray}
  {mode : Nat}

theorem createNew_ok_iff : t.createNew p = .ok (place, name, made) ↔
    t.Names p place name ∧ name.utf8ByteSize ≤ Path.greatestNameSize ∧ t.shown? (place ++ [name]) = none ∧
      made = t.put place name (.file .empty privateMode) := by
  rw [createNew, bind_ok]
  constructor
  · rintro ⟨⟨above, entries, last⟩, parent, created⟩
    dsimp only at created
    split at created
    · cases created
    · rename_i plain
      obtain ⟨names, inside⟩ := (parent_ok_iff (by simpa using plain)).1 parent
      split at created
      · cases created
      · rename_i missing
        obtain ⟨short, absent⟩ := lookUp_missing_iff.1 missing
        cases created
        exact ⟨names, short, by rw [shown?_eq_none, node?_entry inside, absent], rfl⟩
      · cases created
  · rintro ⟨names, short, absent, rfl⟩
    obtain ⟨entries, inside⟩ := shown?_directory.1 names.inside
    rw [shown?_eq_none, node?_entry inside] at absent
    refine ⟨⟨place, entries, name⟩, (parent_ok_iff names.plain).2 ⟨names, inside⟩, ?_⟩
    simp [names.plain, lookUp_missing_iff.2 ⟨short, absent⟩]

theorem rename_ok_iff : t.rename o p = .ok made ↔
    ∃ place name node, t.Destination p place name ∧ t.node? o = some node ∧
      made = (t.remove o).put place name node := by
  rw [rename, bind_ok]
  constructor
  · rintro ⟨⟨place, name⟩, destination, moved⟩
    cases here : t.node? o with
    | none =>
        rw [here] at moved
        cases moved
    | some node =>
        rw [here] at moved
        exact ⟨place, name, node, destination_ok_iff.1 destination, rfl, (Except.ok.inj moved).symm⟩
  · rintro ⟨place, name, node, destination, here, rfl⟩
    refine ⟨(place, name), destination_ok_iff.2 destination, ?_⟩
    rw [here]

structure Adds (t : FileTree) (place : Location) (name : String) (content : ByteArray) (mode : Nat) (u : FileTree) :
    Prop where
  agree : u.AgreesOff (place ++ [name]) t
  file : u.shown? (place ++ [name]) = some (.file content mode)
  inside : t.shown? place = some (.directory .empty)
  free : t.shown? (place ++ [name]) = none

theorem adds_put {u : FileTree} (agree : u.AgreesOff (place ++ [name]) t)
    (closed : u.shown? (place ++ [name]) ≠ some (.directory .empty))
    (inside : t.shown? place = some (.directory .empty)) (free : t.shown? (place ++ [name]) = none)
    (named : isName name = true) :
    t.Adds place name content mode (u.put place name (.file content mode)) := by
  have there : u.shown? place = some (.directory .empty) := by rw [agree.same place (by simp), inside]
  obtain ⟨entries, there⟩ := shown?_directory.1 there
  have shown : ∀ other, (u.put place name (.file content mode)).shown? other =
      if other = place ++ [name] then some (.file content mode) else u.shown? other :=
    shown?_put there named (fun sub here => closed (shown?_directory.2 ⟨sub, here⟩)) rfl
  refine ⟨⟨agree.current, fun other apart => ?_⟩, by rw [shown, if_pos rfl], inside, free⟩
  rw [shown, if_neg apart, agree.same other apart]

theorem adds_created (created : t.createNew p = .ok (place, name, made)) :
    t.Adds place name .empty privateMode made := by
  obtain ⟨names, -, free, rfl⟩ := createNew_ok_iff.1 created
  exact adds_put (.refl t _) (by rw [free]; simp) names.inside free names.isName

namespace Adds

variable {u : FileTree} (adds : t.Adds place name content mode u)

include adds

theorem again (named : isName name = true) (content' : ByteArray) (mode' : Nat) :
    t.Adds place name content' mode' (u.put place name (.file content' mode')) :=
  adds_put adds.agree (by rw [adds.file]; simp) adds.inside adds.free named

theorem removed : u.remove (place ++ [name]) = t := by
  have inside : u.shown? place = some (.directory .empty) := by rw [adds.agree.same place (by simp), adds.inside]
  obtain ⟨taken, gone⟩ := remove_agrees inside (by rw [adds.file]; simp)
  apply eq_of_shown (taken.current.trans adds.agree.current)
  intro other
  by_cases same : other = place ++ [name]
  · rw [same, gone, adds.free]
  · rw [taken.same other same, adds.agree.same other same]

theorem mode?_eq (apart : u.resolve p ≠ .ok (place ++ [name])) : u.mode? p = t.mode? p := by
  apply Option.ext
  intro mode
  constructor
  · intro found
    obtain ⟨goal, content, leads, here⟩ := mode?_eq_some_iff.1 found
    have elsewhere : goal ≠ place ++ [name] := by
      rintro rfl
      exact apart leads
    rw [resolve_ok_iff, start_eq adds.agree.current] at leads
    have kept := leads.2.without adds.agree adds.file elsewhere
    exact mode?_eq_some_iff.2
      ⟨goal, content, resolve_ok_iff.2 ⟨leads.1, kept⟩, by rw [← adds.agree.same goal elsewhere, here]⟩
  · exact (adds.agree.larger adds.free).mode?

theorem destination_iff {above : Location} {last : String} :
    u.Destination p above last ↔ t.Destination p above last := by
  constructor
  · rintro ⟨⟨sound, plain, ⟨steps, split, leads⟩, inside⟩, ends, short, closed⟩
    have elsewhere : above ≠ place ++ [name] := by
      rintro rfl
      rw [adds.file] at inside
      cases inside
    rw [start_eq adds.agree.current] at leads
    refine ⟨⟨sound, plain, ⟨steps, split, leads.without adds.agree adds.file elsewhere⟩, ?_⟩, ends, short, ?_⟩
    · rw [← adds.agree.same above elsewhere, inside]
    · by_cases same : above ++ [last] = place ++ [name]
      · rw [same, adds.free]
        simp
      · rwa [← adds.agree.same _ same]
  · rintro ⟨names, ends, short, closed⟩
    refine ⟨names.grow (adds.agree.larger adds.free), ends, short, ?_⟩
    by_cases same : above ++ [last] = place ++ [name]
    · rw [same, adds.file]
      simp
    · rwa [adds.agree.same _ same]

theorem rename_iff : u.rename (place ++ [name]) p = .ok made ↔
    ∃ above last, t.Destination p above last ∧ made = t.put above last (.file content mode) := by
  have here : u.node? (place ++ [name]) = some (.file content mode) := (shown?_closed (by simp)).1 adds.file
  rw [rename_ok_iff, adds.removed]
  simp only [adds.destination_iff, here, Option.some.injEq]
  constructor
  · rintro ⟨above, last, node, destination, rfl, rfl⟩
    exact ⟨above, last, destination, rfl⟩
  · rintro ⟨above, last, destination, rfl⟩
    exact ⟨above, last, _, destination, rfl, rfl⟩

end Adds

end FileTree

namespace Buffer

variable {b : Buffer} {temporary : String} {t moved : FileTree} {p : Path} {fault : Fault}

/-- No entry has the name yet where the temporary file is made, and the path does not lead to it. -/
def Unused (temporary : String) (t : FileTree) (p : Path) : Prop :=
  ∀ place, t.Names ((stagingDirectory p).join ⟨temporary⟩) place temporary →
    t.shown? (place ++ [temporary]) = none ∧
      ∀ u : FileTree, u.AgreesOff (place ++ [temporary]) t → u.resolve p ≠ .ok (place ++ [temporary])

theorem filled_adds {place : Location} {name : String} {opened : FileTree}
    (created : t.createNew ((stagingDirectory p).join ⟨temporary⟩) = .ok (place, name, opened)) :
    t.Adds place name b.bytes FileTree.privateMode (opened.put place name (.file b.bytes FileTree.privateMode)) :=
  (FileTree.adds_created created).again (FileTree.createNew_ok_iff.1 created).1.isName _ _

theorem fillTemporary_adds {place : Location} {name : String} {opened : FileTree}
    (created : t.createNew ((stagingDirectory p).join ⟨temporary⟩) = .ok (place, name, opened)) :
    t.Adds place name b.bytes
      (((opened.put place name (.file b.bytes FileTree.privateMode)).mode? p).getD FileTree.standardMode)
      (b.fillTemporary opened place name p) :=
  (filled_adds created).again (FileTree.createNew_ok_iff.1 created).1.isName _ _

theorem moveInto_fails (failed : b.moveInto temporary t p = (moved, some fault)) :
    moved = t := by
  unfold moveInto at failed
  split at failed
  · cases failed
    rfl
  · rename_i created
    dsimp only at failed
    split at failed
    · cases failed
      exact (fillTemporary_adds created).removed
    · cases failed

theorem stagingDirectory_filled (p : Path) : (stagingDirectory p).text ≠ "" := by
  rw [stagingDirectory]
  split
  · split
    · simp
    · simp_all
  · simp

theorem names_temporary {place : Location} {name : String} (named : isName temporary = true)
    (sound : ((stagingDirectory p).join ⟨temporary⟩).check = .ok ()) (names : t.Names p place name) :
    t.Names ((stagingDirectory p).join ⟨temporary⟩) place temporary := by
  obtain ⟨joined, absolute⟩ := Path.join_spec named (stagingDirectory_filled p)
  have leads := (FileTree.resolve_ok_iff.1 (resolve_stagingDirectory names)).2
  have plain : FileTree.isDots temporary = false := by
    obtain ⟨-, -, -, dot, dots⟩ := Path.isName_iff.1 named
    rw [FileTree.isDots, Bool.or_eq_false_iff, beq_eq_false_iff_ne, beq_eq_false_iff_ne]
    constructor
    · rintro rfl
      exact dot rfl
    · rintro rfl
      exact dots rfl
  refine ⟨sound, plain, ⟨_, joined, ?_⟩, names.inside⟩
  rw [FileTree.start, absolute, ← FileTree.start]
  exact leads.idle names.inside (Path.steps_filter _).symm

theorem mode?_temporary {place : Location} {name : String} {opened : FileTree} (named : isName temporary = true)
    (unused : Unused temporary t p)
    (created : t.createNew ((stagingDirectory p).join ⟨temporary⟩) = .ok (place, name, opened)) :
    (opened.put place name (.file b.bytes FileTree.privateMode)).mode? p = t.mode? p := by
  obtain ⟨names, -⟩ := FileTree.createNew_ok_iff.1 created
  obtain ⟨steps, split, -⟩ := names.above
  rw [(Path.join_spec named (stagingDirectory_filled p)).1] at split
  obtain rfl : temporary = name := by simpa using (List.append_inj' split rfl).2
  have filled : t.Adds place temporary b.bytes FileTree.privateMode
      (opened.put place temporary (.file b.bytes FileTree.privateMode)) := filled_adds created
  exact filled.mode?_eq ((unused place names).2 _ filled.agree)

theorem moveInto_moves (named : isName temporary = true) (size : temporary.utf8ByteSize = 10) (unused : Unused temporary t p) :
    b.moveInto temporary t p = (moved, none) ↔
      (stagingPath (stagingDirectory p)).check = .ok () ∧ ∃ place name, t.Replaces p b.bytes place name moved := by
  have standard : isName ".tmp000000" = true := by decide
  have same : temporary.utf8ByteSize = ".tmp000000".utf8ByteSize := size
  unfold moveInto
  constructor
  · intro done
    split at done
    · cases done
    · rename_i created
      have sound := (FileTree.createNew_ok_iff.1 created).1.sound
      dsimp only at done
      split at done
      · rw [Prod.mk.injEq] at done
        cases done.2
      · rename_i renamed
        cases done
        obtain ⟨place, name, destination, put⟩ := (fillTemporary_adds created).rename_iff.1 renamed
        rw [mode?_temporary named unused created] at put
        exact ⟨Path.check_join named standard same sound, place, name, destination, put⟩
  · rintro ⟨sound, place, name, destination, rfl⟩
    have names := names_temporary named (Path.check_join standard named same.symm sound) destination.names
    have greatest : Path.greatestNameSize = 255 := rfl
    have short : temporary.utf8ByteSize ≤ Path.greatestNameSize := by omega
    have created := FileTree.createNew_ok_iff.2 ⟨names, short, (unused place names).1, rfl⟩
    have staged : t.Adds place temporary b.bytes ((t.mode? p).getD FileTree.standardMode) _ :=
      mode?_temporary (b := b) named unused created ▸ fillTemporary_adds created
    simp only [created, staged.rename_iff.2 ⟨place, name, destination, rfl⟩]

def writeThrough (b : Buffer) (temporary : String) (t : FileTree) (p : Path) : FileTree × Except Error Nat :=
  match t.createDirectories (stagingDirectory p).text.utf8ByteSize (stagingDirectory p) with
  | (made, some fault) => (made, .error (.directoryCreation (stagingDirectory p) fault))
  | (made, none) =>
      match b.moveInto temporary made p with
      | (left, some fault) => (left, .error (.fileWrite p fault))
      | (moved, none) => (moved, .ok b.size)

/-- Whatever step fails or none, a temporary file with a name of its own leaves the tree that is left by the
replacement in one step. -/
theorem writeThrough_eq (named : isName temporary = true) (size : temporary.utf8ByteSize = 10)
    (unused : ∀ made, t.MakesDirectories (stagingDirectory p) made → Unused temporary made p) :
    (b.writeThrough temporary t p).1 = (b.write t p).1 ∧
      (b.writeThrough temporary t p).2.toOption = (b.write t p).2.toOption := by
  have makes := t.createDirectories_makes (stagingDirectory p).text.utf8ByteSize (stagingDirectory p)
  rcases directories : t.createDirectories (stagingDirectory p).text.utf8ByteSize (stagingDirectory p) with
    ⟨made, _ | fault⟩
  · rw [directories] at makes
    have replaces : ∀ moved, b.moveInto temporary made p = (moved, none) ↔
        (stagingPath (stagingDirectory p)).check = .ok () ∧
          ∃ place name, made.Replaces p b.bytes place name moved :=
      fun _ => moveInto_moves named size (unused made makes)
    rcases moves : b.moveInto temporary made p with ⟨left, _ | fault⟩
    · obtain ⟨staged, place, name, replaced⟩ := (replaces left).1 moves
      have written : b.write t p = (left, .ok b.size) :=
        write_ok_iff.2 ⟨rfl, made, place, name, directories, staged, replaced⟩
      simp only [writeThrough, directories, moves, written, and_self]
    · obtain rfl := moveInto_fails moves
      -- Had the bytes been put in place at once, the temporary file could have been moved there.
      have refused : ∀ moved, ((stagingPath (stagingDirectory p)).check >>= fun _ => left.replaceFile p b.bytes) ≠
          .ok moved := by
        intro moved replaced
        obtain ⟨⟨⟩, staged, replaced⟩ := bind_ok.1 replaced
        obtain ⟨place, name, replaced⟩ := FileTree.replaceFile_ok_iff.1 replaced
        rw [(replaces moved).2 ⟨staged, place, name, replaced⟩] at moves
        cases moves
      simp only [writeThrough, write, directories, moves]
      split
      · exact ⟨rfl, rfl⟩
      · rename_i replaced
        exact absurd replaced (refused _)
  · simp only [writeThrough, write, directories, and_self]

end Buffer

namespace Settings

variable {s : Settings} {t : FileTree} {temporary : String}

/-- A run that takes the steps one by one leaves the tree of a run, and it has the same to show for it. -/
theorem runBy_writeThrough (named : isName temporary = true) (size : temporary.utf8ByteSize = 10)
    (unused : ∀ made, t.MakesDirectories (Buffer.stagingDirectory s.output) made →
      Buffer.Unused temporary made s.output) :
    (s.runBy (·.writeThrough temporary) t).1 = (s.run t).1 ∧
      (s.runBy (·.writeThrough temporary) t).2.toOption = (s.run t).2.toOption := by
  rw [runBy_eq, run_eq]
  cases planned : s.plan t with
  | error e => exact ⟨rfl, rfl⟩
  | ok files =>
      obtain ⟨tree, size⟩ := Buffer.writeThrough_eq (b := .holding files) named size unused
      dsimp only
      rcases through : (Buffer.holding files).writeThrough temporary t s.output with ⟨left, e | n⟩
      · rcases written : (Buffer.holding files).write t s.output with ⟨changed, e' | n'⟩
        · rw [through, written] at tree
          exact ⟨tree, rfl⟩
        · rw [through, written] at size
          cases size
      · rcases written : (Buffer.holding files).write t s.output with ⟨changed, e' | n'⟩
        · rw [through, written] at size
          cases size
        · rw [through, written] at tree size
          cases size
          exact ⟨tree, rfl⟩

end Settings

end SourceBundle
