import SourceBundle.FileTree.Node

/-!
The entries of a directory. They have names that a path can spell, stand in increasing order of these, and each name
stands once; every directory below is of the same kind. Each change of a directory keeps this.
-/

namespace SourceBundle

def isName (name : String) : Bool :=
  !name.toList.isEmpty && !name.toList.contains '/' && !name.toList.contains '\x00' &&
    name.toList != ['.'] && name.toList != ['.', '.']

mutual

def Node.proper : Node → Bool
  | .directory entries => entries.proper
  | _ => true

def Entries.Raw.proper : Entries.Raw → Bool
  | .empty => true
  | .entry name node others =>
      isName name && others.names.all (fun other => decide (name < other)) && node.proper && others.proper

end

namespace Entries.Raw

variable {name other : String} {node : Node} {entries others inner : Entries.Raw} {place : Location}
  {edit : Entries.Raw → Entries.Raw}

/-- What holds of an empty directory and stays when a first entry is added holds of every directory; a directory
that is added comes with what holds of it. -/
theorem walkInduction {motive : Entries.Raw → Prop} (empty : motive .empty)
    (directory : ∀ name inner others, motive inner → motive others →
      motive (.entry name (.directory inner) others))
    (leaf : ∀ name node others, (∀ inner, node ≠ .directory inner) → motive others →
      motive (.entry name node others)) :
    ∀ entries, motive entries
  | .empty => empty
  | .entry name (.directory inner) others =>
      directory name inner others (walkInduction empty directory leaf inner)
        (walkInduction empty directory leaf others)
  | .entry name (.file content mode) others =>
      leaf name _ others (by simp) (walkInduction empty directory leaf others)
  | .entry name (.link target) others =>
      leaf name _ others (by simp) (walkInduction empty directory leaf others)

theorem proper_entry : (entry name node others).proper = true ↔
    isName name = true ∧ (∀ other ∈ others.names, name < other) ∧ node.proper = true ∧ others.proper = true := by
  simp [proper, and_assoc]

theorem find?_entry : (entry name node others).find? other = if name = other then some node else others.find? other :=
  rfl

theorem proper_of_find? (proper : entries.proper = true) (found : entries.find? name = some node) :
    isName name = true ∧ node.proper = true := by
  induction entries using walkInduction with
  | empty => cases found
  | directory first inner others _ ih | leaf first old others _ ih =>
      obtain ⟨named, -, inside, later⟩ := proper_entry.1 proper
      rw [find?_entry] at found
      split at found
      · rename_i same
        obtain rfl := Option.some.inj found
        exact ⟨same ▸ named, inside⟩
      · exact ih later found

theorem names_insert (member : other ∈ (entries.insert name node).names) : other = name ∨ other ∈ entries.names := by
  induction entries using walkInduction with
  | empty => simpa [insert, names] using member
  | directory first inner others _ ih | leaf first old others _ ih =>
      rw [insert] at member
      split at member
      · rename_i same
        simpa [names, same] using member
      · split at member
        · simpa [names] using member
        · rw [names, List.mem_cons] at member ⊢
          rcases member with rfl | member
          · exact .inr (.inl rfl)
          · exact (ih member).imp_right .inr

theorem proper_insert (proper : entries.proper = true) (named : isName name = true) (inside : node.proper = true) :
    (entries.insert name node).proper = true := by
  induction entries using walkInduction with
  | empty => simp [insert, Entries.Raw.proper, names, named, inside]
  | directory first inner others _ ih | leaf first old others _ ih =>
      obtain ⟨here, before, old', later⟩ := proper_entry.1 proper
      rw [insert]
      split
      · rename_i same
        rw [proper_entry]
        exact ⟨named, same ▸ before, inside, later⟩
      · rename_i differs
        split
        · rename_i less
          rw [proper_entry]
          refine ⟨named, ?_, inside, proper⟩
          rw [names, List.forall_mem_cons]
          exact ⟨less, fun other member => String.lt_trans less (before other member)⟩
        · rename_i greater
          rw [proper_entry]
          refine ⟨here, ?_, old', ih later⟩
          intro other member
          rcases names_insert member with rfl | member
          · exact Std.lt_of_le_of_ne (String.not_lt.1 greater) (Ne.symm differs)
          · exact before other member

theorem names_erase (member : other ∈ (entries.erase name).names) : other ∈ entries.names := by
  induction entries using walkInduction with
  | empty => exact member
  | directory first old others _ ih | leaf first old others _ ih =>
      rw [erase] at member
      split at member
      · exact List.mem_cons_of_mem _ member
      · rw [names, List.mem_cons] at member ⊢
        exact member.imp_right ih

theorem proper_erase (proper : entries.proper = true) : (entries.erase name).proper = true := by
  induction entries using walkInduction with
  | empty => exact proper
  | directory first old others _ ih | leaf first old others _ ih =>
      obtain ⟨named, before, inside, later⟩ := proper_entry.1 proper
      rw [erase]
      split
      · exact later
      · exact proper_entry.2 ⟨named, fun other member => before other (names_erase member), inside, ih later⟩

theorem proper_editAt (proper : entries.proper = true)
    (kept : ∀ inner, inner.proper = true → (edit inner).proper = true) (place : Location) :
    (entries.editAt edit place).proper = true := by
  induction place generalizing entries with
  | nil => exact kept entries proper
  | cons name place ih =>
      rw [editAt]
      split
      · rename_i inner found
        obtain ⟨named, inside⟩ := proper_of_find? proper found
        exact proper_insert proper named (ih inside)
      · exact proper

theorem proper_place (inside : node.proper = true) (place : Location) (entries : Entries.Raw)
    (named : ∀ name ∈ place, isName name = true) (proper : entries.proper = true) :
    (entries.place node place).proper = true := by
  induction place generalizing entries with
  | nil => exact proper
  | cons name place ih =>
      rw [List.forall_mem_cons] at named
      cases place with
      | nil => exact proper_insert proper named.1 inside
      | cons next place =>
          rw [Entries.Raw.place]
          · split
            · rename_i inner found
              exact proper_insert proper named.1 (ih inner named.2 (proper_of_find? proper found).2)
            · exact proper_insert proper named.1 (ih .empty named.2 rfl)
          · simp

end Entries.Raw

structure Entries where
  raw : Entries.Raw
  proper : raw.proper = true

namespace Entries

def empty : Entries := ⟨.empty, rfl⟩

def place (node : Node) (place : Location) (entries : Entries) : Entries :=
  if sound : node.proper = true ∧ ∀ name ∈ place, isName name = true then
    ⟨entries.raw.place node place, Raw.proper_place sound.1 place entries.raw sound.2 entries.proper⟩
  else entries

/-- Gives a name a node in the directory at a place. A name that no entry may have gets none. -/
def insertAt (place : Location) (name : String) (node : Node) (entries : Entries) : Entries :=
  if sound : isName name = true ∧ node.proper = true then
    ⟨entries.raw.editAt (fun inner => inner.insert name node) place,
      Raw.proper_editAt entries.proper (fun _ inner => Raw.proper_insert inner sound.1 sound.2) place⟩
  else entries

def eraseAt (place : Location) (name : String) (entries : Entries) : Entries :=
  ⟨entries.raw.editAt (fun inner => inner.erase name) place,
    Raw.proper_editAt entries.proper (fun _ => Raw.proper_erase) place⟩

theorem raw_insertAt {place : Location} {name : String} {node : Node} (entries : Entries) (named : isName name = true)
    (inside : node.proper = true) :
    (entries.insertAt place name node).raw = entries.raw.editAt (fun inner => inner.insert name node) place := by
  rw [insertAt, dif_pos ⟨named, inside⟩]

end Entries

end SourceBundle
