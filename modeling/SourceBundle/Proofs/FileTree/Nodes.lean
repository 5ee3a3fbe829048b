import SourceBundle.FileTree.Change
import SourceBundle.Proofs.Collect.Entries

/-!
What stands at the places of a file tree, and how putting a node into a directory or taking one out of it changes
that: at the place of the node, and nowhere else.
-/

namespace SourceBundle

namespace Node

/-- The node by itself; of a directory only that it is one. -/
def alone : Node → Node
  | .directory _ => .directory .empty
  | .file content mode => .file content mode
  | .link target => .link target

def at? (below : Location) : Node → Option Node
  | .directory inner => inner.at? below
  | .file content mode => if below.isEmpty then some (.file content mode) else none
  | .link target => if below.isEmpty then some (.link target) else none

variable {node : Node}

theorem alone_eq_directory : node.alone = .directory .empty ↔ ∃ entries, node = .directory entries := by
  cases node <;> simp [alone]

theorem eq_of_alone (closed : ∀ entries, node ≠ .directory entries) : node.alone = node := by
  cases node with
  | directory entries => exact absurd rfl (closed entries)
  | file content mode | link target => rfl

theorem at?_nil (node : Node) : node.at? [] = some node := by
  cases node <;> rfl

theorem at?_cons_of_closed (closed : ∀ entries, node ≠ .directory entries) (name : String) (below : Location) :
    node.at? (name :: below) = none := by
  cases node with
  | directory entries => exact absurd rfl (closed entries)
  | file content mode | link target => rfl

end Node

namespace Entries.Raw

variable {entries inner : Entries.Raw} {name other : String} {node : Node} {place a b : Location}
  {edit : Entries.Raw → Entries.Raw}

theorem at?_cons (entries : Entries.Raw) (name : String) (below : Location) :
    entries.at? (name :: below) = (entries.find? name).bind (Node.at? below) := by
  rw [at?]
  cases entries.find? name with
  | none => rfl
  | some node => cases node <;> rfl

theorem at?_append (entries : Entries.Raw) (a b : Location) : entries.at? (a ++ b) = (entries.at? a).bind (Node.at? b) := by
  induction a generalizing entries with
  | nil => rfl
  | cons name a ih =>
      rw [List.cons_append, at?_cons, at?_cons]
      cases entries.find? name with
      | none => rfl
      | some node =>
          cases node with
          | directory inner => exact ih inner
          | file content mode | link target => cases a <;> rfl

theorem find?_insert (entries : Entries.Raw) :
    (entries.insert name node).find? other = if name = other then some node else entries.find? other := by
  induction entries using walkInduction with
  | empty => rfl
  | directory first old others _ ih | leaf first old others _ ih =>
      rw [insert]
      split
      · rename_i same
        subst same
        simp only [find?_entry]
        split <;> rfl
      · split
        · rfl
        · rename_i differs _
          rw [find?_entry, find?_entry, ih]
          split
          · rename_i same
            rw [if_neg (same ▸ differs)]
          · rfl

theorem find?_before (before : ∀ other ∈ entries.names, name < other) : entries.find? name = none := by
  rw [Option.eq_none_iff_forall_ne_some]
  intro node found
  exact lt_irrefl _ (before _ (mem_names found))

theorem find?_smaller (before : ∀ later ∈ others.names, name < later) (less : other < name) :
    (entry name node others).find? other = none := by
  rw [find?_entry, if_neg less.ne', find?_before fun later member => less.trans (before later member)]

theorem find?_erase (proper : entries.proper = true) :
    (entries.erase name).find? other = if name = other then none else entries.find? other := by
  induction entries using walkInduction with
  | empty => simp [erase, find?]
  | directory first old others _ ih | leaf first old others _ ih =>
      obtain ⟨-, before, -, later⟩ := proper_entry.1 proper
      rw [erase]
      split
      · rename_i same
        subst same
        rw [find?_entry]
        split
        · rename_i same
          subst same
          exact find?_before before
        · rfl
      · rename_i differs
        rw [find?_entry, find?_entry, ih later]
        split
        · rename_i same
          rw [if_neg (same ▸ Ne.symm differs)]
        · rfl

theorem at?_editAt (here : entries.at? place = some (.directory inner)) (other : Location) :
    ((entries.editAt edit place).at? other).map Node.alone =
      if place <+: other then ((edit inner).at? (other.drop place.length)).map Node.alone
      else (entries.at? other).map Node.alone := by
  induction place generalizing entries other with
  | nil =>
      obtain rfl : entries = inner := by simpa [at?] using here
      simp [editAt]
  | cons name place ih =>
      rw [at?_cons] at here
      obtain ⟨node, found, here⟩ := Option.bind_eq_some_iff.1 here
      cases node with
      | file content mode | link target => cases place <;> cases here
      | directory sub =>
          rw [editAt, found]
          cases other with
          | nil => rfl
          | cons first other =>
              simp only [at?_cons, find?_insert, List.cons_prefix_cons, List.length_cons, List.drop_succ_cons]
              by_cases same : name = first
              · subst same
                simpa [found, Node.at?] using ih here other
              · simp [same]

theorem entry_of_shown {b : Entries.Raw} (proper : (entry name node others).proper = true) (proper' : b.proper = true)
    (same : ∀ place, ((entry name node others).at? place).map Node.alone = (b.at? place).map Node.alone) :
    ∃ node' others', b = entry name node' others' ∧
      (∀ place, (node.at? place).map Node.alone = (node'.at? place).map Node.alone) ∧
      ∀ place, (others.at? place).map Node.alone = (others'.at? place).map Node.alone := by
  simp only [proper_entry] at proper
  obtain ⟨-, before, -, -⟩ := proper
  have shown : ∀ first below, (((entry name node others).find? first).bind (Node.at? below)).map Node.alone =
      ((b.find? first).bind (Node.at? below)).map Node.alone := by
    intro first below
    rw [← at?_cons, ← at?_cons, same]
  cases b with
  | empty =>
      have here := shown name []
      rw [find?_entry, if_pos rfl, Option.bind_some, Node.at?_nil] at here
      cases here
  | entry first node' others' =>
      obtain ⟨-, before', -, -⟩ := proper_entry.1 proper'
      -- The smaller of two different names would be shown by one of the directories only.
      have first_eq : first = name := by
        rcases lt_trichotomy name first with less | same | less
        · have here := shown name []
          rw [find?_smaller before' less, find?_entry, if_pos rfl, Option.bind_some, Node.at?_nil] at here
          cases here
        · exact same.symm
        · have here := shown first []
          rw [find?_smaller before less, find?_entry, if_pos rfl, Option.bind_some, Node.at?_nil] at here
          cases here
      subst first_eq
      refine ⟨node', others', rfl, fun place => ?_, fun place => ?_⟩
      · have here := shown first place
        rwa [find?_entry, if_pos rfl, find?_entry, if_pos rfl] at here
      · cases place with
        | nil => rfl
        | cons next place =>
            rw [at?_cons, at?_cons]
            by_cases last : first = next
            · subst last
              rw [find?_before before, find?_before before']
            · have here := shown next place
              rwa [find?_entry, if_neg last, find?_entry, if_neg last] at here

theorem eq_of_shown {b : Entries.Raw} (proper : entries.proper = true) (proper' : b.proper = true)
    (same : ∀ place, (entries.at? place).map Node.alone = (b.at? place).map Node.alone) : entries = b := by
  induction entries using walkInduction generalizing b with
  | empty =>
      cases b with
      | empty => rfl
      | entry first node others =>
          have here := same [first]
          rw [at?_cons, at?_cons, find?_entry, if_pos rfl, Option.bind_some, Node.at?_nil] at here
          cases here
  | directory name inner others ih ih' =>
      obtain ⟨node', others', rfl, inside, rest⟩ := entry_of_shown proper proper' same
      obtain ⟨-, -, sound, later⟩ := proper_entry.1 proper
      obtain ⟨-, -, sound', later'⟩ := proper_entry.1 proper'
      have kind := inside []
      rw [Node.at?_nil, Node.at?_nil, Option.map_some, Option.map_some, Option.some.injEq, eq_comm,
        show (Node.directory inner).alone = .directory .empty from rfl, Node.alone_eq_directory] at kind
      obtain ⟨inner', rfl⟩ := kind
      rw [ih sound sound' inside, ih' later later' rest]
  | leaf name node others closed ih =>
      obtain ⟨node', others', rfl, inside, rest⟩ := entry_of_shown proper proper' same
      obtain ⟨-, -, -, later⟩ := proper_entry.1 proper
      obtain ⟨-, -, -, later'⟩ := proper_entry.1 proper'
      have kind := inside []
      rw [Node.at?_nil, Node.at?_nil, Option.map_some, Option.map_some, Option.some.injEq,
        Node.eq_of_alone closed] at kind
      have closed' : ∀ inner, node' ≠ .directory inner := by
        rintro inner rfl
        exact closed _ kind
      rw [Node.eq_of_alone closed'] at kind
      rw [kind, ih later later' rest]

end Entries.Raw

namespace FileTree

def shown? (t : FileTree) (place : Location) : Option Node := (t.node? place).map Node.alone

variable {t : FileTree} {place other : Location} {name : String} {node : Node} {inner : Entries.Raw}

theorem shown?_directory :
    t.shown? place = some (.directory .empty) ↔ ∃ inner, t.node? place = some (.directory inner) := by
  simp only [shown?, Option.map_eq_some_iff, Node.alone_eq_directory]
  constructor
  · rintro ⟨_, here, inner, rfl⟩
    exact ⟨inner, here⟩
  · rintro ⟨inner, here⟩
    exact ⟨_, here, inner, rfl⟩

theorem shown?_closed (closed : ∀ inner, node ≠ .directory inner) :
    t.shown? place = some node ↔ t.node? place = some node := by
  rw [shown?, Option.map_eq_some_iff]
  constructor
  · rintro ⟨other, here, same⟩
    have closed' : ∀ inner, other ≠ .directory inner := by
      rintro inner rfl
      exact closed _ same.symm
    rw [Node.eq_of_alone closed'] at same
    rw [here, same]
  · intro here
    exact ⟨node, here, Node.eq_of_alone closed⟩

theorem shown?_eq_none : t.shown? place = none ↔ t.node? place = none := Option.map_eq_none_iff

theorem node?_child (here : t.node? place = some (.directory inner)) (name : String) (below : Location) :
    t.node? (place ++ name :: below) = (inner.find? name).bind (Node.at? below) := by
  rw [node?] at here ⊢
  rw [Entries.Raw.at?_append, here, Option.bind_some, Node.at?, Entries.Raw.at?_cons]

theorem node?_entry (here : t.node? place = some (.directory inner)) (name : String) :
    t.node? (place ++ [name]) = inner.find? name := by
  rw [node?_child here]
  cases inner.find? name with
  | none => rfl
  | some node => exact Node.at?_nil node

theorem eq_of_shown {u : FileTree} (current : t.current = u.current)
    (same : ∀ place, t.shown? place = u.shown? place) : t = u := by
  obtain ⟨⟨a, proper⟩, here⟩ := t
  obtain ⟨⟨b, proper'⟩, there⟩ := u
  obtain rfl : here = there := current
  obtain rfl : a = b := Entries.Raw.eq_of_shown proper proper' same
  rfl

theorem shown?_below (closed : ∀ inner, t.node? place ≠ some (.directory inner)) (name : String)
    (below : Location) : t.shown? (place ++ name :: below) = none := by
  rw [shown?_eq_none, node?, Entries.Raw.at?_append, ← node?]
  cases here : t.node? place with
  | none => rfl
  | some node =>
      apply Node.at?_cons_of_closed
      rintro inner rfl
      exact closed inner here

/-- A file or link, or a directory with nothing in it, is put where no directory is: nothing else changes. -/
theorem shown?_put (here : t.node? place = some (.directory inner)) (named : isName name = true)
    (free : ∀ sub, t.node? (place ++ [name]) ≠ some (.directory sub)) (bare : node.alone = node)
    (other : Location) :
    (t.put place name node).shown? other = if other = place ++ [name] then some node else t.shown? other := by
  have sound : node.proper = true := by
    rw [← bare]
    cases node <;> rfl
  rw [shown?, node?, put, Entries.raw_insertAt _ named sound, Entries.Raw.at?_editAt here]
  split
  · rename_i inside
    obtain ⟨below, rfl⟩ := inside
    rw [List.drop_left]
    cases below with
    | nil => simp [Entries.Raw.at?, shown?, here, Node.alone]
    | cons first below =>
        rw [Entries.Raw.at?_cons, Entries.Raw.find?_insert]
        by_cases same : name = first
        · subst same
          cases below with
          | nil => simp [Node.at?_nil, bare]
          | cons next below =>
              have gone := shown?_below free next below
              rw [List.append_assoc, List.singleton_append] at gone
              rw [if_pos rfl, Option.bind_some, if_neg (by simp), gone]
              rw [← bare]
              cases node <;> rfl
        · rw [if_neg same, if_neg (by simpa using fun h => (same h.symm).elim), shown?, node?_child here]
  · rename_i outside
    rw [if_neg, shown?, node?]
    rintro rfl
    exact outside (List.prefix_append _ _)

theorem put_same {content : ByteArray} {mode : Nat} (here : t.node? place = some (.directory inner))
    (named : isName name = true)
    (there : t.shown? (place ++ [name]) = some (.file content mode)) :
    t.put place name (.file content mode) = t := by
  have free : ∀ sub, t.node? (place ++ [name]) ≠ some (.directory sub) := by
    intro sub directory
    rw [shown?, directory] at there
    cases there
  have current : (t.put place name (.file content mode)).current = t.current := rfl
  apply eq_of_shown current
  intro other
  rw [shown?_put here named free rfl]
  split
  · rename_i same
    rw [same, there]
  · rfl

theorem remove_eq (t : FileTree) (place : Location) (name : String) :
    t.remove (place ++ [name]) = { t with entries := t.entries.eraseAt place name } := by
  simp [remove]

theorem shown?_remove (here : t.node? place = some (.directory inner))
    (free : ∀ sub, t.node? (place ++ [name]) ≠ some (.directory sub)) (other : Location) :
    (t.remove (place ++ [name])).shown? other = if other = place ++ [name] then none else t.shown? other := by
  have inside : inner.proper = true := Entries.Raw.proper_of_at? t.entries.proper here
  rw [remove_eq, shown?, node?, Entries.eraseAt, Entries.Raw.at?_editAt here]
  split
  · rename_i start
    obtain ⟨below, rfl⟩ := start
    rw [List.drop_left]
    cases below with
    | nil => simp [Entries.Raw.at?, shown?, here, Node.alone]
    | cons first below =>
        rw [Entries.Raw.at?_cons, Entries.Raw.find?_erase inside]
        by_cases same : name = first
        · subst same
          rw [if_pos rfl]
          split
          · rfl
          · rename_i further
            obtain ⟨next, below, rfl⟩ := List.exists_cons_of_ne_nil (l := below) fun last => further (by rw [last])
            have gone := shown?_below free next below
            rw [List.append_assoc, List.singleton_append] at gone
            rw [gone]
            rfl
        · rw [if_neg same, if_neg (by simpa using fun h => (same h.symm).elim), shown?, node?_child here]
  · rename_i outside
    rw [if_neg, shown?, node?]
    rintro rfl
    exact outside (List.prefix_append _ _)

end FileTree

end SourceBundle
