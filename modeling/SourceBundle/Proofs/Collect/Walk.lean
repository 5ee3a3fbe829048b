import SourceBundle.Proofs.Collect.Entries

/-!
The search for source files as a walk. It reaches an entry by its name, and what is in a directory that is not left
out if the search goes down. The files found are those among the entries reached, in the order of their names, and
the search fails at the first directory whose path cannot be listed.
-/

namespace SourceBundle.Settings

/-- The walk comes from a directory to a node by names; `below` leads to the directory. -/
inductive Reaches (s : Settings) : List String → Entries.Raw → List String → Node → Prop
  | entry {below : List String} {entries : Entries.Raw} {name : String} {node : Node} :
      entries.find? name = some node → s.excludesNames (below ++ [name]) = false →
      Reaches s below entries [name] node
  | inside {below : List String} {entries inner : Entries.Raw} {name : String} {names : List String} {node : Node} :
      entries.find? name = some (.directory inner) → s.excludesNames (below ++ [name]) = false →
      s.recursive = true → Reaches s (below ++ [name]) inner names node →
      Reaches s below entries (name :: names) node

def takes (s : Settings) (t : FileTree) (path : Path) (name : String) : Node → Bool
  | .directory _ => false
  | .file _ _ => s.accepts name
  | .link _ => !t.isDirectory path && s.accepts name

def Stuck (s : Settings) (above : Path) (R : List String → Node → Prop) (names : List String) (fault : Fault) :
    Prop :=
  s.recursive = true ∧ (∃ inner, R names (.directory inner)) ∧ (above.descend names).check = .error fault

/-- What a search finds that reaches the nodes of a relation: their source files in order, or the first directory
that cannot be listed. -/
def Finds (s : Settings) (t : FileTree) (above : Path) (below : List String) (R : List String → Node → Prop) :
    Except Error (List SourceFile) → Prop
  | .ok files =>
      (∀ names fault, ¬ s.Stuck above R names fault) ∧
      (∀ f, f ∈ files ↔ ∃ names node, R names node ∧
        (∃ name ∈ names.getLast?, s.takes t (above.descend names) name node = true) ∧
        f = ⟨above.descend names, below ++ names⟩) ∧
      files.Pairwise fun f g => f.below < g.below
  | .error e =>
      ∃ names fault, s.Stuck above R names fault ∧ e = .directoryRead (above.descend names) fault ∧
        ∀ other fault', s.Stuck above R other fault' → names = other ∨ names < other

variable {s : Settings} {t : FileTree} {above : Path} {below names : List String} {entries others inner : Entries.Raw}
  {name : String} {node m : Node} {fault : Fault} {R R' : List String → Node → Prop}
  {x y : Except Error (List SourceFile)}

theorem Finds.congr (same : ∀ names node, R names node ↔ R' names node) (finds : s.Finds t above below R x) :
    s.Finds t above below R' x := by
  obtain rfl : R = R' := by
    funext names node
    exact propext (same names node)
  exact finds

theorem finds_none : s.Finds t above below (fun _ _ => False) (.ok []) := by
  refine ⟨?_, ?_, .nil⟩
  · rintro names fault ⟨-, ⟨_, none⟩, -⟩
    exact none
  · simp

theorem Finds.append (first : s.Finds t above below R x) (later : s.Finds t above below R' y)
    (order : ∀ names node names' node', R names node → R' names' node' → names < names') :
    s.Finds t above below (fun names node => R names node ∨ R' names node)
      (x >>= fun files => y >>= fun files' => .ok (files ++ files')) := by
  have stuck : ∀ names fault, s.Stuck above (fun names node => R names node ∨ R' names node) names fault ↔
      s.Stuck above R names fault ∨ s.Stuck above R' names fault := by
    intro names fault
    simp only [Stuck, exists_or]
    tauto
  -- What is stuck in the first part comes before all that is reached in the second.
  cases x with
  | error e =>
      obtain ⟨names, fault, here, rfl, least⟩ := first
      refine ⟨names, fault, (stuck _ _).2 (.inl here), rfl, fun other fault' there => ?_⟩
      rcases (stuck _ _).1 there with there | there
      · exact least other fault' there
      · obtain ⟨-, ⟨inner, reached⟩, -⟩ := here
        obtain ⟨-, ⟨inner', reached'⟩, -⟩ := there
        exact .inr (order _ _ _ _ reached reached')
  | ok files =>
      obtain ⟨free, members, sorted⟩ := first
      cases y with
      | error e =>
          obtain ⟨names, fault, here, rfl, least⟩ := later
          refine ⟨names, fault, (stuck _ _).2 (.inr here), rfl, fun other fault' there => ?_⟩
          rcases (stuck _ _).1 there with there | there
          · exact absurd there (free other fault')
          · exact least other fault' there
      | ok files' =>
          obtain ⟨free', members', sorted'⟩ := later
          refine ⟨?_, ?_, ?_⟩
          · intro names fault here
            rcases (stuck _ _).1 here with here | here
            · exact free names fault here
            · exact free' names fault here
          · intro f
            rw [List.mem_append, members, members']
            constructor
            · rintro (⟨names, node, reached, rest⟩ | ⟨names, node, reached, rest⟩)
              · exact ⟨names, node, .inl reached, rest⟩
              · exact ⟨names, node, .inr reached, rest⟩
            · rintro ⟨names, node, reached | reached, rest⟩
              · exact .inl ⟨names, node, reached, rest⟩
              · exact .inr ⟨names, node, reached, rest⟩
          · refine List.pairwise_append.2 ⟨sorted, sorted', fun f member g member' => ?_⟩
            obtain ⟨names, node, reached, -, rfl⟩ := (members f).1 member
            obtain ⟨names', node', reached', -, rfl⟩ := (members' g).1 member'
            exact List.append_left_lt (order _ _ _ _ reached reached')

theorem finds_leaf (closed : ∀ inner, node = .directory inner → s.recursive = false) :
    s.Finds t above below (fun names m => names = [name] ∧ m = node)
      (.ok (if s.takes t (above.join ⟨name⟩) name node then [⟨above.join ⟨name⟩, below ++ [name]⟩] else [])) := by
  refine ⟨?_, ?_, ?_⟩
  · rintro names fault ⟨recursive, ⟨inner, rfl, same⟩, -⟩
    rw [closed inner same.symm] at recursive
    cases recursive
  · intro f
    constructor
    · intro member
      split at member
      · rename_i taken
        exact ⟨[name], node, ⟨rfl, rfl⟩, ⟨name, rfl, taken⟩, by simpa using member⟩
      · cases member
    · rintro ⟨names, m, ⟨rfl, rfl⟩, ⟨last, here, taken⟩, rfl⟩
      obtain rfl : name = last := by simpa using here
      have taken : s.takes t (above.join ⟨name⟩) name m = true := taken
      rw [taken]
      simp
  · split <;> simp

def GoneInto (name : String) (inner : Entries.Raw) (R : List String → Node → Prop) (names : List String) (m : Node) :
    Prop :=
  names = [name] ∧ m = .directory inner ∨ ∃ rest, names = name :: rest ∧ R rest m

theorem Finds.inside (finds : s.Finds t (above.join ⟨name⟩) (below ++ [name]) R x)
    (filled : ∀ rest m, R rest m → rest ≠ []) (sound : (above.join ⟨name⟩).check = .ok ()) :
    s.Finds t above below (GoneInto name inner R) x := by
  -- The directory itself can be listed, so the search fails only at one in it.
  have stuck : ∀ names fault, s.Stuck above (GoneInto name inner R) names fault ↔
      ∃ rest, names = name :: rest ∧ s.Stuck (above.join ⟨name⟩) R rest fault := by
    intro names fault
    constructor
    · rintro ⟨recursive, ⟨m, ⟨rfl, -⟩ | ⟨rest, rfl, reached⟩⟩, failed⟩
      · have sound : (above.descend [name]).check = .ok () := sound
        rw [sound] at failed
        cases failed
      · exact ⟨rest, rfl, recursive, ⟨m, reached⟩, failed⟩
    · rintro ⟨rest, rfl, recursive, ⟨m, reached⟩, failed⟩
      exact ⟨recursive, ⟨m, .inr ⟨rest, rfl, reached⟩⟩, failed⟩
  cases x with
  | error e =>
      obtain ⟨names, fault, here, rfl, least⟩ := finds
      refine ⟨name :: names, fault, (stuck _ _).2 ⟨names, rfl, here⟩, rfl, fun other fault' there => ?_⟩
      obtain ⟨rest, rfl, inside⟩ := (stuck _ _).1 there
      rcases least rest fault' inside with rfl | less
      · exact .inl rfl
      · exact .inr (List.cons_lt_cons_iff.2 (.inr ⟨rfl, less⟩))
  | ok files =>
      obtain ⟨free, members, sorted⟩ := finds
      refine ⟨?_, ?_, sorted⟩
      · intro names fault here
        obtain ⟨rest, rfl, inside⟩ := (stuck _ _).1 here
        exact free rest fault inside
      · intro f
        rw [members]
        constructor
        · rintro ⟨rest, m, reached, ⟨last, here, taken⟩, rfl⟩
          refine ⟨name :: rest, m, .inr ⟨rest, rfl, reached⟩, ⟨last, ?_, taken⟩, by simp⟩
          rw [List.getLast?_cons, Option.mem_def.1 here]
          rfl
        · rintro ⟨names, m, ⟨rfl, rfl⟩ | ⟨rest, rfl, reached⟩, ⟨last, here, taken⟩, rfl⟩
          · cases taken
          · rw [List.getLast?_cons_of_ne_nil (filled rest m reached)] at here
            exact ⟨rest, m, reached, ⟨last, here, taken⟩, by simp⟩

theorem finds_stuck (recursive : s.recursive = true) (failed : (above.join ⟨name⟩).check = .error fault) :
    s.Finds t above below (GoneInto name inner R) (.error (.directoryRead (above.join ⟨name⟩) fault)) := by
  refine ⟨[name], fault, ⟨recursive, ⟨inner, .inl ⟨rfl, rfl⟩⟩, failed⟩, rfl, ?_⟩
  rintro other fault' ⟨-, ⟨m, ⟨rfl, -⟩ | ⟨rest, rfl, -⟩⟩, -⟩
  · exact .inl rfl
  · cases rest with
    | nil => exact .inl rfl
    | cons next rest => exact .inr (List.cons_lt_cons_iff.2 (.inr ⟨rfl, List.nil_lt_cons _ _⟩))

theorem Reaches.filled (reaches : s.Reaches below entries names node) : names ≠ [] := by
  cases reaches <;> simp

theorem Reaches.starts (reaches : s.Reaches below entries names node) :
    ∃ name ∈ entries.names, ∃ rest, names = name :: rest := by
  cases reaches with
  | entry found included => exact ⟨_, Entries.Raw.mem_names found, [], rfl⟩
  | inside found included recursive later => exact ⟨_, Entries.Raw.mem_names found, _, rfl⟩

theorem reaches_empty : ¬ s.Reaches below .empty names node := by
  intro reaches
  obtain ⟨name, member, -⟩ := reaches.starts
  cases member

/-- What the walk reaches at one entry: its node, and what is in it where the search goes down. -/
def ReachesAt (s : Settings) (below : List String) (name : String) (node : Node) (names : List String) (m : Node) :
    Prop :=
  s.excludesNames (below ++ [name]) = false ∧
    (names = [name] ∧ m = node ∨ s.recursive = true ∧ ∃ inner rest, node = .directory inner ∧
      names = name :: rest ∧ s.Reaches (below ++ [name]) inner rest m)

theorem ReachesAt.starts (reaches : s.ReachesAt below name node names m) : ∃ rest, names = name :: rest := by
  obtain ⟨-, ⟨rfl, -⟩ | ⟨-, inner, rest, -, rfl, -⟩⟩ := reaches
  · exact ⟨[], rfl⟩
  · exact ⟨rest, rfl⟩

theorem reaches_entry (fresh : name ∉ others.names) :
    s.Reaches below (.entry name node others) names m ↔
      s.ReachesAt below name node names m ∨ s.Reaches below others names m := by
  constructor
  · intro reaches
    cases reaches with
    | entry found included =>
        rw [Entries.Raw.find?_entry] at found
        split at found
        · rename_i same
          subst same
          exact .inl ⟨included, .inl ⟨rfl, (Option.some.inj found).symm⟩⟩
        · exact .inr (.entry found included)
    | inside found included recursive later =>
        rw [Entries.Raw.find?_entry] at found
        split at found
        · rename_i same
          subst same
          exact .inl ⟨included, .inr ⟨recursive, _, _, Option.some.inj found, rfl, later⟩⟩
        · exact .inr (.inside found included recursive later)
  · have other : ∀ {first m}, others.find? first = some m →
        (Entries.Raw.entry name node others).find? first = some m := by
      intro first m found
      rw [Entries.Raw.find?_entry, if_neg, found]
      rintro rfl
      exact fresh (Entries.Raw.mem_names found)
    have here : (Entries.Raw.entry name node others).find? name = some node := if_pos rfl
    rintro (⟨included, ⟨rfl, rfl⟩ | ⟨recursive, inner, rest, rfl, rfl, later⟩⟩ | reaches)
    · exact .entry here included
    · exact .inside here included recursive later
    · cases reaches with
      | entry found included => exact .entry (other found) included
      | inside found included recursive later => exact .inside (other found) included recursive later

theorem Finds.entry (first : s.Finds t above below R x)
    (same : ∀ names m, R names m ↔ s.ReachesAt below name node names m)
    (before : ∀ other ∈ others.names, name < other) (later : s.Finds t above below (s.Reaches below others) y) :
    s.Finds t above below (s.Reaches below (.entry name node others))
      (x >>= fun files => y >>= fun files' => .ok (files ++ files')) := by
  have fresh : name ∉ others.names := fun member => lt_irrefl name (before name member)
  have order : ∀ names m names' m', R names m → s.Reaches below others names' m' → names < names' := by
    intro names m names' m' here there
    obtain ⟨other, member, rest', rfl⟩ := there.starts
    obtain ⟨rest, rfl⟩ := ((same names m).1 here).starts
    exact List.cons_lt_cons_iff.2 (.inl (before other member))
  apply (first.append later order).congr
  intro names m
  rw [reaches_entry fresh, same]

/-- The search of a directory finds the source files among the entries that the walk reaches. -/
theorem sourcesIn_finds (proper : entries.proper = true) (above : Path) (below : List String) :
    s.Finds t above below (s.Reaches below entries) (s.sourcesIn t above below entries) := by
  -- Each case says what is found at the first entry; the others come after it in the order of names.
  induction entries using Entries.Raw.walkInduction generalizing above below with
  | empty => exact finds_none.congr fun names node => (iff_false_intro reaches_empty).symm
  | directory name inner others ih ih' =>
      obtain ⟨-, before, inside, later⟩ := Entries.Raw.proper_entry.1 proper
      have others := ih' later above below
      rw [sourcesIn]
      cases included : s.excludesNames (below ++ [name]) with
      | true => exact finds_none.entry (by simp [ReachesAt, included]) before others
      | false =>
          cases recursive : s.recursive with
          | false =>
              have alone : s.Finds t above below (fun names m => names = [name] ∧ m = .directory inner) (.ok []) :=
                finds_leaf fun _ _ => recursive
              exact alone.entry (by simp [ReachesAt, included, recursive]) before others
          | true =>
              have same : ∀ names m, GoneInto name inner (s.Reaches (below ++ [name]) inner) names m ↔
                  s.ReachesAt below name (.directory inner) names m := by
                intro names m
                simp [GoneInto, ReachesAt, included, recursive]
              cases sound : (above.join ⟨name⟩).check with
              | error fault => exact (finds_stuck recursive sound).entry same before others
              | ok =>
                  have found := ih inside (above.join ⟨name⟩) (below ++ [name])
                  exact (found.inside (fun _ _ => Reaches.filled) sound).entry same before others
  | leaf name node others closed ih =>
      obtain ⟨-, before, -, later⟩ := Entries.Raw.proper_entry.1 proper
      have others := ih later above below
      have alone : s.Finds t above below (fun names m => names = [name] ∧ m = node)
          (.ok (if s.takes t (above.join ⟨name⟩) name node then [⟨above.join ⟨name⟩, below ++ [name]⟩] else [])) :=
        finds_leaf fun inner same => absurd same (closed inner)
      cases node with
      | directory inner => exact absurd rfl (closed inner)
      | file content mode | link target =>
          rw [sourcesIn]
          cases included : s.excludesNames (below ++ [name]) with
          | true => exact finds_none.entry (by simp [ReachesAt, included]) before others
          | false => exact alone.entry (by simp [ReachesAt, included]) before others

end SourceBundle.Settings
