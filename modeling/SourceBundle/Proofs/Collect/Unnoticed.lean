import SourceBundle.Bundle
import SourceBundle.Proofs.Collect.Exactness
import SourceBundle.Proofs.FileTree.Answers
import Mathlib.Data.List.Sort

/-!
A file that is not one of the source files does not change what is planned, if the plan could be made without it.
-/

namespace SourceBundle

namespace FileTree

variable {t u : FileTree} {o place : Location} {content bytes : ByteArray} {mode : Nat} {p : Path}

theorem isDirectory_same (agree : t.AgreesOff o u) (file : t.shown? o = some (.file content mode))
    (free : u.shown? o = none) (p : Path) : t.isDirectory p = u.isDirectory p := by
  rw [Bool.eq_iff_iff]
  constructor
  · intro found
    obtain ⟨place, leads, here⟩ := isDirectory_iff.1 found
    have apart : place ≠ o := by
      rintro rfl
      simp [file] at here
    rw [resolve_ok_iff, start_eq agree.current] at leads
    refine isDirectory_iff.2 ⟨place, resolve_ok_iff.2 ⟨leads.1, leads.2.without agree file apart⟩, ?_⟩
    rw [← agree.same place apart, here]
  · exact (agree.larger free).isDirectory

end FileTree

namespace Settings

variable {s : Settings} {t u : FileTree} {o source : Location} {content : ByteArray} {mode : Nat}
  {inner outer : Entries.Raw} {names : List String} {node : Node}

/-- A file at this place is one of the source files. -/
def CollectsAt (s : Settings) (t : FileTree) (o : Location) : Prop :=
  ∃ source names name, t.resolve s.source = .ok source ∧ o = source ++ names ∧ names.getLast? = some name ∧
    s.accepts name = true ∧ (s.recursive = true ∨ names.length = 1) ∧
    ∀ above, above ≠ [] → above <+: names → s.excludesNames above = false

theorem takes_alone (s : Settings) (t : FileTree) (path : Path) (name : String) (node : Node) :
    s.takes t path name node.alone = s.takes t path name node := by
  cases node <;> rfl

theorem shown?_inside (here : t.node? source = some (.directory inner)) (names : List String) :
    t.shown? (source ++ names) = (inner.at? names).map Node.alone := by
  rw [FileTree.shown?, FileTree.node?, Entries.Raw.at?_append, ← FileTree.node?, here]
  rfl

theorem Reaches.other (reached : s.Reaches [] inner names node) (here : t.node? source = some (.directory inner))
    (there : u.node? source = some (.directory outer))
    (same : t.shown? (source ++ names) = u.shown? (source ++ names)) :
    ∃ other, s.Reaches [] outer names other ∧ other.alone = node.alone := by
  obtain ⟨filled, found, depth, included⟩ := reaches_iff.1 reached
  rw [shown?_inside here, shown?_inside there, found, Option.map_some, eq_comm, Option.map_eq_some_iff] at same
  obtain ⟨other, found', alone⟩ := same
  exact ⟨other, reaches_iff.2 ⟨filled, found', depth, included⟩, alone⟩

section Unnoticed

variable (agree : t.AgreesOff o u) (file : t.shown? o = some (.file content mode)) (free : u.shown? o = none)
  (apart : ¬ s.CollectsAt t o)

include agree file free

theorem directory_other (reached : s.Reaches [] inner names (.directory outer))
    (here : t.node? source = some (.directory inner)) {inner' : Entries.Raw}
    (there : u.node? source = some (.directory inner')) : ∃ sub, s.Reaches [] inner' names (.directory sub) := by
  have elsewhere : source ++ names ≠ o := by
    rintro rfl
    rw [shown?_inside here, (reaches_iff.1 reached).2.1] at file
    cases file
  obtain ⟨other, reached', alone⟩ := reached.other here there (agree.same _ elsewhere)
  obtain ⟨sub, rfl⟩ := Node.alone_eq_directory.1 alone
  exact ⟨sub, reached'⟩

include apart

theorem takes_iff (leads : t.resolve s.source = .ok source) (here : t.node? source = some (.directory inner))
    (there : u.node? source = some (.directory outer)) (names : List String) :
    (∃ node, s.Reaches [] inner names node ∧
        ∃ name ∈ names.getLast?, s.takes t (s.source.descend names) name node = true) ↔
      ∃ node, s.Reaches [] outer names node ∧
        ∃ name ∈ names.getLast?, s.takes u (s.source.descend names) name node = true := by
  have takes : ∀ name node, s.takes t (s.source.descend names) name node =
      s.takes u (s.source.descend names) name node := by
    intro name node
    cases node <;> simp [Settings.takes, FileTree.isDirectory_same agree file free]
  constructor
  · rintro ⟨node, reached, name, last, taken⟩
    have elsewhere : source ++ names ≠ o := by
      rintro rfl
      obtain ⟨-, found, depth, included⟩ := reaches_iff.1 reached
      rw [shown?_inside here, found, Option.map_some, Option.some.injEq] at file
      rw [← takes_alone, file] at taken
      exact apart ⟨source, names, name, leads, rfl, last, taken, depth, included⟩
    obtain ⟨other, reached', alone⟩ := reached.other here there (agree.same _ elsewhere)
    refine ⟨other, reached', name, last, ?_⟩
    rw [← takes_alone, alone, takes_alone, ← takes, taken]
  · rintro ⟨node, reached, name, last, taken⟩
    have elsewhere : source ++ names ≠ o := by
      rintro rfl
      rw [shown?_inside there, (reaches_iff.1 reached).2.1] at free
      cases free
    obtain ⟨other, reached', alone⟩ := reached.other there here (agree.same _ elsewhere).symm
    refine ⟨other, reached', name, last, ?_⟩
    rw [← takes_alone, alone, takes_alone, takes, taken]

theorem sources_unnoticed (leads : t.resolve s.source = .ok source) (here : t.node? source = some (.directory inner))
    (there : u.node? source = some (.directory outer)) {files files' : List SourceFile}
    (finds : s.Finds u s.source [] (s.Reaches [] outer) (.ok files))
    (finds' : s.Finds t s.source [] (s.Reaches [] inner) (.ok files')) : files' = files := by
  obtain ⟨-, members, sorted⟩ := finds
  obtain ⟨-, members', sorted'⟩ := finds'
  have wanted := takes_iff agree file free apart leads here there
  have same : ∀ f, f ∈ files' ↔ f ∈ files := by
    intro f
    rw [members, members']
    constructor
    · rintro ⟨names, node, reached, taken, rfl⟩
      obtain ⟨other, reached', taken'⟩ := (wanted names).1 ⟨node, reached, taken⟩
      exact ⟨names, other, reached', taken', rfl⟩
    · rintro ⟨names, node, reached, taken, rfl⟩
      obtain ⟨other, reached', taken'⟩ := (wanted names).2 ⟨node, reached, taken⟩
      exact ⟨names, other, reached', taken', rfl⟩
  have : Std.Irrefl fun f g : SourceFile => f.below < g.below := ⟨fun f => lt_irrefl f.below⟩
  have : Std.Antisymm fun f g : SourceFile => f.below < g.below :=
    ⟨fun _ _ less greater => absurd greater (lt_asymm less)⟩
  exact sorted'.eq_of_mem_iff sorted same

theorem collect_unnoticed {files : List SourceFile} (collected : s.collect u = .ok files) : s.collect t = .ok files := by
  have larger := agree.larger free
  rw [collect] at collected
  split at collected
  · cases collected
  · rename_i outer followed
    obtain ⟨source, leads, there⟩ := FileTree.follow_ok_iff.1 followed
    have leads' := larger.resolve leads
    obtain ⟨inner, here⟩ :=
      FileTree.shown?_directory.1 (larger.kept _ _ (FileTree.shown?_directory.2 ⟨outer, there⟩))
    have search : s.collect t = s.sourcesIn t s.source [] inner := by
      rw [collect, FileTree.follow_ok_iff.2 ⟨source, leads', here⟩]
    have finds := sourcesIn_finds (s := s) (t := u) (Entries.Raw.proper_of_at? u.entries.proper there) s.source []
    have finds' := sourcesIn_finds (s := s) (t := t) (Entries.Raw.proper_of_at? t.entries.proper here) s.source []
    rw [collected] at finds
    rw [search]
    cases found : s.sourcesIn t s.source [] inner with
    | error e =>
        rw [found] at finds'
        obtain ⟨names, fault, ⟨recursive, ⟨sub, reached⟩, failed⟩, -⟩ := finds'
        exact absurd ⟨recursive, directory_other agree file free reached here there, failed⟩ (finds.1 names fault)
    | ok files' =>
        rw [found] at finds'
        rw [sources_unnoticed agree file free apart leads' here there finds finds']
  · rename_i node closed followed
    obtain ⟨source, leads, there⟩ := FileTree.follow_ok_iff.1 followed
    have here : t.node? source = some node :=
      (FileTree.shown?_closed closed).1 (larger.kept _ _ ((FileTree.shown?_closed closed).2 there))
    rw [collect, FileTree.follow_ok_iff.2 ⟨source, larger.resolve leads, here⟩]
    split
    · contradiction
    · rename_i same
      cases same
      exact absurd rfl (closed _)
    · exact collected

omit file apart in
theorem rewritten_unnoticed {f : SourceFile} {r : RewrittenFile} (made : s.rewritten u f = .ok r) :
    s.rewritten t f = .ok r := by
  obtain ⟨text, found, rest⟩ := bind_ok.1 made
  refine bind_ok.2 ⟨text, ?_, rest⟩
  rw [sourceText] at found ⊢
  split at found
  · cases found
  · rename_i bytes read
    rw [(agree.larger free).read read]
    exact found

/-- A file that is not one of the source files is not noticed. -/
theorem plan_unnoticed {files : List RewrittenFile} (planned : s.plan u = .ok files) : s.plan t = .ok files := by
  obtain ⟨sources, collected, made⟩ := bind_ok.1 planned
  refine bind_ok.2 ⟨sources, collect_unnoticed agree file free apart collected, ?_⟩
  clear planned collected
  induction sources generalizing files with
  | nil => exact made
  | cons f sources ih =>
      rw [List.mapM_cons] at made ⊢
      obtain ⟨first, here, made⟩ := bind_ok.1 made
      obtain ⟨later, there, made⟩ := bind_ok.1 made
      exact bind_ok.2 ⟨first, rewritten_unnoticed agree free here, bind_ok.2 ⟨later, ih there, made⟩⟩

end Unnoticed

end Settings

end SourceBundle
