import SourceBundle.Proofs.FileTree.Ways

/-!
What a tree answers about a path depends on the place to which the path leads. Answers stay when entries are added.
-/

namespace SourceBundle

theorem Path.steps_eq_names {p : Path} (ends : p.endsWithSlash = false) : p.steps = p.names := by
  rw [steps, ends]
  rfl

theorem Path.steps_filter (p : Path) : p.steps.filter (· != ".") = p.names.filter (· != ".") := by
  rw [steps]
  split <;> simp

namespace FileTree

variable {t u : FileTree} {p : Path} {place o : Location} {node : Node} {content : ByteArray} {mode : Nat}
  {entries : Entries.Raw} {name last : String}

theorem resolve_ok_iff :
    t.resolve p = .ok place ↔ p.check = .ok () ∧ t.Leads greatestLinks p.steps (t.start p) place := by
  rw [resolve, bind_ok, ← walk_ok_iff]
  constructor
  · rintro ⟨⟨⟩, sound, walked⟩
    exact ⟨sound, walked⟩
  · rintro ⟨sound, walked⟩
    exact ⟨(), sound, walked⟩

theorem follow_ok_iff : t.follow p = .ok node ↔ ∃ place, t.resolve p = .ok place ∧ t.node? place = some node := by
  rw [follow, bind_ok]
  apply exists_congr
  intro place
  apply and_congr_right
  intro _
  cases t.node? place <;> simp

theorem read_ok_iff : t.read p = .ok content ↔
    ∃ place mode, t.resolve p = .ok place ∧ t.shown? place = some (.file content mode) := by
  rw [read, bind_ok]
  constructor
  · rintro ⟨node, followed, same⟩
    obtain ⟨place, leads, here⟩ := follow_ok_iff.1 followed
    cases node with
    | file found mode =>
        obtain rfl : found = content := Except.ok.inj same
        exact ⟨place, mode, leads, (shown?_closed (by simp)).2 here⟩
    | directory inner => cases same
    | link target => cases same
  · rintro ⟨place, mode, leads, here⟩
    exact ⟨_, follow_ok_iff.2 ⟨place, leads, (shown?_closed (by simp)).1 here⟩, rfl⟩

theorem mode?_eq_some_iff : t.mode? p = some mode ↔
    ∃ place content, t.resolve p = .ok place ∧ t.shown? place = some (.file content mode) := by
  rw [mode?]
  constructor
  · intro found
    split at found
    · rename_i leads
      obtain ⟨place, leads, here⟩ := follow_ok_iff.1 leads
      obtain rfl := Option.some.inj found
      exact ⟨place, _, leads, (shown?_closed (by simp)).2 here⟩
    · cases found
  · rintro ⟨place, content, leads, here⟩
    rw [follow_ok_iff.2 ⟨place, leads, (shown?_closed (by simp)).1 here⟩]

theorem isDirectory_iff : t.isDirectory p = true ↔
    ∃ place, t.resolve p = .ok place ∧ t.shown? place = some (.directory .empty) := by
  simp only [shown?_directory]
  rw [isDirectory]
  constructor
  · intro found
    split at found
    · rename_i leads
      obtain ⟨place, leads, here⟩ := follow_ok_iff.1 leads
      exact ⟨place, leads, _, here⟩
    · cases found
  · rintro ⟨place, leads, entries, here⟩
    rw [follow_ok_iff.2 ⟨place, leads, here⟩]

theorem start_eq (same : t.current = u.current) (p : Path) : t.start p = u.start p := by
  rw [start, start, same]

namespace Extends

theorem resolve (larger : t.Extends u) (leads : u.resolve p = .ok place) : t.resolve p = .ok place := by
  rw [resolve_ok_iff] at leads ⊢
  rw [start_eq larger.current]
  exact ⟨leads.1, leads.2.grow larger⟩

theorem read (larger : t.Extends u) (found : u.read p = .ok content) : t.read p = .ok content := by
  obtain ⟨place, mode, leads, here⟩ := read_ok_iff.1 found
  exact read_ok_iff.2 ⟨place, mode, larger.resolve leads, larger.kept _ _ here⟩

theorem mode? (larger : t.Extends u) (found : u.mode? p = some mode) : t.mode? p = some mode := by
  obtain ⟨place, content, leads, here⟩ := mode?_eq_some_iff.1 found
  exact mode?_eq_some_iff.2 ⟨place, content, larger.resolve leads, larger.kept _ _ here⟩

theorem isDirectory (larger : t.Extends u) (found : u.isDirectory p = true) : t.isDirectory p = true := by
  obtain ⟨place, leads, here⟩ := isDirectory_iff.1 found
  exact isDirectory_iff.2 ⟨place, larger.resolve leads, larger.kept _ _ here⟩

end Extends

/-- The place of the entry that a path names, whether or not there is one. A link that stands there is not followed. -/
def entryPlace (t : FileTree) (p : Path) : Except Fault Location :=
  (t.parent p).map fun (place, _, name) => place ++ [name]

/-- The path names an entry of a directory, with other steps than dots. -/
structure Names (t : FileTree) (p : Path) (place : Location) (name : String) : Prop where
  sound : p.check = .ok ()
  plain : isDots name = false
  above : ∃ steps, p.names = steps ++ [name] ∧ t.Leads greatestLinks steps (t.start p) place
  inside : t.shown? place = some (.directory .empty)

theorem parent_ok_iff (plain : isDots name = false) :
    t.parent p = .ok (place, entries, name) ↔ t.Names p place name ∧ t.node? place = some (.directory entries) := by
  rw [parent, bind_ok]
  constructor
  · rintro ⟨⟨⟩, sound, looked⟩
    split at looked
    · cases looked
      cases plain
    · rename_i above reversed
      obtain ⟨goal, walked, looked⟩ := bind_ok.1 looked
      split at looked
      · rename_i inner inside
        cases looked
        have split : p.names = above.reverse ++ [name] := by
          rw [← List.reverse_reverse p.names, reversed, List.reverse_cons]
        exact ⟨⟨sound, plain, ⟨_, split, leads_of_walk walked⟩, shown?_directory.2 ⟨_, inside⟩⟩, inside⟩
      · cases looked
      · cases looked
  · rintro ⟨⟨sound, -, ⟨steps, split, leads⟩, -⟩, inside⟩
    refine ⟨(), sound, ?_⟩
    simp only [split, List.reverse_append, List.reverse_cons, List.reverse_nil, List.nil_append,
      List.singleton_append, List.reverse_reverse]
    rw [walk_of_leads leads]
    simp [inside, bind, Except.bind]

theorem entryPlace_ok (found : t.entryPlace p = .ok o) :
    ∃ place entries name, t.parent p = .ok (place, entries, name) ∧ o = place ++ [name] := by
  rw [entryPlace] at found
  cases parent : t.parent p with
  | error fault =>
      rw [parent] at found
      cases found
  | ok parts =>
      obtain ⟨place, entries, name⟩ := parts
      rw [parent] at found
      exact ⟨place, entries, name, rfl, (Except.ok.inj found).symm⟩

theorem entryPlace_ok_iff (plain : isDots name = false) :
    t.entryPlace p = .ok (place ++ [name]) ↔ t.Names p place name := by
  constructor
  · intro found
    obtain ⟨above, entries, last, parent, same⟩ := entryPlace_ok found
    obtain ⟨rfl, same⟩ := List.append_inj' same rfl
    obtain rfl : name = last := by simpa using same
    exact ((parent_ok_iff plain).1 parent).1
  · intro names
    obtain ⟨entries, inside⟩ := shown?_directory.1 names.inside
    rw [entryPlace, (parent_ok_iff plain).2 ⟨names, inside⟩]
    rfl

theorem parent_name {steps : List String} (split : p.names = steps ++ [name])
    (parent : t.parent p = .ok (place, entries, last)) : last = name := by
  rw [FileTree.parent, bind_ok] at parent
  obtain ⟨-, -, parent⟩ := parent
  simp only [split, List.reverse_append, List.reverse_cons, List.reverse_nil, List.nil_append,
    List.singleton_append] at parent
  obtain ⟨goal, -, parent⟩ := bind_ok.1 parent
  split at parent <;> cases parent
  rfl

namespace Names

theorem grow (names : u.Names p place name) (larger : t.Extends u) : t.Names p place name := by
  obtain ⟨steps, split, leads⟩ := names.above
  rw [← start_eq larger.current] at leads
  exact ⟨names.sound, names.plain, ⟨steps, split, leads.grow larger⟩, larger.kept _ _ names.inside⟩

theorem not_resolve (names : t.Names p place name) (free : t.shown? (place ++ [name]) = none) (goal : Location) :
    t.resolve p ≠ .ok goal := by
  intro leads
  rw [resolve_ok_iff] at leads
  obtain ⟨steps, split, above⟩ := names.above
  have whole : p.steps = steps ++ name :: (if p.endsWithSlash then ["."] else []) := by
    rw [Path.steps, split]
    split <;> simp
  rw [whole] at leads
  obtain ⟨between, first, second⟩ := leads.2.split
  obtain rfl : between = place := Except.ok.inj ((walk_of_leads first).symm.trans (walk_of_leads above))
  cases second with
  | stay | up => cases names.plain
  | down here plain short found solid later => simp [free] at found
  | link here plain short found later => simp [free] at found

theorem resolve_directory (names : t.Names p place name) (short : name.utf8ByteSize ≤ Path.greatestNameSize)
    (here : t.shown? (place ++ [name]) = some (.directory .empty)) : t.resolve p = .ok (place ++ [name]) := by
  obtain ⟨steps, split, leads⟩ := names.above
  have whole : t.Leads greatestLinks p.names (t.start p) (place ++ [name]) := by
    rw [split]
    exact leads.append (k := 0) (.down names.inside names.plain short here (by simp) .done)
  exact resolve_ok_iff.2 ⟨names.sound, whole.idle here (Path.steps_filter p)⟩

theorem resolve (names : t.Names p place name) (ends : p.endsWithSlash = false)
    (short : name.utf8ByteSize ≤ Path.greatestNameSize) (here : t.shown? (place ++ [name]) = some node)
    (solid : ∀ target, node ≠ .link target) : t.resolve p = .ok (place ++ [name]) := by
  obtain ⟨steps, split, leads⟩ := names.above
  rw [resolve_ok_iff, Path.steps_eq_names ends, split]
  exact ⟨names.sound, leads.append (k := 0) (.down names.inside names.plain short here solid .done)⟩

end Names

/-- A file that has taken the place of another entry is read at the path that named the entry, unless the path led
through that entry. -/
theorem read_replaced {v : FileTree} (names : u.Names p place name) (ends : p.endsWithSlash = false)
    (short : name.utf8ByteSize ≤ Path.greatestNameSize)
    (free : u.shown? (place ++ [name]) ≠ some (.directory .empty)) (written : t.AgreesOff (place ++ [name]) u)
    (file : t.shown? (place ++ [name]) = some (.file content mode)) (taken : v.AgreesOff (place ++ [name]) u)
    (gone : v.shown? (place ++ [name]) = none) :
    t.read p = if v.entryPlace p = .ok (place ++ [name]) then .ok content else .error .notDirectory := by
  have agree : t.AgreesOff (place ++ [name]) v := written.trans taken.symm
  have above : place ≠ place ++ [name] := by simp
  have found : v.Names p place name → t.read p = .ok content := fun kept =>
    read_ok_iff.2 ⟨_, mode, (kept.grow (agree.larger gone)).resolve ends short file (by simp), file⟩
  obtain ⟨steps, split, leads⟩ := names.above
  rw [← start_eq written.current] at leads
  rcases leads.blocked written file free names.inside with clear | stops
  · have passes := clear.without agree file above
    rw [start_eq agree.current] at passes
    have kept : v.Names p place name :=
      ⟨names.sound, names.plain, ⟨steps, split, passes⟩, by rw [taken.same _ above, names.inside]⟩
    rw [if_pos ((entryPlace_ok_iff names.plain).2 kept), found kept]
  · have blocked : t.resolve p = .error .notDirectory := by
      rw [resolve, names.sound, Path.steps_eq_names ends, split]
      exact stops [name] (by simp)
    have failed : t.read p = .error .notDirectory := by
      rw [read, follow, blocked]
      rfl
    rw [if_neg, failed]
    intro kept
    rw [found ((entryPlace_ok_iff names.plain).1 kept)] at failed
    cases failed

end FileTree

end SourceBundle
