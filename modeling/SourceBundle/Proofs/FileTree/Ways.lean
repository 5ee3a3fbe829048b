import SourceBundle.Proofs.Collect.Request
import SourceBundle.Proofs.FileTree.Nodes

/-!
The ways through a file tree, as a relation. It only asks what stands at the places on the way, so a way stays open
when entries are added to the tree, and one that is lost when a file takes the place of another entry led through that
entry.
-/

namespace SourceBundle.FileTree

variable {t u : FileTree} {n k : Nat} {step : String} {steps more : List String} {place goal a b o : Location}
  {entries : Entries.Raw} {node : Node} {target p : Path} {content : ByteArray} {mode : Nat}

theorem lookUp_ok_iff : lookUp step entries = .ok node ↔
    step.utf8ByteSize ≤ Path.greatestNameSize ∧ entries.find? step = some node := by
  rw [lookUp]
  split
  · rename_i long
    simp [Nat.not_le.2 long]
  · rename_i short
    cases entries.find? step <;> simp [Nat.not_lt.1 short]

theorem lookUp_missing_iff : lookUp step entries = .error .missing ↔
    step.utf8ByteSize ≤ Path.greatestNameSize ∧ entries.find? step = none := by
  rw [lookUp]
  split
  · rename_i long
    simp [Nat.not_le.2 long]
  · rename_i short
    cases entries.find? step <;> simp [Nat.not_lt.1 short]

theorem not_dots (plain : isDots step = false) : step ≠ "." ∧ step ≠ ".." := by
  simpa [isDots] using plain

theorem walk_nil (followLast : Bool) (n : Nat) (place : Location) : t.walk followLast n [] place = .ok place := by
  cases n <;> rfl

theorem walk_stay (here : t.shown? place = some (.directory .empty)) :
    t.walk true n ("." :: steps) place = t.walk true n steps place := by
  obtain ⟨entries, here⟩ := shown?_directory.1 here
  cases n <;> simp [walk, walkWith, here]

theorem walk_up (here : t.shown? place = some (.directory .empty)) :
    t.walk true n (".." :: steps) place = t.walk true n steps place.dropLast := by
  obtain ⟨entries, here⟩ := shown?_directory.1 here
  cases n <;> simp [walk, walkWith, here]

theorem walk_down (here : t.shown? place = some (.directory .empty)) (plain : isDots step = false)
    (short : step.utf8ByteSize ≤ Path.greatestNameSize) (found : t.shown? (place ++ [step]) = some node)
    (solid : ∀ target, node ≠ .link target) :
    t.walk true n (step :: steps) place = t.walk true n steps (place ++ [step]) := by
  obtain ⟨entries, here⟩ := shown?_directory.1 here
  obtain ⟨whole, there, rfl⟩ := Option.map_eq_some_iff.1 found
  have named : lookUp step entries = .ok whole := lookUp_ok_iff.2 ⟨short, by rw [← there, node?_entry here]⟩
  cases whole with
  | link target => exact absurd rfl (solid target)
  | directory inner | file content mode => cases n <;> simp [walk, walkWith, here, named, not_dots plain]

theorem walk_link (here : t.shown? place = some (.directory .empty)) (plain : isDots step = false)
    (short : step.utf8ByteSize ≤ Path.greatestNameSize) (found : t.shown? (place ++ [step]) = some (.link target)) :
    t.walk true (n + 1) (step :: steps) place =
      t.walk true n (target.steps ++ steps) (if target.isAbsolute then [] else place) := by
  obtain ⟨entries, here⟩ := shown?_directory.1 here
  have there := (shown?_closed (by simp)).1 found
  have named : lookUp step entries = .ok (.link target) :=
    lookUp_ok_iff.2 ⟨short, by rw [← there, node?_entry here]⟩
  simp [walk, walkWith, here, named, not_dots plain]

theorem walk_file (here : t.shown? place = some (.file content mode)) (filled : steps ≠ []) :
    t.walk true n steps place = .error .notDirectory := by
  have there := (shown?_closed (by simp)).1 here
  obtain ⟨step, later, rfl⟩ := List.exists_cons_of_ne_nil filled
  cases n <;> simp [walk, walkWith, there]

/-- Steps lead from one place to another, through at most so many links. -/
inductive Leads (t : FileTree) : Nat → List String → Location → Location → Prop where
  | done {n : Nat} {place : Location} : Leads t n [] place place
  | stay {n : Nat} {steps : List String} {place goal : Location} (here : t.shown? place = some (.directory .empty))
      (later : Leads t n steps place goal) : Leads t n ("." :: steps) place goal
  | up {n : Nat} {steps : List String} {place goal : Location} (here : t.shown? place = some (.directory .empty))
      (later : Leads t n steps place.dropLast goal) : Leads t n (".." :: steps) place goal
  | down {n : Nat} {step : String} {steps : List String} {place goal : Location} {node : Node}
      (here : t.shown? place = some (.directory .empty)) (plain : isDots step = false)
      (short : step.utf8ByteSize ≤ Path.greatestNameSize) (found : t.shown? (place ++ [step]) = some node)
      (solid : ∀ target, node ≠ .link target) (later : Leads t n steps (place ++ [step]) goal) :
      Leads t n (step :: steps) place goal
  | link {n : Nat} {step : String} {steps : List String} {place goal : Location} {target : Path}
      (here : t.shown? place = some (.directory .empty)) (plain : isDots step = false)
      (short : step.utf8ByteSize ≤ Path.greatestNameSize) (found : t.shown? (place ++ [step]) = some (.link target))
      (later : Leads t n (target.steps ++ steps) (if target.isAbsolute then [] else place) goal) :
      Leads t (n + 1) (step :: steps) place goal

theorem walk_of_leads (leads : t.Leads n steps place goal) : t.walk true n steps place = .ok goal := by
  induction leads with
  | done => exact walk_nil _ _ _
  | stay here later ih => rw [walk_stay here, ih]
  | up here later ih => rw [walk_up here, ih]
  | down here plain short found solid later ih => rw [walk_down here plain short found solid, ih]
  | link here plain short found later ih => rw [walk_link here plain short found, ih]

theorem leads_of_walk (walked : t.walk true n steps place = .ok goal) : t.Leads n steps place goal := by
  induction n using Nat.strong_induction_on generalizing steps place with
  | _ n fewer =>
    induction steps generalizing place with
    | nil =>
        obtain rfl : place = goal := by simpa [walk_nil] using walked
        exact .done
    | cons step steps ih =>
        have here : t.shown? place = some (.directory .empty) := by
          by_contra closed
          cases n <;> rw [walk, walkWith] at walked <;> split at walked <;> simp_all [shown?_directory]
        obtain ⟨entries, inside⟩ := shown?_directory.1 here
        by_cases dot : step = "."
        · subst dot
          exact .stay here (ih (by rwa [walk_stay here] at walked))
        by_cases dots : step = ".."
        · subst dots
          exact .up here (ih (by rwa [walk_up here] at walked))
        have plain : isDots step = false := by simp [isDots, dot, dots]
        cases named : lookUp step entries with
        | error fault => cases n <;> simp [walk, walkWith, inside, dot, dots, named] at walked
        | ok node =>
            obtain ⟨short, found⟩ := lookUp_ok_iff.1 named
            have there : t.shown? (place ++ [step]) = some node.alone := by
              rw [shown?, node?_entry inside, found, Option.map_some]
            cases node with
            | link target =>
                cases n with
                | zero => simp [walk, walkWith, inside, dot, dots, named] at walked
                | succ n =>
                    rw [walk_link here plain short there] at walked
                    exact .link here plain short there (fewer n (Nat.lt_succ_self n) walked)
            | directory inner | file content mode =>
                rw [walk_down here plain short there (by simp [Node.alone])] at walked
                exact .down here plain short there (by simp [Node.alone]) (ih walked)

theorem walk_ok_iff : t.walk true n steps place = .ok goal ↔ t.Leads n steps place goal :=
  ⟨leads_of_walk, walk_of_leads⟩

namespace Leads

theorem mono (leads : t.Leads n steps place goal) (more : n ≤ k) : t.Leads k steps place goal := by
  induction leads generalizing k with
  | done => exact .done
  | stay here later ih => exact .stay here (ih more)
  | up here later ih => exact .up here (ih more)
  | down here plain short found solid later ih => exact .down here plain short found solid (ih more)
  | link here plain short found later ih =>
      obtain ⟨k, rfl⟩ := Nat.exists_eq_add_of_le' (Nat.lt_of_lt_of_le (Nat.zero_lt_succ _) more)
      exact .link here plain short found (ih (Nat.le_of_succ_le_succ more))

theorem append (first : t.Leads n steps a b) (second : t.Leads k more b goal) :
    t.Leads (n + k) (steps ++ more) a goal := by
  induction first with
  | done => exact second.mono (Nat.le_add_left _ _)
  | stay here later ih => exact .stay here (ih second)
  | up here later ih => exact .up here (ih second)
  | down here plain short found solid later ih => exact .down here plain short found solid (ih second)
  | link here plain short found later ih =>
      rw [Nat.add_right_comm]
      apply Leads.link here plain short found
      simpa using ih second

theorem split (leads : t.Leads n (steps ++ more) a goal) : ∃ b, t.Leads n steps a b ∧ t.Leads n more b goal := by
  generalize whole : steps ++ more = all at leads
  induction leads generalizing steps with
  | done =>
      obtain ⟨rfl, rfl⟩ := List.append_eq_nil_iff.1 whole
      exact ⟨_, .done, .done⟩
  | stay here later ih | up here later ih =>
      cases steps with
      | nil =>
          subst whole
          exact ⟨_, .done, by constructor <;> assumption⟩
      | cons step steps =>
          rw [List.cons_append, List.cons_eq_cons] at whole
          obtain ⟨rfl, rest⟩ := whole
          obtain ⟨b, first, second⟩ := ih rest
          exact ⟨b, by constructor <;> assumption, second⟩
  | down here plain short found solid later ih =>
      cases steps with
      | nil =>
          subst whole
          exact ⟨_, .done, .down here plain short found solid later⟩
      | cons step steps =>
          rw [List.cons_append, List.cons_eq_cons] at whole
          obtain ⟨rfl, rest⟩ := whole
          obtain ⟨b, first, second⟩ := ih rest
          exact ⟨b, .down here plain short found solid first, second⟩
  | link here plain short found later ih =>
      cases steps with
      | nil =>
          subst whole
          exact ⟨_, .done, .link here plain short found later⟩
      | cons step steps =>
          rw [List.cons_append, List.cons_eq_cons] at whole
          obtain ⟨rfl, rest⟩ := whole
          obtain ⟨b, first, second⟩ := ih (by rw [List.append_assoc, rest])
          exact ⟨b, .link here plain short found first, second.mono (Nat.le_succ _)⟩

theorem stays {dots : List String} (here : t.shown? place = some (.directory .empty))
    (only : ∀ step ∈ dots, ¬(step != ".") = true) (later : t.Leads n steps place goal) :
    t.Leads n (dots ++ steps) place goal := by
  induction dots with
  | nil => exact later
  | cons step dots ih =>
      rw [List.forall_mem_cons] at only
      obtain rfl : step = "." := by simpa using only.1
      exact .stay here (ih only.2)

theorem idle {others : List String} (leads : t.Leads n steps place goal)
    (inside : t.shown? goal = some (.directory .empty))
    (same : others.filter (· != ".") = steps.filter (· != ".")) : t.Leads n others place goal := by
  induction leads generalizing others with
  | done =>
      rw [← List.append_nil others]
      exact stays inside (List.filter_eq_nil_iff.1 same) .done
  | stay here later ih => exact ih inside (by simpa using same)
  | up here later ih =>
      obtain ⟨dots, others, rfl, only, -, rest⟩ := List.filter_eq_cons_iff.1 (by simpa using same)
      exact stays here only (.up here (ih inside rest))
  | down here plain short found solid later ih =>
      obtain ⟨dots, others, rfl, only, -, rest⟩ := List.filter_eq_cons_iff.1 (by simpa [not_dots plain] using same)
      exact stays here only (.down here plain short found solid (ih inside rest))
  | link here plain short found later ih =>
      obtain ⟨dots, others, rfl, only, -, rest⟩ := List.filter_eq_cons_iff.1 (by simpa [not_dots plain] using same)
      exact stays here only (.link here plain short found (ih inside (by simp [rest])))

end Leads

structure Extends (t u : FileTree) : Prop where
  current : t.current = u.current
  kept : ∀ place node, u.shown? place = some node → t.shown? place = some node

structure AgreesOff (t : FileTree) (o : Location) (u : FileTree) : Prop where
  current : t.current = u.current
  same : ∀ other, other ≠ o → t.shown? other = u.shown? other

theorem Extends.refl (t : FileTree) : t.Extends t := ⟨rfl, fun _ _ => id⟩

theorem Extends.trans {v : FileTree} (first : v.Extends t) (second : t.Extends u) : v.Extends u :=
  ⟨first.current.trans second.current, fun place node here => first.kept place node (second.kept place node here)⟩

theorem AgreesOff.refl (t : FileTree) (o : Location) : t.AgreesOff o t := ⟨rfl, fun _ _ => rfl⟩

theorem AgreesOff.symm (agree : t.AgreesOff o u) : u.AgreesOff o t :=
  ⟨agree.current.symm, fun other apart => (agree.same other apart).symm⟩

theorem AgreesOff.trans {v : FileTree} (first : v.AgreesOff o t) (second : t.AgreesOff o u) : v.AgreesOff o u :=
  ⟨first.current.trans second.current, fun other apart => (first.same other apart).trans (second.same other apart)⟩

theorem AgreesOff.larger (agree : t.AgreesOff o u) (free : u.shown? o = none) : t.Extends u := by
  refine ⟨agree.current, fun place node here => ?_⟩
  rw [agree.same place, here]
  rintro rfl
  rw [free] at here
  cases here

theorem remove_agrees {name : String} (inside : t.shown? place = some (.directory .empty))
    (free : t.shown? (place ++ [name]) ≠ some (.directory .empty)) :
    (t.remove (place ++ [name])).AgreesOff (place ++ [name]) t ∧
      (t.remove (place ++ [name])).shown? (place ++ [name]) = none := by
  obtain ⟨entries, inside⟩ := shown?_directory.1 inside
  have removed := shown?_remove inside fun sub here => free (shown?_directory.2 ⟨sub, here⟩)
  constructor
  · refine ⟨by rw [remove_eq], fun other apart => ?_⟩
    rw [removed, if_neg apart]
  · rw [removed, if_pos rfl]

theorem Leads.grow (leads : u.Leads n steps place goal) (larger : t.Extends u) : t.Leads n steps place goal := by
  induction leads with
  | done => exact .done
  | stay here later ih => exact .stay (larger.kept _ _ here) ih
  | up here later ih => exact .up (larger.kept _ _ here) ih
  | down here plain short found solid later ih =>
      exact .down (larger.kept _ _ here) plain short (larger.kept _ _ found) solid ih
  | link here plain short found later ih => exact .link (larger.kept _ _ here) plain short (larger.kept _ _ found) ih

theorem Leads.ends_file (leads : t.Leads n steps o goal) (here : t.shown? o = some (.file content mode)) :
    goal = o := by
  by_cases filled : steps = []
  · subst filled
    cases leads
    rfl
  · have walked := walk_of_leads leads
    rw [walk_file here filled] at walked
    cases walked

theorem Leads.without (leads : t.Leads n steps place goal) (agree : t.AgreesOff o u)
    (file : t.shown? o = some (.file content mode)) (elsewhere : goal ≠ o) : u.Leads n steps place goal := by
  have off : ∀ {other node}, t.shown? other = some node → node ≠ .file content mode →
      u.shown? other = some node := by
    intro other node here differs
    rw [← agree.same other, here]
    rintro rfl
    exact differs (Option.some.inj (here.symm.trans file))
  induction leads with
  | done => exact .done
  | stay here later ih => exact .stay (off here (by simp)) (ih elsewhere)
  | up here later ih => exact .up (off here (by simp)) (ih elsewhere)
  | @down n step steps place goal node here plain short found solid later ih =>
      have apart : place ++ [step] ≠ o := by
        intro same
        rw [same] at later
        exact elsewhere (later.ends_file file)
      exact .down (off here (by simp)) plain short (by rw [← agree.same _ apart, found]) solid (ih elsewhere)
  | link here plain short found later ih =>
      exact .link (off here (by simp)) plain short (off found (by simp)) (ih elsewhere)

/-- Where a file takes the place of an entry that is no directory, a way to a directory stays open or ends at that
file. -/
theorem Leads.blocked (leads : u.Leads n steps place goal) (agree : t.AgreesOff o u)
    (file : t.shown? o = some (.file content mode)) (free : u.shown? o ≠ some (.directory .empty))
    (inside : u.shown? goal = some (.directory .empty)) :
    t.Leads n steps place goal ∨
      ∀ more, more ≠ [] → t.walk true n (steps ++ more) place = .error .notDirectory := by
  have off : ∀ {other}, u.shown? other = some (.directory .empty) → t.shown? other = some (.directory .empty) := by
    intro other here
    rw [agree.same other, here]
    rintro rfl
    exact free here
  -- A way that steps on `o` has come to a file, from which no step leads on.
  induction leads with
  | done => exact .inl .done
  | stay here later ih =>
      apply (ih inside).imp (.stay (off here))
      intro stops more filled
      rw [List.cons_append, walk_stay (off here), stops more filled]
  | up here later ih =>
      apply (ih inside).imp (.up (off here))
      intro stops more filled
      rw [List.cons_append, walk_up (off here), stops more filled]
  | @down n step steps place goal node here plain short found solid later ih =>
      by_cases same : place ++ [step] = o
      · right
        intro more filled
        rw [List.cons_append, walk_down (off here) plain short (same ▸ file) (by simp), same]
        exact walk_file file (by simp [filled])
      · have there : t.shown? (place ++ [step]) = some node := by rw [agree.same _ same, found]
        apply (ih inside).imp (.down (off here) plain short there solid)
        intro stops more filled
        rw [List.cons_append, walk_down (off here) plain short there solid, stops more filled]
  | @link n step steps place goal target here plain short found later ih =>
      by_cases same : place ++ [step] = o
      · right
        intro more filled
        rw [List.cons_append, walk_down (off here) plain short (same ▸ file) (by simp), same]
        exact walk_file file (by simp [filled])
      · have there : t.shown? (place ++ [step]) = some (.link target) := by rw [agree.same _ same, found]
        apply (ih inside).imp (.link (off here) plain short there)
        intro stops more filled
        rw [List.cons_append, walk_link (off here) plain short there, ← List.append_assoc, stops more filled]

end SourceBundle.FileTree
