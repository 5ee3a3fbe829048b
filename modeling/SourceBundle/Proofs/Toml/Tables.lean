import SourceBundle.Toml.Document

/-!
The tables that a document builds up. Its lines only ever add to them: keys that lead to a value still do when further
lines have been read, and a line that is read leaves its own keys there.
-/

namespace SourceBundle.Toml

variable {fields fields' root root' : Fields} {key k : String} {v : Value} {way header header' : List String}
  {s rest : List Char} {made origin : Origin} {edit : Edit} {n : Nat}

namespace Fields

theorem find?_set_self : (fields.set key v).find? key = some v := by
  induction fields with
  | nil => simp [set, find?]
  | cons field fields ih =>
      obtain ⟨k, w⟩ := field
      rw [set]
      split
      · rename_i same
        simp [find?, same]
      · rename_i other
        have apart : (key == k) = false := beq_false_of_ne (Ne.symm other)
        simpa [find?, List.lookup_cons, apart] using ih

theorem find?_set_other (apart : k ≠ key) : (fields.set key v).find? k = fields.find? k := by
  have first : (k == key) = false := beq_false_of_ne apart
  induction fields with
  | nil => simp [set, find?, List.lookup_cons, first]
  | cons field fields ih =>
      obtain ⟨j, w⟩ := field
      rw [set]
      split
      · rename_i same
        subst same
        simp [find?, List.lookup_cons, first]
      · simp only [find?, List.lookup_cons] at ih ⊢
        rw [ih]

theorem set_absent (absent : fields.find? key = none) : fields.set key v = fields ++ [(key, v)] := by
  induction fields with
  | nil => rfl
  | cons field fields ih =>
      obtain ⟨k, w⟩ := field
      rw [find?, List.lookup_cons] at absent
      split at absent
      · cases absent
      · rename_i other
        have apart : k ≠ key := Ne.symm (by simpa using other)
        rw [set, if_neg apart, ih absent, List.cons_append]

theorem add?_eq_some : fields.add? key v = some fields' ↔ fields.find? key = none ∧ fields.set key v = fields' := by
  rw [add?]
  split
  · rename_i absent
    simp [absent, set_absent absent]
  · rename_i present
    simp [present]

end Fields

/-- Keys that lead to a value through tables. -/
inductive Leads : List String → Fields → Prop where
  | key {key : String} {v : Value} {fields : Fields} (found : fields.find? key = some v) : Leads [key] fields
  | under {key : String} {origin : Origin} {inner fields : Fields} {way : List String}
      (found : fields.find? key = some (.table origin inner)) (inside : Leads way inner) : Leads (key :: way) fields

theorem Leads.find? (leads : Leads (key :: way) fields) : ∃ v, fields.find? key = some v := by
  cases leads with
  | key found => exact ⟨_, found⟩
  | under found inside => exact ⟨_, found⟩

theorem Leads.set (leads : Leads way fields) (kept : ∀ origin inner, fields.find? key = some (.table origin inner) →
    ∃ origin' inner', v = .table origin' inner' ∧ ∀ way, Leads way inner → Leads way inner') :
    Leads way (fields.set key v) := by
  cases leads with
  | @key k _ _ found =>
      by_cases same : k = key
      · subst same
        exact .key Fields.find?_set_self
      · exact .key ((Fields.find?_set_other same).trans found)
  | @under k _ _ _ _ found inside =>
      by_cases same : k = key
      · subst same
        obtain ⟨origin', inner', rfl, keeps⟩ := kept _ _ found
        exact .under Fields.find?_set_self (keeps _ inside)
      · exact .under ((Fields.find?_set_other same).trans found) inside

/-- What leads somewhere still does after the edit. -/
def Keeps (edit : Edit) : Prop :=
  ∀ (origin : Origin) (fields fields' : Fields) (way : List String),
    edit origin fields = some fields' → Leads way fields → Leads way fields'

/-- The keys lead somewhere after the edit. -/
def Puts (edit : Edit) (way : List String) : Prop :=
  ∀ (origin : Origin) (fields fields' : Fields), edit origin fields = some fields' → Leads way fields'

/-- The first key of a way gets a new value: a table that was edited further along the way, be it the one that was there
or an empty one, unless an array of tables was there. -/
theorem editAt_cons (edited : editAt made edit (key :: way) origin fields = some fields') :
    ∃ v, fields' = fields.set key v ∧
      ((∃ origin inner inner', v = .table origin inner' ∧ editAt made edit way origin inner = some inner' ∧
          ∀ w, fields.find? key = some w → w = .table origin inner) ∨
        ∃ items, fields.find? key = some (.array true items)) := by
  rw [editAt] at edited
  split at edited
  · rename_i absent
    obtain ⟨inner, later, same⟩ := Option.bind_eq_some_iff.1 edited
    cases same
    exact ⟨_, rfl, .inl ⟨made, [], inner, rfl, later, fun w found => by rw [absent] at found; cases found⟩⟩
  · rename_i origin' inner found
    split at edited
    · cases edited
    · obtain ⟨inner', later, same⟩ := Option.bind_eq_some_iff.1 edited
      cases same
      exact ⟨_, rfl, .inl ⟨origin', inner, inner', rfl, later, fun w known =>
        Option.some.inj (known.symm.trans found)⟩⟩
  · rename_i items found
    split at edited
    · obtain ⟨inner, -, same⟩ := Option.bind_eq_some_iff.1 edited
      cases same
      exact ⟨_, rfl, .inr ⟨items, found⟩⟩
    · cases edited
  · cases edited

theorem editAt_keeps (made : Origin) (keeps : Keeps edit) (way : List String) : Keeps (editAt made edit way) := by
  induction way with
  | nil => exact keeps
  | cons key way ih =>
      intro origin fields fields' path edited leads
      obtain ⟨v, rfl, ⟨origin', inner, inner', rfl, later, here⟩ | ⟨items, array⟩⟩ := editAt_cons edited
      · refine leads.set fun o w found => ⟨origin', inner', rfl, fun path inside => ih _ _ _ _ later ?_⟩
        cases here _ found
        exact inside
      · exact leads.set fun o w found => by rw [array] at found; cases found

theorem editAt_puts (puts : Puts edit [key]) {later : List String} (first : way ++ [key] = k :: later) :
    Puts (editAt made edit way) [k] := by
  cases way with
  | nil =>
      cases first
      exact puts
  | cons key way =>
      cases first
      intro origin fields fields' edited
      obtain ⟨v, rfl, -⟩ := editAt_cons edited
      exact .key Fields.find?_set_self

theorem editAt_under {path : List String} (puts : Puts (editAt made edit way) path)
    (tables : ∀ v, fields.find? key = some v → ∃ origin inner, v = .table origin inner)
    (edited : editAt made edit (key :: way) origin fields = some fields') : Leads (key :: path) fields' := by
  obtain ⟨v, rfl, ⟨origin', inner, inner', rfl, later, -⟩ | ⟨items, array⟩⟩ := editAt_cons edited
  · exact .under Fields.find?_set_self (puts _ _ _ later)
  · obtain ⟨origin', inner, same⟩ := tables _ array
    cases same

theorem editAt_leads {path : List String} (puts : Puts edit [key])
    (tables : ∀ k v, fields.find? k = some v → ∃ origin inner, v = .table origin inner)
    (edited : editAt made edit way origin fields = some fields') (first : path <+: way ++ [key]) (filled : path ≠ [])
    (short : path.length ≤ 2) : Leads path fields' := by
  obtain ⟨later, split⟩ := first
  match path, filled, short with
  | [k], _, _ => exact editAt_puts puts split.symm _ _ _ edited
  | [k, j], _, _ =>
      cases way with
      | nil => cases split
      | cons first way =>
          obtain ⟨rfl, rest⟩ := List.cons.inj split
          exact editAt_under (editAt_puts puts rest.symm) (tables k) edited

theorem assign_keeps (way : List String) (key : String) (v : Value) : Keeps (assign way key v) := by
  refine editAt_keeps .dotted ?_ way
  intro origin fields fields' path edited leads
  obtain ⟨-, added⟩ := Option.ite_none_right_eq_some.1 edited
  obtain ⟨absent, rfl⟩ := Fields.add?_eq_some.1 added
  exact leads.set fun o w found => by rw [absent] at found; cases found

theorem add?_puts (allowed : Origin → Bool) :
    Puts (fun origin fields => if allowed origin then fields.add? key v else none) [key] := by
  intro origin fields fields' edited
  obtain ⟨-, added⟩ := Option.ite_none_right_eq_some.1 edited
  obtain ⟨-, rfl⟩ := Fields.add?_eq_some.1 added
  exact .key Fields.find?_set_self

theorem assign_puts {later : List String} (first : way ++ [key] = k :: later) : Puts (assign way key v) [k] :=
  editAt_puts (add?_puts fun origin => way.isEmpty || origin = .dotted) first

theorem openTable_keeps {path : List String} (opened : openTable way key root = some root') (leads : Leads path root) :
    Leads path root' := by
  refine editAt_keeps .implied ?_ way _ _ _ _ opened leads
  intro origin fields fields' path edited leads
  simp only at edited
  split at edited
  · rename_i absent
    cases edited
    exact leads.set fun o w found => by rw [absent] at found; cases found
  · rename_i inner here
    cases edited
    refine leads.set fun o w found => ⟨.header, inner, rfl, fun path inside => ?_⟩
    rw [here] at found
    cases found
    exact inside
  · cases edited

theorem openTable_leads {path : List String} (opened : openTable way key root = some root')
    (tables : ∀ k v, root.find? k = some v → ∃ origin inner, v = .table origin inner) (first : path <+: way ++ [key])
    (filled : path ≠ []) (short : path.length ≤ 2) : Leads path root' := by
  refine editAt_leads ?_ tables opened first filled short
  intro origin fields fields' edited
  simp only at edited
  split at edited
  · cases edited
    exact .key Fields.find?_set_self
  · cases edited
    exact .key Fields.find?_set_self
  · cases edited

theorem openElement_keeps {path : List String} (opened : openElement way key root = some root')
    (leads : Leads path root) : Leads path root' := by
  refine editAt_keeps .implied ?_ way _ _ _ _ opened leads
  intro origin fields fields' path edited leads
  simp only at edited
  split at edited
  · rename_i absent
    cases edited
    exact leads.set fun o w found => by rw [absent] at found; cases found
  · rename_i items here
    cases edited
    exact leads.set fun o w found => by rw [here] at found; cases found
  · cases edited

theorem openElement_leads {path : List String} (opened : openElement way key root = some root')
    (tables : ∀ k v, root.find? k = some v → ∃ origin inner, v = .table origin inner) (first : path <+: way ++ [key])
    (filled : path ≠ []) (short : path.length ≤ 2) : Leads path root' := by
  refine editAt_leads ?_ tables opened first filled short
  intro origin fields fields' edited
  simp only at edited
  split at edited
  · cases edited
    exact .key Fields.find?_set_self
  · cases edited
    exact .key Fields.find?_set_self
  · cases edited

theorem assignUnder_leads {path : List String} (assigned : assignUnder header way key v root = some root')
    (tables : ∀ k v, root.find? k = some v → ∃ origin inner, v = .table origin inner)
    (first : path <+: header ++ (way ++ [key])) (filled : path ≠ []) (short : path.length ≤ 2)
    (single : header.length ≤ 1) : Leads path root' := by
  match header, single with
  | [], _ =>
      have added : assign way key v .header root = some root' := assigned
      exact editAt_leads (add?_puts fun origin => way.isEmpty || origin = .dotted) tables added first filled short
  | [t], _ =>
      obtain ⟨k, later, split⟩ := List.exists_cons_of_ne_nil (l := way ++ [key]) (by simp)
      rw [split] at first
      have front : path <+: [t] ++ [k] := by
        obtain ⟨more, rest⟩ := first
        exact List.prefix_of_prefix_length_le ⟨more, rest⟩ ⟨later, rfl⟩ (by simpa using short)
      exact editAt_leads (assign_puts split) tables assigned front filled short

theorem openTable_absent (absent : root.find? key = none) :
    openTable [] key root = some (root ++ [(key, .table .header [])]) := by
  rw [openTable, editAt, absent, ← Fields.set_absent absent]

theorem assignUnder_found {inner : Fields} (found : root.find? k = some (.table .header inner))
    (absent : inner.find? key = none) :
    assignUnder [k] [] key v root = some (root.set k (.table .header (inner ++ [(key, v)]))) := by
  rw [assignUnder, editAt, found]
  simp [editAt, assign, Fields.add?, absent]

theorem line_cases (read : line header root s = some (header', root', rest)) :
    (∃ u way key later, s = '[' :: '[' :: u ∧ keyPath u = some (way, key, later) ∧
      openElement way key root = some root') ∨
    (∃ u way key later, s = '[' :: u ∧ (∀ w, u ≠ '[' :: w) ∧ keyPath u = some (way, key, later) ∧
      openTable way key root = some root') ∨
    (∃ way key later v, (∀ u, s ≠ '[' :: u) ∧ keyPath s = some (way, key, later) ∧
      assignUnder header way key v root = some root') := by
  unfold line at read
  split at read
  · rename_i u
    obtain ⟨⟨way, key, later⟩, path, read⟩ := Option.bind_eq_some_iff.1 read
    split at read
    · rename_i found
      cases found
      obtain ⟨root', opened, read⟩ := Option.bind_eq_some_iff.1 read
      obtain ⟨rest, -, same⟩ := Option.bind_eq_some_iff.1 read
      cases same
      exact .inl ⟨u, way, key, _, rfl, path, opened⟩
    · cases read
  · rename_i u single
    obtain ⟨⟨way, key, later⟩, path, read⟩ := Option.bind_eq_some_iff.1 read
    split at read
    · rename_i found
      cases found
      obtain ⟨root', opened, read⟩ := Option.bind_eq_some_iff.1 read
      obtain ⟨rest, -, same⟩ := Option.bind_eq_some_iff.1 read
      cases same
      exact .inr (.inl ⟨u, way, key, _, rfl, single, path, opened⟩)
    · cases read
  · rename_i double single
    obtain ⟨⟨way, key, v, later⟩, entry, read⟩ := Option.bind_eq_some_iff.1 read
    obtain ⟨root', assigned, read⟩ := Option.bind_eq_some_iff.1 read
    obtain ⟨rest, -, same⟩ := Option.bind_eq_some_iff.1 read
    cases same
    obtain ⟨⟨way, key, later⟩, path, entry⟩ := Option.bind_eq_some_iff.1 entry
    simp only at entry
    split at entry
    · obtain ⟨⟨v, later⟩, -, same⟩ := Option.bind_eq_some_iff.1 entry
      cases same
      exact .inr (.inr ⟨_, _, _, v, single, path, assigned⟩)
    · cases entry

theorem line_keeps {path : List String} (read : line header root s = some (header', root', rest))
    (leads : Leads path root) : Leads path root' := by
  obtain ⟨u, way, key, later, -, -, opened⟩ | ⟨u, way, key, later, -, -, -, opened⟩ |
    ⟨way, key, later, v, -, -, assigned⟩ := line_cases read
  · exact openElement_keeps opened leads
  · exact openTable_keeps opened leads
  · exact editAt_keeps .implied (assign_keeps way key v) header _ _ _ _ assigned leads

/-- What leads somewhere still does when the rest of a document has been read. -/
theorem document_keeps {path : List String} (read : document n header root s = some root') (leads : Leads path root) :
    Leads path root' := by
  induction n generalizing header root s with
  | zero =>
      obtain ⟨-, same⟩ := Option.ite_none_right_eq_some.1 read
      cases same
      exact leads
  | succ n ih =>
      obtain ⟨u, -, read⟩ := Option.bind_eq_some_iff.1 read
      simp only at read
      split at read
      · cases read
        exact leads
      · obtain ⟨⟨header', root', rest⟩, first, read⟩ := Option.bind_eq_some_iff.1 read
        exact ih read (line_keeps first leads)

end SourceBundle.Toml
