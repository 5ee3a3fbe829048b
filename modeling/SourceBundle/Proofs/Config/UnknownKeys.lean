import SourceBundle.Proofs.Config.Documents

/-!
Configuration files with a key that no schema has. Wherever such a key is added, at the top or to a table, on a line of
its own or in a header, and whatever follows, the file is refused.
-/

namespace SourceBundle.Config

open Toml

/-- Keys of which no request speaks: the first is no table of the schema, or the second is no key of that table. -/
def Unknown : List String → Prop
  | [] => False
  | [t] => ∀ k : Key, k.table ≠ t
  | t :: name :: _ => ∀ k : Key, k.place ≠ (some t, name)

/-- How a line goes on to its keys: at once, or behind the brackets of a header. -/
inductive Opening where
  | entry
  | table (before : Gap)
  | element (before : Gap)

namespace Opening

def text : Opening → List Char
  | entry => []
  | table before => '[' :: before.1
  | element before => '[' :: '[' :: before.1

def above (header : List String) : Opening → List String
  | entry => header
  | table _ => []
  | element _ => []

theorem return_not_mem (opening : Opening) : '\r' ∉ opening.text := by
  cases opening with
  | entry => simp [text]
  | table before => simpa [text] using before.return_not_mem
  | element before => simpa [text] using before.return_not_mem

theorem append_ne_nil (opening : Opening) (way : Way) (s : List Char) : opening.text ++ (way.text ++ s) ≠ [] := by
  obtain ⟨u, split⟩ := way.exists_text
  have filled := way.first.append_ne_nil (u ++ s)
  cases opening with
  | entry => simpa [text, split] using filled
  | table before => simp [text]
  | element before => simp [text]

theorem stops_text (opening : Opening) (way : Way) (s : List Char) :
    Stops isLoose (opening.text ++ (way.text ++ s)) := by
  obtain ⟨u, split⟩ := way.exists_text
  cases opening with
  | entry =>
      rw [split, List.append_assoc]
      exact way.first.stops_text _
  | table before => exact stops_solid (by decide)
  | element before => exact stops_solid (by decide)

theorem unmarked (opening : Opening) (indent : Gap) (way : Way) (s : List Char) :
    (indent.1 ++ (opening.text ++ (way.text ++ s))).head? ≠ some mark := by
  obtain ⟨u, split⟩ := way.exists_text
  cases opening with
  | entry =>
      intro head
      rw [split, List.append_assoc] at head
      exact absurd (way.first.head_text indent _ mark head) (by decide)
  | table before => exact head_gap indent (by decide) (by simp [text]; decide)
  | element before => exact head_gap indent (by decide) (by simp [text]; decide)

end Opening

variable {ls : List Line} {c : Config} {root root' : Fields} {header header' : List String} {s rest : List Char}

theorem Unknown.short {path : List String} (unknown : Unknown path) :
    ∃ p, p <+: path ∧ p ≠ [] ∧ p.length ≤ 2 ∧ Unknown p := by
  match path, unknown with
  | [t], unknown => exact ⟨[t], List.prefix_rfl, by simp, by simp, unknown⟩
  | t :: name :: later, unknown => exact ⟨[t, name], ⟨later, rfl⟩, by simp, by simp, unknown⟩

theorem line_leads {path : List String} (opening : Opening) (way : Way) (ends : Stops isBareKeyPart s)
    (tables : ∀ k v, root.find? k = some v → ∃ origin inner, v = .table origin inner) (single : header.length ≤ 1)
    (read : line header root (opening.text ++ (way.text ++ s)) = some (header', root', rest))
    (first : path <+: opening.above header ++ way.keys) (filled : path ≠ []) (short : path.length ≤ 2) :
    Leads path root' := by
  have bracket : ∀ (g : Gap) u, g.1 ++ (way.text ++ s) ≠ '[' :: u := by
    intro g u same
    obtain ⟨v, split⟩ := way.exists_text
    rw [split, List.append_assoc] at same
    exact absurd (way.first.head_text g _ '[' (congrArg List.head? same)) (by decide)
  cases opening with
  | entry =>
      obtain ⟨u, _, _, _, split, -⟩ | ⟨u, _, _, _, split, -⟩ | ⟨path', key, later, v, -, keys, assigned⟩ :=
        line_cases read
      · exact absurd split (bracket .none _)
      · exact absurd split (bracket .none _)
      · have keyed := way.keyPath_text .none ends keys
        exact assignUnder_leads assigned tables (first.trans (List.prefix_append_right_inj _ |>.2 keyed)) filled short
          single
  | table before =>
      obtain ⟨u, _, _, _, split, -⟩ | ⟨u, path', key, later, split, -, keys, opened⟩ | ⟨_, _, _, _, other, -⟩ :=
        line_cases read
      · exact absurd (List.cons.inj split).2 (bracket before _)
      · obtain rfl := (List.cons.inj split).2
        rw [List.append_eq] at keys
        exact openTable_leads opened tables (first.trans (way.keyPath_text before ends keys)) filled short
      · exact absurd rfl (other _)
  | element before =>
      obtain ⟨u, path', key, later, split, keys, opened⟩ | ⟨u, _, _, _, split, other, -⟩ | ⟨_, _, _, _, other, -⟩ :=
        line_cases read
      · obtain rfl := (List.cons.inj (List.cons.inj split).2).2
        rw [List.append_eq] at keys
        exact openElement_leads opened tables (first.trans (way.keyPath_text before ends keys)) filled short
      · exact absurd (List.cons.inj split).2.symm (other _)
      · exact absurd rfl (other _)

theorem knows_eq_false {keys : List String} {fields : Fields} {key : String} {v : Value}
    (found : fields.find? key = some v) (absent : key ∉ keys) : knows keys fields = false := by
  obtain ⟨front, back, split, -⟩ := List.lookup_eq_some_iff.1 found
  rw [knows, List.all_eq_false]
  exact ⟨(key, v), by simp [split], by simpa using absent⟩

def schema : List (String × List String) :=
  [("general", generalKeys), ("filters", filterKeys), ("profiles", profileKeys)]

theorem exists_place {t name : String} {keys : List String} (part : (t, keys) ∈ schema) (member : name ∈ keys) :
    ∃ k : Key, k.place = (some t, name) := by
  have every : ∀ part ∈ schema, ∀ name ∈ part.2, ∃ k ∈ Key.all, k.place = (some part.1, name) := by decide
  obtain ⟨k, -, place⟩ := every _ part _ member
  exact ⟨k, place⟩

theorem exists_keys {t : String} (member : t ∈ sectionKeys) : ∃ keys, (t, keys) ∈ schema := by
  have every : ∀ t ∈ sectionKeys, ∃ part ∈ schema, part.1 = t := by decide
  obtain ⟨⟨_, keys⟩, part, rfl⟩ := every _ member
  exact ⟨keys, part⟩

theorem section?_of_ofFields (made : ofFields root = some c) :
    knows sectionKeys root = true ∧ ∀ part ∈ schema, section? part.1 part.2 root ≠ none := by
  rw [ofFields] at made
  split at made
  · cases made
  · rename_i known
    obtain ⟨general, first, made⟩ := Option.bind_eq_some_iff.1 made
    obtain ⟨filters, second, made⟩ := Option.bind_eq_some_iff.1 made
    obtain ⟨profiles, third, -⟩ := Option.bind_eq_some_iff.1 made
    exact ⟨by simpa using known, by simp [schema, first, second, third]⟩

theorem section?_unknown {t name : String} {keys : List String} {origin : Origin} {inner : Fields}
    (found : root.find? t = some (.table origin inner)) {later : List String} (leads : Leads (name :: later) inner)
    (absent : name ∉ keys) : section? t keys root = none := by
  obtain ⟨v, inside⟩ := leads.find?
  rw [section?, found]
  exact if_neg (by simp [knows_eq_false inside absent])

theorem ofFields_unknown {path : List String} (leads : Leads path root) (unknown : Unknown path) :
    ofFields root = none := by
  refine Option.eq_none_iff_forall_ne_some.2 fun c made => ?_
  obtain ⟨known, sections⟩ := section?_of_ofFields made
  have table : ∀ t v, root.find? t = some v → t ∈ sectionKeys := by
    intro t v found
    by_contra absent
    rw [knows_eq_false found absent] at known
    cases known
  match path, leads, unknown with
  | [t], leads, unknown =>
      obtain ⟨v, found⟩ := leads.find?
      obtain ⟨k, same⟩ := Key.exists_table (table t v found)
      exact unknown k same
  | t :: name :: later, .under found inside, unknown =>
      obtain ⟨keys, part⟩ := exists_keys (table t _ found)
      refine sections _ part (section?_unknown found inside fun known => ?_)
      obtain ⟨k, place⟩ := exists_place part known
      exact unknown k place

theorem refused (unmade : ∀ root, Toml.read s = some root → ofFields root = none) :
    ∃ fault, ofDocument s = .error fault := by
  rw [ofDocument]
  cases read : Toml.read s with
  | none => exact ⟨.notToml, rfl⟩
  | some root =>
      simp only [unmade root read]
      exact ⟨.notConfig, rfl⟩

theorem tables_only {ts : List String} {said : List (Place × Datum)} : ∀ k v,
    (tables ts said).find? k = some v → ∃ origin inner, v = .table origin inner := by
  intro k v found
  obtain ⟨front, back, split, -⟩ := List.lookup_eq_some_iff.1 found
  have member : (k, v) ∈ tables ts said := by simp [split]
  obtain ⟨t, -, same⟩ := List.mem_map.1 member
  cases same
  exact ⟨_, _, rfl⟩

theorem stops_unified (stops : Stops isBareKeyPart s) : Stops isBareKeyPart (unifyLineEnds s) := by
  unfold unifyLineEnds
  split
  · simp; decide
  · simpa using stops
  · exact stops

/-- A document of the schema up to the point where a line with an unknown key begins is refused, whatever follows the
key. -/
theorem ofDocument_unknown {before after : List Line} (stated : Says (before ++ after) c) (indent : Gap)
    (opening : Opening) (way : Way) {w : List Char} (ends : Stops isBareKeyPart rest)
    (unknown : Unknown (opening.above (headers before).getLast?.toList ++ way.keys))
    (returned : Returned (broken before ++ (indent.1 ++ (opening.text ++ way.text))) w) :
    ∃ fault, ofDocument (w ++ rest) = .error fault := by
  have absent : '\r' ∉ indent.1 ++ (opening.text ++ way.text) := by
    simp [indent.return_not_mem, opening.return_not_mem, way.return_not_mem]
  have unmarked : ∀ s, (indent.1 ++ (opening.text ++ way.text) ++ s).head? ≠ some mark := by
    intro s
    rw [List.append_assoc, List.append_assoc]
    exact opening.unmarked indent way s
  have once := stated.tablesOnce
  have keysOnce := stated.keysOnce
  have placed := stated.placed
  rw [headers_append, List.nodup_append] at once
  rw [assignments_append, List.map_append, List.nodup_append] at keysOnce
  rw [assignments_append, List.forall_mem_append] at placed
  obtain ⟨m, read⟩ := read_broken before returned absent (unmarked rest)
  rw [runLines_tables once.1 keysOnce.1 placed.1, Option.bind_some, List.append_assoc,
    List.append_assoc, Line.document_solid indent _ _ (opening.append_ne_nil way _) (opening.stops_text way _)] at read
  refine refused fun root' found => ?_
  rw [read] at found
  obtain ⟨⟨header, root, later⟩, first, found⟩ := Option.bind_eq_some_iff.1 found
  obtain ⟨path, front, filled, short, unknown⟩ := unknown.short
  have leads : Leads path root := by
    refine line_leads opening way (stops_unified ends) tables_only ?_ first front filled short
    cases (headers before).getLast? <;> simp
  exact ofFields_unknown (document_keeps found leads) unknown

/-- A document of the schema that says what a request is gives the request, in whatever order and with whichever of its
defaults left out, and every request can be said so. With an unknown key added at the top or to a table, in whatever way
the rest is written, it is refused. -/
theorem ofDocument_roundTrip (c : Config) :
    (∃ ls, Says ls c) ∧
      ∀ ls, Says ls c → (∀ w, Returned (text ls) w → ofDocument w = .ok c) ∧
        ∀ before after, before ++ after = ls → ∀ (indent : Gap) (opening : Opening) (way : Way) (w rest : List Char),
          Returned (broken before ++ (indent.1 ++ (opening.text ++ way.text))) w → Stops isBareKeyPart rest →
            Unknown (opening.above (headers before).getLast?.toList ++ way.keys) →
              ∃ fault, ofDocument (w ++ rest) = .error fault := by
  refine ⟨exists_lines c, fun ls stated => ⟨fun w returned => ofDocument_text stated returned, ?_⟩⟩
  rintro before after rfl indent opening way w rest returned ends unknown
  exact ofDocument_unknown stated indent opening way ends unknown returned

def shuffled : List Line :=
  [.header .none .none (.bare "filters".toList (by decide) (by decide)) .none
      { comment := some ⟨" first".toList, by decide⟩ },
    .entry .none (.bare "suffixes".toList (by decide) (by decide)) .none .none
      (.strings (.more {} [.plain 'x' (by decide) (by decide)] {} (.last {} [.letter 't' '\t' (by decide)] {}))) {},
    .header .none .none (.bare "general".toList (by decide) (by decide)) .none {},
    .entry .none (.bare "recursive".toList (by decide) (by decide)) .none .none (.boolean false) {},
    .entry .none (.literal "source".toList (by decide)) .none .none
      (.string [.plain 'a' (by decide) (by decide), .letter '"' '"' (by decide)]) {}]

theorem shuffled_stated : Says shuffled { source := some "a\"", suffixes := some ["x", "\t"] } where
  tables := fun t member => Key.exists_table (by revert t; decide)
  tablesOnce := by decide
  keys := by
    have every : ∀ a ∈ assignments none shuffled, ∃ k ∈ Key.all, a.1 = k.place := by decide
    exact fun a member => (every a member).imp fun k place => place.2
  keysOnce := by decide
  values := by
    intro k
    cases k <;> decide

theorem ofDocument_shuffled :
    ofDocument "[filters]# first\nsuffixes=[\"x\",\"\\t\"]\n[general]\nrecursive=false\n'source'=\"a\\\"\"".toList =
        .ok { source := some "a\"", suffixes := some ["x", "\t"] } ∧
      ∃ fault, ofDocument "[filters]# first\ndepth = 2\nsuffixes=[\"x\",\"\\t\"]\n".toList = .error fault := by
  obtain ⟨given, refused⟩ := (ofDocument_roundTrip _).2 shuffled shuffled_stated
  exact ⟨given _ (.refl _), refused (shuffled.take 1) (shuffled.drop 1) rfl .none .entry
    (.last (.bare "depth".toList (by decide) (by decide))) "[filters]# first\ndepth".toList
    " = 2\nsuffixes=[\"x\",\"\\t\"]\n".toList (.refl _) (by simp; decide) (fun k => by cases k <;> decide)⟩

end SourceBundle.Config
