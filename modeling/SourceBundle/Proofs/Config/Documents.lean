import SourceBundle.Config.Document
import SourceBundle.Proofs.Toml.Lines
import SourceBundle.Proofs.Toml.Tables
import Mathlib.Data.List.Basic
import Mathlib.Data.List.Induction

/-!
Configuration files that say what a request is. Each key of the schema stands in the table of its section or is left
out with the default as its value, in any order; reading the file gives back the request.
-/

namespace SourceBundle.Config

open Toml

inductive Key where
  | source
  | lang
  | output
  | recursive
  | suffixes
  | exclude
  | embedded
  | production
  deriving DecidableEq

namespace Key

def table : Key → String
  | source | lang | output | recursive => "general"
  | suffixes | exclude => "filters"
  | embedded | production => "profiles"

def name : Key → String
  | source => "source"
  | lang => "lang"
  | output => "output"
  | recursive => "recursive"
  | suffixes => "suffixes"
  | exclude => "exclude"
  | embedded => "embedded"
  | production => "production"

def all : List Key := [source, lang, output, recursive, suffixes, exclude, embedded, production]

theorem contains_table (k : Key) : sectionKeys.contains k.table = true := by
  cases k <;> decide

theorem exists_table {t : String} (member : t ∈ sectionKeys) : ∃ k : Key, k.table = t := by
  simp only [sectionKeys, List.mem_cons, List.not_mem_nil, or_false] at member
  rcases member with rfl | rfl | rfl
  · exact ⟨source, rfl⟩
  · exact ⟨suffixes, rfl⟩
  · exact ⟨embedded, rfl⟩

end Key

abbrev Place := Option String × String

def Key.place (k : Key) : Place := (some k.table, k.name)

theorem Key.place_inj {j k : Key} (same : j.place = k.place) : j = k := by
  cases j <;> cases k <;> first | rfl | exact absurd same (by decide)

/-- What a key of the schema may stand for. -/
inductive Datum where
  | string (s : String)
  | boolean (b : Bool)
  | strings (l : List String)
  deriving DecidableEq

def Datum.value : Datum → Value
  | string s => .string s
  | boolean b => .boolean b
  | strings l => .array false (l.map .string)

def Datum.ofWritten : Written → Datum
  | .string gs => string (String.ofList (content gs))
  | .boolean b => boolean b
  | .strings items => strings items.contents

theorem Datum.value_ofWritten (w : Written) : (ofWritten w).value = w.value := by
  cases w <;> rfl

def datum? (c : Config) : Key → Option Datum
  | .source => c.source.map .string
  | .lang => some (.string c.lang)
  | .output => some (.string c.output)
  | .recursive => some (.boolean c.recursive)
  | .suffixes => c.suffixes.map .strings
  | .exclude => some (.strings c.exclude)
  | .embedded => some (.boolean c.profiles.embedded)
  | .production => some (.boolean c.profiles.production)

def headers (ls : List Line) : List String :=
  ls.filterMap fun
    | .header _ _ name _ _ => some name.key
    | _ => none

/-- What lines say of keys, with the table that was open before them. -/
def assignments (above : Option String) : List Line → List (Place × Datum)
  | [] => []
  | .blank _ :: ls => assignments above ls
  | .header _ _ name _ _ :: ls => assignments (some name.key) ls
  | .entry _ name _ _ value _ :: ls => ((above, name.key), .ofWritten value) :: assignments above ls

/-- The lines of a document say what a request is: their tables and keys are those of the schema, none is there twice,
and a key that is left out has its default. -/
structure Says (ls : List Line) (c : Config) : Prop where
  tables : ∀ t ∈ headers ls, ∃ k : Key, k.table = t
  tablesOnce : (headers ls).Nodup
  keys : ∀ a ∈ assignments none ls, ∃ k : Key, a.1 = k.place
  keysOnce : ((assignments none ls).map Prod.fst).Nodup
  values : ∀ k : Key, (assignments none ls).lookup k.place = c.datum? k ∨
    (assignments none ls).lookup k.place = none ∧ c.datum? k = datum? {} k

def fieldsOf (t : String) (said : List (Place × Datum)) : Fields :=
  said.filterMap fun a => if a.1.1 = some t then some (a.1.2, a.2.value) else none

def tables (ts : List String) (said : List (Place × Datum)) : Fields :=
  ts.map fun t => (t, .table .header (fieldsOf t said))

variable {ls : List Line} {c : Config} {t key : String} {ts : List String} {said : List (Place × Datum)}

theorem find?_fieldsOf (t key : String) (said : List (Place × Datum)) :
    Fields.find? (fieldsOf t said) key = (said.lookup (some t, key)).map Datum.value := by
  induction said with
  | nil => rfl
  | cons a said ih =>
      obtain ⟨⟨above, k⟩, d⟩ := a
      rw [Fields.find?, fieldsOf] at ih
      rw [Fields.find?, fieldsOf, List.filterMap_cons, List.lookup_cons]
      by_cases here : above = some t
      · by_cases same : key = k
        · simp [here, same]
        · have apart : ((some t, key) == (some t, k)) = false := by simpa using same
          have other : (key == k) = false := by simpa using same
          simp [here, apart, other, List.lookup_cons, ih]
      · have apart : ((some t, key) == (above, k)) = false := by simpa using fun same => absurd same.symm here
        simp [here, apart, ih]

theorem find?_tables (member : t ∈ ts) : Fields.find? (tables ts said) t = some (.table .header (fieldsOf t said)) :=
  List.lookup_graph _ member

theorem find?_tables_absent (absent : t ∉ ts) : Fields.find? (tables ts said) t = none := by
  simp only [Fields.find?, tables, List.lookup_eq_none_iff, List.forall_mem_map]
  intro u member
  have apart : t ≠ u := fun same => absent (same ▸ member)
  simpa using apart

theorem set_tables (once : ts.Nodup) (member : t ∈ ts) (d : Datum) :
    Fields.set t (.table .header (fieldsOf t said ++ [(key, d.value)])) (tables ts said) =
      tables ts (said ++ [((some t, key), d)]) := by
  have here : fieldsOf t (said ++ [((some t, key), d)]) = fieldsOf t said ++ [(key, d.value)] := by simp [fieldsOf]
  have other : ∀ u, u ≠ t → fieldsOf u (said ++ [((some t, key), d)]) = fieldsOf u said := by
    intro u apart
    simp [fieldsOf, Ne.symm apart]
  induction ts with
  | nil => cases member
  | cons u ts ih =>
      rw [List.nodup_cons] at once
      rw [tables, List.map_cons, Fields.set]
      split
      · rename_i same
        subst same
        rw [tables, List.map_cons, here]
        congr 1
        refine List.map_congr_left fun w there => ?_
        rw [other w fun equal => once.1 (equal ▸ there)]
      · rename_i apart
        rw [← tables, ih once.2 (by simpa [Ne.symm apart] using member), tables, tables, List.map_cons, other u apart]

theorem headers_append (ls ls' : List Line) : headers (ls ++ ls') = headers ls ++ headers ls' :=
  List.filterMap_append

theorem assignments_append (above : Option String) (ls ls' : List Line) :
    assignments above (ls ++ ls') = assignments above ls ++ assignments ((headers ls).getLast?.or above) ls' := by
  induction ls generalizing above with
  | nil => rfl
  | cons first ls ih =>
      cases first with
      | blank trail => exact ih above
      | header indent before name after trail =>
          have last : (headers (.header indent before name after trail :: ls)).getLast?.or above =
              (headers ls).getLast?.or (some name.key) := by
            rw [headers, List.filterMap_cons, ← headers, List.getLast?_cons]
            cases (headers ls).getLast? <;> rfl
          rw [last]
          exact ih (some name.key)
      | entry indent name before after value trail => exact congrArg _ (ih above)

theorem mem_headers {a : Place × Datum} {t : String} (said : a ∈ assignments none ls) (under : a.1.1 = some t) :
    t ∈ headers ls := by
  induction ls using List.reverseRecOn with
  | nil => cases said
  | append_singleton ls l ih =>
      rw [assignments_append, Option.or_none, List.mem_append] at said
      rw [headers_append, List.mem_append]
      rcases said with earlier | here
      · exact .inl (ih earlier)
      · cases l with
        | blank trail => cases here
        | header indent before name after trail => cases here
        | entry indent name before after value trail =>
            left
            rw [List.mem_singleton.1 here] at under
            exact List.mem_of_getLast? under

theorem fieldsOf_eq_nil {t : String} (absent : t ∉ headers ls) : fieldsOf t (assignments none ls) = [] := by
  refine List.filterMap_eq_nil_iff.2 fun a said => ?_
  exact if_neg fun under => absent (mem_headers said under)

theorem runLines_tables (once : (headers ls).Nodup) (keysOnce : ((assignments none ls).map Prod.fst).Nodup)
    (placed : ∀ a ∈ assignments none ls, a.1.1 ≠ none) :
    runLines ls ([], []) = some ((headers ls).getLast?.toList, tables (headers ls) (assignments none ls)) := by
  induction ls using List.reverseRecOn with
  | nil => rfl
  | append_singleton ls l ih =>
      rw [headers_append] at once ⊢
      rw [assignments_append, Option.or_none] at keysOnce placed ⊢
      rw [List.map_append, List.nodup_append] at keysOnce
      rw [List.nodup_append] at once
      rw [List.forall_mem_append] at placed
      rw [runLines_concat, ih once.1 keysOnce.1 placed.1, Option.bind_some]
      cases l with
      | blank trail => simp [Line.run, headers, assignments]
      | header indent before name after trail =>
          have new : name.key ∉ headers ls := fun there => once.2.2 _ there name.key (by simp [headers]) rfl
          rw [Line.run, openTable_absent (find?_tables_absent new)]
          simp [headers, assignments, tables, fieldsOf_eq_nil new]
      | entry indent name before after value trail =>
          obtain ⟨t, last⟩ : ∃ t, (headers ls).getLast? = some t :=
            Option.ne_none_iff_exists'.1 (by simpa [assignments] using placed.2)
          have member := List.mem_of_getLast? last
          rw [last] at keysOnce ⊢
          have absent : (fieldsOf t (assignments none ls)).find? name.key = none := by
            rw [find?_fieldsOf, Option.map_eq_none_iff, List.lookup_eq_none_iff]
            intro a said
            have apart := keysOnce.2.2 a.1 (List.mem_map_of_mem said) (some t, name.key) (by simp [assignments])
            simpa using Ne.symm apart
          rw [Line.run, Option.toList_some, assignUnder_found (find?_tables member) absent, ← Datum.value_ofWritten,
            set_tables once.1 member]
          have quiet : headers [.entry indent name before after value trail] = [] := rfl
          rw [quiet, List.append_nil, last]
          rfl

theorem section?_tables {keys : List String} (schema : ∀ k : Key, k.table = t → k.name ∈ keys)
    (known : ∀ a ∈ assignments none ls, ∃ k : Key, a.1 = k.place) : section? t keys
      (tables (headers ls) (assignments none ls)) = some (fieldsOf t (assignments none ls)) := by
  rw [section?]
  by_cases member : t ∈ headers ls
  · have knows : knows keys (fieldsOf t (assignments none ls)) = true := by
      rw [Config.knows, List.all_eq_true]
      intro field present
      obtain ⟨a, said, here⟩ := List.mem_filterMap.1 present
      obtain ⟨k, place⟩ := known a said
      simp only [place, Key.place, Option.some.injEq, Option.ite_none_right_eq_some] at here
      obtain ⟨under, rfl⟩ := here
      simpa using schema k under
    rw [find?_tables member]
    exact if_pos knows
  · rw [find?_tables_absent member, fieldsOf_eq_nil member]

theorem optional?_fieldsOf {α : Type} {read : Value → Option α} {make : α → Datum}
    (reads : ∀ a, read (make a).value = some a) (k : Key) {a : Option α}
    (given : said.lookup k.place = a.map make) : optional? read k.name (fieldsOf k.table said) = some a := by
  rw [optional?, find?_fieldsOf, ← Key.place, given]
  cases a with
  | none => rfl
  | some a =>
      change (read (make a).value).map some = _
      rw [reads, Option.map_some]

theorem optional?_getD {α : Type} {read : Value → Option α} {make : α → Datum}
    (reads : ∀ a, read (make a).value = some a) (k : Key) {a standard : α}
    (given : said.lookup k.place = some (make a) ∨
      said.lookup k.place = none ∧ some (make a) = some (make standard)) :
    ∃ x, optional? read k.name (fieldsOf k.table said) = some x ∧ x.getD standard = a := by
  rcases given with given | ⟨absent, same⟩
  · exact ⟨some a, optional?_fieldsOf reads k given, rfl⟩
  · have equal : some a = some standard := by rw [← reads, ← reads, Option.some.inj same]
    exact ⟨none, optional?_fieldsOf reads k absent, (Option.some.inj equal).symm⟩

theorem strings?_value (l : List String) : strings? (Datum.strings l).value = some l := by
  rw [Datum.value, strings?]
  induction l with
  | nil => rfl
  | cons s l ih => rw [List.map_cons, List.mapM_cons, ih]; rfl

theorem Says.lookup_map {α : Type} {make : α → Datum} (stated : Says ls c) (k : Key) {a : Option α}
    (datum : c.datum? k = a.map make) (standard : datum? {} k = none) :
    (assignments none ls).lookup k.place = a.map make := by
  rcases stated.values k with given | ⟨absent, same⟩
  · rw [given, datum]
  · rw [absent, ← datum, same, standard]

theorem Says.placed (stated : Says ls c) : ∀ a ∈ assignments none ls, a.1.1 ≠ none := by
  intro a said
  obtain ⟨k, place⟩ := stated.keys a said
  simp [place, Key.place]

theorem ofFields_tables (stated : Says ls c) : ofFields (tables (headers ls) (assignments none ls)) = some c := by
  have known : knows sectionKeys (tables (headers ls) (assignments none ls)) = true := by
    rw [knows, List.all_eq_true, tables, List.forall_mem_map]
    intro t member
    obtain ⟨k, rfl⟩ := stated.tables t member
    exact k.contains_table
  have general : section? "general" generalKeys _ = _ := section?_tables (by intro k; cases k <;> decide) stated.keys
  have filters : section? "filters" filterKeys _ = _ := section?_tables (by intro k; cases k <;> decide) stated.keys
  have profiles : section? "profiles" profileKeys _ = _ := section?_tables (by intro k; cases k <;> decide) stated.keys
  have reads : ∀ s, string? (Datum.string s).value = some s := fun _ => rfl
  have decides : ∀ b, boolean? (Datum.boolean b).value = some b := fun _ => rfl
  have source := optional?_fieldsOf reads .source (stated.lookup_map .source rfl rfl)
  have suffixes := optional?_fieldsOf strings?_value .suffixes (stated.lookup_map .suffixes rfl rfl)
  obtain ⟨lang, readLang, lang_eq⟩ := optional?_getD reads .lang (stated.values .lang)
  obtain ⟨output, readOutput, output_eq⟩ := optional?_getD reads .output (stated.values .output)
  obtain ⟨recursive, readRecursive, recursive_eq⟩ := optional?_getD decides .recursive (stated.values .recursive)
  obtain ⟨exclude, readExclude, exclude_eq⟩ := optional?_getD strings?_value .exclude (stated.values .exclude)
  obtain ⟨embedded, readEmbedded, embedded_eq⟩ := optional?_getD decides .embedded (stated.values .embedded)
  obtain ⟨production, readProduction, production_eq⟩ := optional?_getD decides .production (stated.values .production)
  simp only [Key.name, Key.table] at *
  simp only [ofFields, known, general, filters, profiles, Option.bind_eq_bind, Option.bind_some, source, suffixes,
    readLang, readOutput, readRecursive, readExclude, readEmbedded, readProduction, lang_eq, output_eq, recursive_eq,
    exclude_eq, embedded_eq, production_eq]
  rfl

/-- A document that says what a request is gives the request. -/
theorem ofDocument_text (stated : Says ls c) {w : List Char} (returned : Returned (text ls) w) :
    ofDocument w = .ok c := by
  rw [ofDocument, read_text ls returned, runLines_tables stated.tablesOnce stated.keysOnce stated.placed,
    Option.map_some]
  simp only [ofFields_tables stated]

theorem Datum.exists_written (d : Datum) : ∃ w : Written, ofWritten w = d := by
  have stringed : ∀ s : String, ∃ gs, String.ofList (content gs) = s := fun s =>
    (exists_content s.toList).imp fun gs same => by rw [same, String.ofList_toList]
  cases d with
  | string s => exact (stringed s).elim fun gs same => ⟨.string gs, congrArg string same⟩
  | boolean b => exact ⟨.boolean b, rfl⟩
  | strings l =>
      obtain ⟨items, contents⟩ : ∃ items : Items, items.contents = l := by
        induction l with
        | nil => exact ⟨.done {}, rfl⟩
        | cons s l ih =>
            obtain ⟨gs, same⟩ := stringed s
            obtain ⟨items, contents⟩ := ih
            exact ⟨.more {} gs {} items, by rw [Items.contents, same, contents]⟩
      exact ⟨.strings items, congrArg strings contents⟩

def answers (c : Config) : List (Place × Datum) :=
  Key.all.filterMap fun k => (c.datum? k).map fun d => (k.place, d)

theorem answers_once (c : Config) : ((answers c).map Prod.fst).Nodup := by
  have some_of : ∀ ks : List Key,
      ((ks.filterMap fun k => (c.datum? k).map fun d => (k.place, d)).map Prod.fst).Sublist (ks.map Key.place) := by
    intro ks
    induction ks with
    | nil => exact .slnil
    | cons k ks ih =>
        cases datum : c.datum? k with
        | none => simpa [datum] using ih.cons _
        | some d => simpa [datum] using ih
  exact (some_of Key.all).nodup (by decide)

theorem lookup_answers (c : Config) (k : Key) : (answers c).lookup k.place = c.datum? k := by
  have among : ∀ ks : List Key, (ks.filterMap fun k => (c.datum? k).map fun d => (k.place, d)).lookup k.place =
      if k ∈ ks then c.datum? k else none := by
    intro ks
    induction ks with
    | nil => rfl
    | cons j ks ih =>
        by_cases same : k = j
        · subst same
          cases datum : c.datum? k with
          | none => simpa [datum] using ih
          | some d => simp [datum]
        · have apart : (k.place == j.place) = false := beq_false_of_ne fun place => same (Key.place_inj place)
          cases datum : c.datum? j with
          | none => simpa [datum, same] using ih
          | some d => simpa [datum, same, List.lookup_cons, apart] using ih
  rw [answers, among, if_pos (by cases k <;> decide)]

section Saying

variable (name : String → Name) (written : Datum → Written)

def sectionLines (c : Config) (t : String) (ks : List Key) : List Line :=
  .header .none .none (name t) .none {} ::
    ks.filterMap fun k => (c.datum? k).map fun d => .entry .none (name k.name) .none .none (written d) {}

def sayingLines (c : Config) : List Line :=
  sectionLines name written c "general" [.source, .lang, .output, .recursive] ++
    (sectionLines name written c "filters" [.suffixes, .exclude] ++
      (sectionLines name written c "profiles" [.embedded, .production] ++ []))

variable {name written} (keyed : ∀ s, (name s).key = s)
include keyed

theorem headers_sectionLines (c : Config) (t : String) (ks : List Key) (ls : List Line) :
    headers (sectionLines name written c t ks ++ ls) = t :: headers ls := by
  induction ks with
  | nil => simp [sectionLines, headers, keyed]
  | cons k ks ih =>
      cases datum : c.datum? k <;> simpa [sectionLines, headers, datum] using ih

theorem headers_sayingLines (c : Config) : headers (sayingLines name written c) = sectionKeys := by
  rw [sayingLines, headers_sectionLines keyed, headers_sectionLines keyed, headers_sectionLines keyed]
  rfl

variable (valued : ∀ d, Datum.ofWritten (written d) = d)
include valued

theorem assignments_sectionLines (c : Config) (above : Option String) (t : String) (ks : List Key) (ls : List Line) :
    assignments above (sectionLines name written c t ks ++ ls) =
      (ks.filterMap fun k => (c.datum? k).map fun d => ((some t, k.name), d)) ++ assignments (some t) ls := by
  induction ks with
  | nil => simp [sectionLines, assignments, keyed]
  | cons k ks ih =>
      cases datum : c.datum? k <;> simpa [sectionLines, assignments, datum, keyed, valued] using ih

theorem assignments_sayingLines (c : Config) : assignments none (sayingLines name written c) = answers c := by
  have all : Key.all = [.source, .lang, .output, .recursive] ++ ([.suffixes, .exclude] ++
      ([.embedded, .production] ++ [])) := rfl
  rw [sayingLines, assignments_sectionLines keyed valued, assignments_sectionLines keyed valued,
    assignments_sectionLines keyed valued, answers, all, List.filterMap_append, List.filterMap_append,
    List.filterMap_append]
  rfl

theorem says_sayingLines (c : Config) : Says (sayingLines name written c) c where
  tables := by
    rw [headers_sayingLines keyed]
    exact fun t member => Key.exists_table member
  tablesOnce := by
    rw [headers_sayingLines keyed]
    decide
  keys := by
    rw [assignments_sayingLines keyed valued]
    intro a member
    obtain ⟨k, -, datum⟩ := List.mem_filterMap.1 member
    obtain ⟨d, -, rfl⟩ := Option.map_eq_some_iff.1 datum
    exact ⟨k, rfl⟩
  keysOnce := by
    rw [assignments_sayingLines keyed valued]
    exact answers_once c
  values := fun k => .inl (by rw [assignments_sayingLines keyed valued, lookup_answers])

end Saying

/-- Every request can be said. -/
theorem exists_lines (c : Config) : ∃ ls, Says ls c := by
  have named : ∀ s : String, ∃ name : Name, name.key = s := fun s =>
    (exists_content s.toList).elim fun gs same => ⟨.basic gs, by rw [Name.key, same, String.ofList_toList]⟩
  choose name keyed using named
  choose written valued using Datum.exists_written
  exact ⟨sayingLines name written c, says_sayingLines keyed valued c⟩

end SourceBundle.Config
