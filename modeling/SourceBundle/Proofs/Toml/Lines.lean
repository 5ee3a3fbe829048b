import SourceBundle.Proofs.Toml.Values

/-!
Documents as they are written, line by line: blank lines, headers of tables and keys with their values. Reading a
document does to the tables what its lines do one after the other, whatever stands around keys and values and whichever
of its newlines have a return before them.
-/

namespace SourceBundle.Toml

variable {s w rest : List Char} {n : Nat}

theorem stops_bareKey (g : Gap) (stops : Stops isBareKeyPart s) : Stops isBareKeyPart (g.1 ++ s) := by
  obtain ⟨gap, blank⟩ := g
  cases gap with
  | nil => exact stops
  | cons c gap =>
      rw [List.cons_append, stops_cons]
      rcases blank c (by simp) with rfl | rfl <;> rfl

inductive Name where
  | bare (u : List Char) (filled : u ≠ []) (part : ∀ c ∈ u, isBareKeyPart c = true)
  | basic (gs : List Glyph)
  | literal (u : List Char) (plain : ∀ c ∈ u, IsText c ∧ c ≠ '\'')

namespace Name

def text : Name → List Char
  | bare u _ _ => u
  | basic gs => quote gs
  | literal u _ => '\'' :: (u ++ ['\''])

def key : Name → String
  | bare u _ _ => String.ofList u
  | basic gs => String.ofList (content gs)
  | literal u _ => String.ofList u

def isOpening (c : Char) : Bool := isBareKeyPart c || c == '"' || c == '\''

theorem exists_cons (name : Name) : ∃ c u, name.text = c :: u ∧ isOpening c = true := by
  cases name with
  | bare u filled part =>
      obtain ⟨c, u, rfl⟩ := List.exists_cons_of_ne_nil filled
      exact ⟨c, u, rfl, by simp [isOpening, part]⟩
  | basic gs => exact ⟨_, _, rfl, rfl⟩
  | literal u plain => exact ⟨_, _, rfl, rfl⟩

theorem return_not_mem (name : Name) : '\r' ∉ name.text := by
  cases name with
  | bare u filled part => exact fun member => absurd (part _ member) (by decide)
  | basic gs => exact fun member => (isText_quote gs _ member).ne_return rfl
  | literal u plain => simpa [text] using fun member => (plain _ member).1.ne_return rfl

theorem simpleKey_text (name : Name) (ends : Stops isBareKeyPart s) :
    simpleKey (name.text ++ s) = some (name.key.toList, s) := by
  cases name with
  | bare u filled part =>
      obtain ⟨c, u, rfl⟩ := List.exists_cons_of_ne_nil filled
      have first := part c (by simp)
      have double : c ≠ '"' := by rintro rfl; cases first
      have single : c ≠ '\'' := by rintro rfl; cases first
      obtain ⟨taken, left⟩ := takeWhile_run part ends
      rw [text, simpleKey]
      · simp only [taken, left]
        simp [Name.key]
      · simp [double]
      · simp [single]
  | basic gs =>
      simp only [text, quote, List.cons_append, List.append_assoc, List.nil_append, simpleKey, basic_written]
      simp [Name.key]
  | literal u plain =>
      have read : Toml.literal (u ++ '\'' :: s) = some (u, s) := by
        induction u with
        | nil => rfl
        | cons c u ih =>
            rw [List.forall_mem_cons] at plain
            simp [Toml.literal, plain.1.2, isPlain_of_isText plain.1.1, ih plain.2, Reading.push]
      simp only [text, List.cons_append, List.append_assoc, List.nil_append, simpleKey, read]
      simp [Name.key]

theorem head_text (name : Name) (g : Gap) (s : List Char) :
    ∀ c ∈ (g.1 ++ (name.text ++ s)).head?, c = ' ' ∨ c = '\t' ∨ isOpening c = true := by
  obtain ⟨d, u, split, opening⟩ := name.exists_cons
  obtain ⟨gap, blank⟩ := g
  intro c head
  cases gap with
  | nil =>
      obtain rfl : d = c := by simpa [split] using head
      exact .inr (.inr opening)
  | cons b gap =>
      obtain rfl : b = c := by simpa using head
      rcases blank b (by simp) with rfl | rfl
      · exact .inl rfl
      · exact .inr (.inl rfl)

theorem append_ne_nil (name : Name) (s : List Char) : name.text ++ s ≠ [] := by
  obtain ⟨c, u, split, -⟩ := name.exists_cons
  simp [split]

theorem stops_text (name : Name) (s : List Char) : Stops isLoose (name.text ++ s) := by
  obtain ⟨c, u, split, opening⟩ := name.exists_cons
  rw [split, List.cons_append, stops_cons]
  by_contra loose
  simp only [isLoose, isGap, Bool.not_eq_false, Bool.or_eq_true, beq_iff_eq] at loose
  rcases loose with ((rfl | rfl) | rfl) | rfl <;> cases opening

theorem skipGap_text (name : Name) (g : Gap) (s : List Char) : skipGap (g.1 ++ (name.text ++ s)) = name.text ++ s := by
  rw [skipGap_gap, skipGap_self (stops_isGap (name.stops_text s))]

theorem dottedKey_text (name : Name) (g : Gap) {c : Char} (ends : Stops isBareKeyPart s) (next : skipGap s = c :: w)
    (single : c ≠ '.') : dottedKey (n + 1) (g.1 ++ (name.text ++ s)) = some ([], name.key, c :: w) := by
  rw [dottedKey, skipGap_text, name.simpleKey_text ends]
  simp only [bind, Option.bind, String.ofList_toList, next]
  split
  · rename_i dot
    exact absurd (List.cons.inj dot).1 single
  · rfl

theorem dottedKey_first (name : Name) (g : Gap) (ends : Stops isBareKeyPart s) {way : List String} {last : String}
    (read : dottedKey n (g.1 ++ (name.text ++ s)) = some (way, last, rest)) :
    ∃ later, way ++ [last] = name.key :: later := by
  cases n with
  | zero => cases read
  | succ n =>
      rw [dottedKey, skipGap_text, name.simpleKey_text ends] at read
      simp only [bind, Option.bind, String.ofList_toList] at read
      split at read
      · split at read
        · cases read
        · cases read
          exact ⟨_, rfl⟩
      · cases read
        exact ⟨[], rfl⟩

theorem keyPath_text (name : Name) (g : Gap) {c : Char} (ends : Stops isBareKeyPart s) (next : skipGap s = c :: w)
    (single : c ≠ '.') : keyPath (g.1 ++ (name.text ++ s)) = some ([], name.key, c :: w) := by
  obtain ⟨n, length⟩ : ∃ n, (g.1 ++ (name.text ++ s)).length = n + 1 := by
    obtain ⟨c, u, split, -⟩ := name.exists_cons
    exact ⟨g.1.length + (u ++ s).length, by simp [split]; omega⟩
  rw [keyPath, length, name.dottedKey_text g ends next single]
  rfl

end Name

/-- Keys with dots between them, as they are written. -/
inductive Way where
  | last (name : Name)
  | dot (name : Name) (before after : Gap) (later : Way)

namespace Way

def text : Way → List Char
  | last name => name.text
  | dot name before after later => name.text ++ (before.1 ++ '.' :: (after.1 ++ later.text))

def keys : Way → List String
  | last name => [name.key]
  | dot name _ _ later => name.key :: later.keys

def first : Way → Name
  | last name => name
  | dot name _ _ _ => name

theorem exists_text (way : Way) : ∃ u, way.text = way.first.text ++ u := by
  cases way with
  | last name => exact ⟨[], (List.append_nil _).symm⟩
  | dot name before after later => exact ⟨_, rfl⟩

theorem return_not_mem (way : Way) : '\r' ∉ way.text := by
  induction way with
  | last name => exact name.return_not_mem
  | dot name before after later ih => simp [text, name.return_not_mem, before.return_not_mem, after.return_not_mem, ih]

theorem dottedKey_text (way : Way) (g : Gap) (ends : Stops isBareKeyPart s) {path : List String} {key : String}
    (read : dottedKey n (g.1 ++ (way.text ++ s)) = some (path, key, rest)) : way.keys <+: path ++ [key] := by
  induction way generalizing n g path with
  | last name =>
      obtain ⟨later, keys⟩ := name.dottedKey_first g ends read
      exact ⟨later, keys.symm⟩
  | dot name before after later ih =>
      cases n with
      | zero => cases read
      | succ n =>
          have dot : Stops isBareKeyPart (before.1 ++ '.' :: (after.1 ++ (later.text ++ s))) :=
            stops_bareKey before (by simp; decide)
          simp only [text, List.append_assoc, List.cons_append] at read
          rw [dottedKey, name.skipGap_text, name.simpleKey_text dot] at read
          simp only [bind, Option.bind, String.ofList_toList] at read
          rw [skipGap_gap, skipGap_self (by simp; decide)] at read
          simp only at read
          split at read
          · cases read
          · rename_i found
            cases read
            exact List.cons_prefix_cons.2 ⟨rfl, ih after found⟩

theorem keyPath_text (way : Way) (g : Gap) (ends : Stops isBareKeyPart s) {path : List String} {key : String}
    (read : keyPath (g.1 ++ (way.text ++ s)) = some (path, key, rest)) : way.keys <+: path ++ [key] := by
  obtain ⟨⟨path', key', rest'⟩, found, short⟩ := Option.bind_eq_some_iff.1 read
  simp only [Option.ite_none_right_eq_some, Option.some.injEq, Prod.mk.injEq] at short
  obtain ⟨-, rfl, rfl, rfl⟩ := short
  exact way.dottedKey_text g ends found

end Way

inductive Line where
  | blank (trail : Trail)
  | header (indent before : Gap) (name : Name) (after : Gap) (trail : Trail)
  | entry (indent : Gap) (name : Name) (before after : Gap) (value : Written) (trail : Trail)

/-- The last header, and the fields of the root table. -/
abbrev Progress := List String × Fields

namespace Line

def text : Line → List Char
  | blank trail => trail.text
  | header indent before name after trail =>
      indent.1 ++ '[' :: (before.1 ++ (name.text ++ (after.1 ++ ']' :: trail.text)))
  | entry indent name before after value trail =>
      indent.1 ++ (name.text ++ (before.1 ++ '=' :: (after.1 ++ (value.text ++ trail.text))))

def run : Line → Progress → Option Progress
  | blank _, p => some p
  | header _ _ name _ _, (_, root) => (openTable [] name.key root).map fun root => ([name.key], root)
  | entry _ name _ _ value _, (above, root) =>
      (assignUnder above [] name.key value.value root).map fun root => (above, root)

theorem line_header (before : Gap) (name : Name) (after : Gap) (s : List Char) (p : Progress) :
    line p.1 p.2 ('[' :: (before.1 ++ (name.text ++ (after.1 ++ ']' :: s)))) =
      do return ([name.key], ← openTable [] name.key p.2, ← finishLine s) := by
  have key : keyPath (before.1 ++ (name.text ++ (after.1 ++ ']' :: s))) = some ([], name.key, ']' :: s) := by
    refine name.keyPath_text before ?_ ?_ (by decide)
    · exact stops_bareKey after (by simp; decide)
    · rw [skipGap_gap, skipGap_self (by simp; decide)]
  unfold line
  split
  · rename_i double
    have bracket := name.head_text before (after.1 ++ ']' :: s) '[' (by simp [(List.cons.inj double).2])
    exact absurd bracket (by decide)
  · rename_i single
    obtain rfl := (List.cons.inj single).2
    rw [key]
    rfl
  · rename_i other
    exact absurd rfl (other _)

theorem line_entry (name : Name) (before after : Gap) (value : Written) (p : Progress)
    (ends : ∀ c ∈ s.head?, isLoose c = true) :
    line p.1 p.2 (name.text ++ (before.1 ++ '=' :: (after.1 ++ (value.text ++ s)))) =
      do return (p.1, ← assignUnder p.1 [] name.key value.value p.2, ← finishLine s) := by
  have key : keyValue (Toml.value greatestDepth)
      (name.text ++ (before.1 ++ '=' :: (after.1 ++ (value.text ++ s)))) = some ([], name.key, value.value, s) := by
    have path : keyPath (name.text ++ (before.1 ++ '=' :: (after.1 ++ (value.text ++ s)))) =
        some ([], name.key, '=' :: (after.1 ++ (value.text ++ s))) := by
      refine name.keyPath_text .none ?_ ?_ (by decide)
      · exact stops_bareKey before (by simp; decide)
      · rw [skipGap_gap, skipGap_self (by simp; decide)]
    rw [keyValue, path]
    change (Toml.value greatestDepth (skipGap (after.1 ++ (value.text ++ s)))).bind _ = _
    rw [skipGap_gap, skipGap_self (value.stops_text s)]
    have read : Toml.value greatestDepth (value.text ++ s) = some (value.value, s) := value.value_text ends
    rw [read]
    rfl
  have bracket : ∀ w, name.text ++ (before.1 ++ '=' :: (after.1 ++ (value.text ++ s))) ≠ '[' :: w := by
    intro w same
    exact absurd (name.head_text .none _ '[' (congrArg List.head? same)) (by decide)
  unfold line
  split
  · rename_i double
    exact absurd double (bracket _)
  · rename_i single
    exact absurd single (bracket _)
  · rw [key]
    rfl

theorem document_solid (indent : Gap) (h : List String) (root : Fields) (filled : s ≠ []) (solid : Stops isLoose s) :
    document (n + 1) h root (indent.1 ++ s) =
      (line h root s).bind fun (h, root, rest) => document n h root rest := by
  obtain ⟨c, s, rfl⟩ := List.exists_cons_of_ne_nil filled
  obtain ⟨k, length⟩ : ∃ k, (indent.1 ++ c :: s).length = k + 1 := ⟨indent.1.length + s.length, by simp; omega⟩
  rw [document, length, skipLines_gap indent solid]
  rfl

theorem document_nil (n : Nat) (h : List String) (root : Fields) : document n h root [] = some root := by
  cases n <;> rfl

theorem document_broken (l : Line) (p : Progress) (s : List Char) : ∃ m, n ≤ m ∧
    document (n + 1) p.1 p.2 (l.text ++ '\n' :: s) = (l.run p).bind fun p => document m p.1 p.2 s := by
  cases l with
  | blank trail =>
      refine ⟨n + 1, Nat.le_succ n, ?_⟩
      have length : (trail.text ++ '\n' :: s).length = trail.text.length + s.length + 1 := by simp; omega
      change document (n + 1) p.1 p.2 (trail.text ++ '\n' :: s) = document (n + 1) p.1 p.2 s
      rw [document, length, skipLines_trail, skipLines_stable (Nat.le_add_left _ _) le_rfl, document]
  | header indent before name after trail =>
      refine ⟨n, le_rfl, ?_⟩
      simp only [text, List.append_assoc, List.cons_append]
      rw [document_solid indent _ _ (List.cons_ne_nil _ _) (stops_solid (by decide)), line_header,
        (finishLine_trail trail s).2]
      simp only [run]
      cases openTable [] name.key p.2 <;> rfl
  | entry indent name before after value trail =>
      refine ⟨n, le_rfl, ?_⟩
      simp only [text, List.append_assoc, List.cons_append]
      rw [document_solid indent _ _ (name.append_ne_nil _) (name.stops_text _),
        line_entry name before after value p (trail.head_broken s), (finishLine_trail trail s).2]
      simp only [run]
      cases assignUnder p.1 [] name.key value.value p.2 <;> rfl

theorem document_last (l : Line) (p : Progress) : document (n + 1) p.1 p.2 l.text = (l.run p).map Prod.snd := by
  cases l with
  | blank trail =>
      have skipped : skipLines trail.text.length trail.text = some [] := by
        cases length : trail.text.length with
        | zero => rw [List.length_eq_zero_iff.1 length]; rfl
        | succ k => exact skipLines_last trail
      rw [text, document, skipped]
      rfl
  | header indent before name after trail =>
      rw [text, document_solid indent _ _ (List.cons_ne_nil _ _) (stops_solid (by decide)), line_header,
        (finishLine_trail trail []).1]
      simp only [run]
      cases openTable [] name.key p.2 with
      | none => rfl
      | some root => exact document_nil n _ _
  | entry indent name before after value trail =>
      rw [text, document_solid indent _ _ (name.append_ne_nil _) (name.stops_text _),
        line_entry name before after value p trail.head_last, (finishLine_trail trail []).1]
      simp only [run]
      cases assignUnder p.1 [] name.key value.value p.2 with
      | none => rfl
      | some root => exact document_nil n _ _

end Line

def text (ls : List Line) : List Char := ['\n'].intercalate (ls.map Line.text)

def broken (ls : List Line) : List Char := ls.flatMap fun l => l.text ++ ['\n']

def runLines (ls : List Line) (p : Progress) : Option Progress := ls.foldlM (fun p l => l.run p) p

theorem length_broken (ls : List Line) : ls.length ≤ (broken ls).length := by
  induction ls with
  | nil => exact le_rfl
  | cons l ls ih =>
      have split : broken (l :: ls) = l.text ++ '\n' :: broken ls := by simp [broken]
      simp only [split, List.length_append, List.length_cons]
      omega

theorem runLines_cons (l : Line) (ls : List Line) (p : Progress) :
    runLines (l :: ls) p = (l.run p).bind (runLines ls) := rfl

theorem runLines_concat (ls : List Line) (l : Line) (p : Progress) :
    runLines (ls ++ [l]) p = (runLines ls p).bind l.run := by
  induction ls generalizing p with
  | nil => exact Option.bind_fun_some (l.run p)
  | cons first ls ih =>
      rw [List.cons_append, runLines_cons, runLines_cons, Option.bind_assoc]
      exact congrArg _ (funext ih)

theorem text_concat (ls : List Line) (l : Line) : text (ls ++ [l]) = broken ls ++ l.text := by
  induction ls with
  | nil => simp [text, broken, List.intercalate]
  | cons first ls ih =>
      obtain ⟨next, later, split⟩ := List.exists_cons_of_ne_nil (l := ls ++ [l]) (by simp)
      rw [text] at ih
      rw [text, List.cons_append, List.map_cons, split, List.map_cons, List.intercalate_cons_cons, ← List.map_cons,
        ← split, ih, broken, broken, List.flatMap_cons, List.append_assoc, List.append_assoc, List.append_assoc]

theorem document_lines (ls : List Line) (p : Progress) (s : List Char) (enough : ls.length ≤ n) :
    ∃ m, n ≤ m + ls.length ∧
      document n p.1 p.2 (broken ls ++ s) = (runLines ls p).bind fun p => document m p.1 p.2 s := by
  induction ls generalizing n p with
  | nil => exact ⟨n, le_rfl, rfl⟩
  | cons l ls ih =>
      obtain ⟨n, rfl⟩ : ∃ k, n = k + 1 := ⟨n - 1, by rw [List.length_cons] at enough; omega⟩
      obtain ⟨k, more, first⟩ := l.document_broken (n := n) p (broken ls ++ s)
      rw [List.length_cons] at enough
      have split : broken (l :: ls) ++ s = l.text ++ '\n' :: (broken ls ++ s) := by simp [broken]
      rw [split, first]
      cases ran : l.run p with
      | none => exact ⟨n, by rw [List.length_cons]; omega, by rw [runLines_cons, ran]; rfl⟩
      | some q =>
          obtain ⟨m, left, later⟩ := ih (n := k) q (by omega)
          refine ⟨m, by rw [List.length_cons]; omega, ?_⟩
          rw [Option.bind_some, later, runLines_cons, ran, Option.bind_some]

/-- The same text, but some of its newlines have a return before them. -/
inductive Returned : List Char → List Char → Prop where
  | nil : Returned [] []
  | keep (c : Char) {s w : List Char} (rest : Returned s w) : Returned (c :: s) (c :: w)
  | insert {s w : List Char} (rest : Returned s w) : Returned ('\n' :: s) ('\r' :: '\n' :: w)

theorem Returned.refl (s : List Char) : Returned s s := by
  induction s with
  | nil => exact .nil
  | cons c s ih => exact .keep c ih

theorem Returned.unify (returned : Returned s w) (absent : '\r' ∉ s) (rest : List Char) :
    unifyLineEnds (w ++ rest) = s ++ unifyLineEnds rest := by
  induction returned with
  | nil => rfl
  | keep c returned ih =>
      rw [List.mem_cons, not_or] at absent
      simp [unifyLineEnds, ih absent.2, Ne.symm absent.1]
  | insert returned ih =>
      rw [List.mem_cons, not_or] at absent
      simp [unifyLineEnds, ih absent.2]

theorem Returned.head (returned : Returned s w) : w.head? = s.head? ∨ w.head? = some '\r' := by
  cases returned with
  | nil => exact .inl rfl
  | keep c rest => exact .inl rfl
  | insert rest => exact .inr rfl

theorem Line.return_not_mem (l : Line) : '\r' ∉ l.text := by
  cases l with
  | blank trail => exact trail.return_not_mem
  | header indent before name after trail =>
      simp [Line.text, indent.return_not_mem, before.return_not_mem, name.return_not_mem, after.return_not_mem,
        trail.return_not_mem]
  | entry indent name before after value trail =>
      simp [Line.text, indent.return_not_mem, name.return_not_mem, before.return_not_mem, after.return_not_mem,
        value.return_not_mem, trail.return_not_mem]

theorem return_not_mem_broken (ls : List Line) : '\r' ∉ broken ls := by
  simp [broken, Line.return_not_mem]

def mark : Char := '\uFEFF'

theorem Line.unmarked (l : Line) (ends : s.head? ≠ some mark) : (l.text ++ s).head? ≠ some mark := by
  have solid : isLoose mark = false := by decide
  intro head
  cases l with
  | blank trail =>
      rcases head_trail trail s mark head with loose | head
      · rw [solid] at loose
        cases loose
      · exact ends head
  | header indent before name after trail =>
      simp only [Line.text, List.append_assoc, List.cons_append] at head
      exact head_gap indent solid (by simp; decide) head
  | entry indent name before after value trail =>
      rw [Line.text, List.append_assoc, List.append_assoc] at head
      exact absurd (name.head_text indent _ mark head) (by decide)

theorem unmarked_broken (ls : List Line) (ends : s.head? ≠ some mark) : (broken ls ++ s).head? ≠ some mark := by
  cases ls with
  | nil => exact ends
  | cons l ls =>
      have split : broken (l :: ls) ++ s = l.text ++ '\n' :: (broken ls ++ s) := by simp [broken]
      rw [split]
      exact l.unmarked (by simp; decide)

theorem dropMark_self (unmarked : s.head? ≠ some mark) : dropMark s = s := by
  unfold dropMark
  split
  · simp [mark] at unmarked
  · rfl

theorem read_broken (ls : List Line) {u : List Char} (returned : Returned (broken ls ++ u) w) (absent : '\r' ∉ u)
    (unmarked : (u ++ rest).head? ≠ some mark) :
    ∃ m, read (w ++ rest) =
      (runLines ls ([], [])).bind fun p => document (m + 1) p.1 p.2 (u ++ unifyLineEnds rest) := by
  have plain : (w ++ rest).head? ≠ some mark := by
    have spelled := unmarked_broken ls unmarked
    rw [← List.append_assoc, List.head?_append] at spelled
    rw [List.head?_append]
    rcases returned.head with same | carriage
    · rwa [same]
    · rw [carriage]
      simp [mark]
  have unified : unifyLineEnds (w ++ rest) = broken ls ++ (u ++ unifyLineEnds rest) := by
    rw [returned.unify (by simp [return_not_mem_broken, absent]), List.append_assoc]
  have long := length_broken ls
  obtain ⟨m, left, lines⟩ := document_lines (n := (broken ls ++ (u ++ unifyLineEnds rest)).length + 1) ls ([], [])
    (u ++ unifyLineEnds rest) (by rw [List.length_append]; omega)
  obtain ⟨k, rfl⟩ : ∃ k, m = k + 1 := ⟨m - 1, by rw [List.length_append] at left; omega⟩
  refine ⟨k, ?_⟩
  rw [Toml.read, dropMark_self plain, unified]
  exact lines

/-- Reading a document is doing what its lines say. -/
theorem read_text (ls : List Line) (returned : Returned (text ls) w) :
    read w = (runLines ls ([], [])).map Prod.snd := by
  rcases List.eq_nil_or_concat ls with rfl | ⟨ls, l, rfl⟩
  · cases returned
    rfl
  · rw [List.concat_eq_append] at returned ⊢
    rw [text_concat] at returned
    obtain ⟨m, lines⟩ : ∃ m, read (w ++ []) = _ := read_broken ls returned l.return_not_mem (l.unmarked (by simp))
    rw [List.append_nil] at lines
    rw [lines, runLines_concat, Option.map_bind]
    congr 1
    funext p
    simpa [unifyLineEnds] using l.document_last p

end SourceBundle.Toml
