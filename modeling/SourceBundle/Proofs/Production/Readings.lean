import SourceBundle.Proofs.Respacing
import SourceBundle.Swift.Production

/-!
What each production rule reads and writes, with everything that a reading says about its place. The
proofs about the rules start from these statements and do not open the patterns again.
-/

namespace SourceBundle.Swift

open Pattern Text

variable {before : Option Char} {u after v : List Char}

theorem reads_literal {s : String} :
    (literal s).Reads before u after v ↔ u = s.toList ∧ v = s.toList := .rfl

theorem reads_someBlanks :
    someBlanks.Reads before u after v ↔
      Within isBlank u ∧ u ≠ [] ∧ Stops isBlank after ∧ v = u := by
  simp [someBlanks, Reads]

theorem reads_blanks :
    blanks.Reads before u after v ↔ Within isBlank u ∧ Stops isBlank after ∧ v = u := by
  simp [blanks, Reads]

theorem reads_someGap :
    someGap.Reads before u after v ↔
      Within isInlineBlank u ∧ u ≠ [] ∧ Stops isInlineBlank after ∧ v = u := by
  simp [someGap, Reads]

theorem reads_gap :
    gap.Reads before u after v ↔ Within isInlineBlank u ∧ Stops isInlineBlank after ∧ v = u := by
  simp [gap, Reads]

theorem reads_oneSpace :
    oneSpace.Reads before u after v ↔
      Within isBlank u ∧ u ≠ [] ∧ Stops isBlank after ∧ v = [' '] := by
  simp only [oneSpace, reads_append, reads_someBlanks, Reads]
  constructor
  · rintro ⟨b, _, _, _, rfl, rfl, ⟨rfl, _, blank, nonempty, stops, rfl⟩, rfl, rfl⟩
    exact ⟨by simpa using blank, by simpa using nonempty, by simpa using stops, rfl⟩
  · rintro ⟨blank, nonempty, stops, rfl⟩
    exact ⟨u, [], [], [' '], by simp, rfl, ⟨rfl, u, blank, nonempty, by simpa using stops, rfl⟩, rfl, rfl⟩

theorem reads_separated :
    separated.Reads before u after v ↔
      Within isBlank u ∧ u ≠ [] ∧ Stops isBlank after ∧ OpensLine (lastOf before u) ∧ v = [';'] := by
  simp only [separated, reads_append, reads_someBlanks, Reads]
  constructor
  · rintro ⟨_, _, _, _, rfl, rfl, ⟨rfl, _, b, _, _, _, rfl, rfl, ⟨blank, nonempty, stops, rfl⟩,
      rfl, rfl, opens⟩, rfl, rfl⟩
    exact ⟨by simpa using blank, by simpa using nonempty, by simpa using stops, by simpa using opens, rfl⟩
  · rintro ⟨blank, nonempty, stops, opens, rfl⟩
    exact ⟨u, [], [], [';'], by simp, rfl, ⟨rfl, u, u, [], u, [], by simp, by simp,
      ⟨blank, nonempty, by simpa using stops, rfl⟩, rfl, rfl, opens⟩, rfl, rfl⟩

theorem reads_tightOperator {operators : List String} (filled : operators ≠ []) :
    (tightOperator operators).Reads before u after v ↔
      ∃ g operator h, operator ∈ operators ∧ u = g ++ operator.toList ++ h ∧ v = operator.toList ∧
        Within isBlank g ∧ g ≠ [] ∧ Stops isBlank (operator.toList ++ h ++ after) ∧
        Within isBlank h ∧ h ≠ [] ∧ Stops isBlank after := by
  simp only [tightOperator, reads_append, reads_drop, reads_someBlanks, reads_anyText filled]
  constructor
  · rintro ⟨_, h, _, _, rfl, rfl, ⟨g, _, _, _, rfl, rfl, ⟨rfl, _, blank, nonempty, stops, rfl⟩,
      operator, member, rfl, rfl⟩, rfl, _, blank', nonempty', stops', rfl⟩
    exact ⟨_, operator, _, member, rfl, by simp, blank, nonempty, by simpa using stops, blank',
      nonempty', stops'⟩
  · rintro ⟨g, operator, h, member, rfl, rfl, blank, nonempty, stops, blank', nonempty', stops'⟩
    exact ⟨g ++ operator.toList, h, operator.toList, [], rfl, by simp,
      ⟨g, operator.toList, [], operator.toList, rfl, rfl,
        ⟨rfl, g, blank, nonempty, by simpa using stops, rfl⟩, operator, member, rfl, rfl⟩,
      rfl, h, blank', nonempty', stops', rfl⟩

def statementKeywords : List String := ["defer", "switch", "return", "case"]

def spacedKeywords : List String := ["switch", "case", "inout"]

def attributeLine : Pattern := separated ++ attributeUse ++ oneSpace

def attributeSpace : Pattern := attributeUse ++ oneSpace

def blanksAfter (mark : String) : Pattern := literal mark ++ drop someBlanks

def closeBrace : Pattern := drop someBlanks ++ literal "\x7d"

def guardBare : Pattern := guardReturn ++ drop blanks ++ literal "\x7d"

def guardResult : Pattern := guardReturn ++ result

def keywordLine : Pattern :=
  separated ++ anyText statementKeywords ++ wordEdge

def defaultLine : Pattern := separated ++ literal "default" ++ blanks ++ literal ":"

def deferBlock : Pattern := wordEdge ++ literal "defer" ++ drop blanks ++ literal "\x7b"

def returnSpace : Pattern := wordEdge ++ literal "return" ++ drop someGap ++ write [' ']

def keywordSpace : Pattern := wordEdge ++ anyText spacedKeywords ++ oneSpace

def colonSpace : Pattern := drop blanks ++ literal ":" ++ drop blanks

def separatorAfter (mark : String) : Pattern := literal mark ++ drop (literal ";")

def separatorAfterIn : Pattern := wordEdge ++ literal "in" ++ drop (literal ";") ++ write [' ']

def endsAttribute (c : Char) : Bool := isWord c || c == ')'

structure Attribute (a : List Char) : Prop where
  starts : ∃ s, a = '@' :: s
  ends : ∃ s c, a = s ++ [c] ∧ endsAttribute c = true

theorem reads_argument (reads : argument.Reads before u after v) :
    v = u ∧ ∃ s, u = s ++ [')'] := by
  simp only [argument, reads_append, reads_literal, Reads] at reads
  obtain ⟨_, _, _, _, rfl, rfl, ⟨_, _, _, _, rfl, rfl, ⟨rfl, rfl⟩, -, -, -, rfl⟩, rfl, rfl⟩ := reads
  exact ⟨rfl, _, rfl⟩

theorem reads_attributeUse (reads : attributeUse.Reads before u after v) :
    v = u ∧ Attribute u := by
  have plain : ∀ (s : String) {at' : Option Char} {name after written : List Char},
      (∃ c ∈ s.toList.getLast?, endsAttribute c = true) →
      (literal s).Reads at' name after written →
      written = name ∧ ∃ w c, name = w ++ [c] ∧ endsAttribute c = true := by
    rintro s at' _ after _ ⟨c, last, ends⟩ ⟨rfl, rfl⟩
    obtain ⟨w, split⟩ := List.getLast?_eq_some_iff.1 last
    exact ⟨rfl, w, c, split, ends⟩
  have called : ∀ (s : String) {at' : Option Char} {name after written : List Char},
      (literal s ++ argument).Reads at' name after written →
      written = name ∧ ∃ w c, name = w ++ [c] ∧ endsAttribute c = true := by
    intro s at' name after written reads
    obtain ⟨_, _, _, _, rfl, rfl, ⟨rfl, rfl⟩, inner⟩ := (reads_append _ _ _ _ _ _).1 reads
    obtain ⟨rfl, w, rfl⟩ := reads_argument inner
    exact ⟨rfl, s.toList ++ w, ')', by simp, by decide⟩
  obtain ⟨_, name, _, written, rfl, rfl, ⟨rfl, rfl⟩, named⟩ := (reads_append _ _ _ _ _ _).1 reads
  obtain ⟨p, member, chosen⟩ := (reads_anyOf (by simp)).1 named
  have kept : written = name ∧ ∃ w c, name = w ++ [c] ∧ endsAttribute c = true := by
    simp only [List.mem_cons, List.not_mem_nil, or_false] at member
    rcases member with rfl | rfl | rfl | rfl | rfl | rfl | rfl | rfl | rfl | rfl | rfl | rfl | rfl |
      rfl | rfl | rfl | rfl | rfl | rfl | rfl | rfl | rfl | rfl | rfl | rfl | rfl
    all_goals first
      | exact called _ chosen
      | exact plain _ (by decide) chosen
  obtain ⟨rfl, w, c, rfl, ends⟩ := kept
  exact ⟨rfl, ⟨_, rfl⟩, '@' :: w, c, rfl, ends⟩

def Apart (before : Option Char) : Prop := ∀ c ∈ before, isWord c = false

theorem wordEdge_before {w : List Char} (nonempty : w ≠ []) (word : Within isWord w) :
    WordEdge before (w ++ after) ↔ Apart before := by
  obtain ⟨c, w, rfl⟩ := List.exists_cons_of_ne_nil nonempty
  rw [within_cons] at word
  cases before <;> simp [WordEdge, Apart, word.1]

theorem wordEdge_after {w : List Char} (nonempty : w ≠ []) (word : Within isWord w) :
    WordEdge (lastOf before w) after ↔ Stops isWord after := by
  obtain ⟨w, c, rfl⟩ := List.eq_nil_or_concat w |>.resolve_left nonempty
  simp only [List.concat_eq_append, within_append, within_cons] at word
  cases after <;> simp [WordEdge, word.2.1]

theorem stops_isBlank_word {w : List Char} (nonempty : w ≠ []) (word : Within isWord w) :
    Stops isBlank (w ++ after) := by
  obtain ⟨c, w, rfl⟩ := List.exists_cons_of_ne_nil nonempty
  rw [within_cons] at word
  rw [List.cons_append, stops_cons]
  by_contra blank
  have := isWord_of_isBlank (by simpa using blank : isBlank c = true)
  simp_all

theorem keyword_word : ∀ word ∈ statementKeywords ++ spacedKeywords ++ ["default", "in"],
    word.toList ≠ [] ∧ Within isWord word.toList := by decide

theorem statementKeyword_word {word : String} (member : word ∈ statementKeywords) :
    word.toList ≠ [] ∧ Within isWord word.toList :=
  keyword_word word (by simp [member])

theorem spacedKeyword_word {word : String} (member : word ∈ spacedKeywords) :
    word.toList ≠ [] ∧ Within isWord word.toList :=
  keyword_word word (by simp [member])

theorem reads_blanksAfter {mark : String} :
    (blanksAfter mark).Reads before u after v ↔
      ∃ g, u = mark.toList ++ g ∧ v = mark.toList ∧ Within isBlank g ∧ g ≠ [] ∧ Stops isBlank after := by
  simp only [blanksAfter, reads_append, reads_literal, reads_drop, reads_someBlanks]
  constructor
  · rintro ⟨_, _, _, _, rfl, rfl, ⟨rfl, rfl⟩, rfl, _, blank, nonempty, stops, rfl⟩
    exact ⟨_, rfl, by simp, blank, nonempty, stops⟩
  · rintro ⟨g, rfl, rfl, blank, nonempty, stops⟩
    exact ⟨mark.toList, g, mark.toList, [], rfl, by simp, ⟨rfl, rfl⟩, rfl, g, blank, nonempty, stops, rfl⟩

theorem reads_closeBrace :
    closeBrace.Reads before u after v ↔
      ∃ g, u = g ++ ['\x7d'] ∧ v = ['\x7d'] ∧ Within isBlank g ∧ g ≠ [] := by
  simp only [closeBrace, reads_append, reads_literal, reads_drop, reads_someBlanks]
  constructor
  · rintro ⟨_, _, _, _, rfl, rfl, ⟨rfl, _, blank, nonempty, -, rfl⟩, rfl, rfl⟩
    exact ⟨_, rfl, rfl, blank, nonempty⟩
  · rintro ⟨g, rfl, rfl, blank, nonempty⟩
    exact ⟨g, ['\x7d'], [], ['\x7d'], rfl, rfl,
      ⟨rfl, g, blank, nonempty, (stops_cons _ _ _).2 (by decide), rfl⟩, rfl, rfl⟩

theorem reads_keywordLine :
    keywordLine.Reads before u after v ↔
      ∃ g, ∃ word ∈ statementKeywords, u = g ++ word.toList ∧
        v = ';' :: word.toList ∧ Within isBlank g ∧ g ≠ [] ∧ OpensLine (lastOf before g) ∧
        Stops isWord after := by
  have filled : statementKeywords ≠ [] := by decide
  simp only [keywordLine, reads_append, reads_anyText filled, reads_separated, Reads]
  constructor
  · rintro ⟨_, _, _, _, rfl, rfl, ⟨g, _, _, _, rfl, rfl, ⟨blank, nonempty, -, opens, rfl⟩, word,
      member, rfl, rfl⟩, rfl, rfl, edge⟩
    obtain ⟨filled, letters⟩ := statementKeyword_word member
    exact ⟨g, word, member, by simp, by simp, blank, nonempty, opens,
      (wordEdge_after filled letters).1 (by simpa using edge)⟩
  · rintro ⟨g, word, member, rfl, rfl, blank, nonempty, opens, stops⟩
    obtain ⟨filled, letters⟩ := statementKeyword_word member
    exact ⟨g ++ word.toList, [], ';' :: word.toList, [], by simp, by simp,
      ⟨g, word.toList, [';'], word.toList, rfl, rfl,
        ⟨blank, nonempty, by simpa using stops_isBlank_word filled letters, opens, rfl⟩, word, member,
        rfl, rfl⟩, rfl, rfl, by simpa using (wordEdge_after filled letters).2 stops⟩

theorem reads_defaultLine :
    defaultLine.Reads before u after v ↔
      ∃ g h, u = g ++ "default".toList ++ h ++ [':'] ∧ v = ';' :: ("default".toList ++ h ++ [':']) ∧
        Within isBlank g ∧ g ≠ [] ∧ OpensLine (lastOf before g) ∧ Within isBlank h := by
  simp only [defaultLine, reads_append, reads_literal, reads_separated, reads_blanks]
  obtain ⟨filled, letters⟩ := keyword_word "default" (by decide)
  constructor
  · rintro ⟨_, _, _, _, rfl, rfl, ⟨_, h, _, _, rfl, rfl, ⟨g, _, _, _, rfl, rfl,
      ⟨blank, nonempty, -, opens, rfl⟩, rfl, rfl⟩, blank', -, rfl⟩, rfl, rfl⟩
    exact ⟨g, _, rfl, rfl, blank, nonempty, opens, blank'⟩
  · rintro ⟨g, h, rfl, rfl, blank, nonempty, opens, blank'⟩
    refine ⟨g ++ "default".toList ++ h, [':'], ';' :: ("default".toList ++ h), [':'], rfl, rfl,
      ⟨g ++ "default".toList, h, ';' :: "default".toList, h, rfl, rfl, ⟨g, "default".toList, [';'],
        "default".toList, rfl, rfl, ⟨blank, nonempty, ?_, opens, rfl⟩, rfl, rfl⟩, blank', ?_, rfl⟩,
      rfl, rfl⟩
    · exact stops_isBlank_word filled letters
    · exact (stops_cons _ _ _).2 (by decide)

theorem reads_deferBlock :
    deferBlock.Reads before u after v ↔
      ∃ g, u = "defer".toList ++ g ++ ['\x7b'] ∧ v = "defer\x7b".toList ∧ Within isBlank g ∧
        Apart before := by
  simp only [deferBlock, reads_append, reads_literal, reads_blanks, Reads]
  obtain ⟨filled, letters⟩ := keyword_word "defer" (by decide)
  constructor
  · rintro ⟨_, _, _, _, rfl, rfl, ⟨_, g, _, _, rfl, rfl, ⟨_, _, _, _, rfl, rfl, ⟨rfl, rfl, edge⟩,
      rfl, rfl⟩, rfl, _, blank, -, rfl⟩, rfl, rfl⟩
    exact ⟨_, rfl, rfl, blank, (wordEdge_before filled letters).1 (by simpa using edge)⟩
  · rintro ⟨g, rfl, rfl, blank, apart⟩
    refine ⟨"defer".toList ++ g, ['\x7b'], "defer".toList, ['\x7b'], rfl, rfl, ⟨"defer".toList, g,
      "defer".toList, [], rfl, rfl, ⟨[], "defer".toList, [], "defer".toList, rfl, rfl,
        ⟨rfl, rfl, ?_⟩, rfl, rfl⟩, rfl, g, blank, ?_, rfl⟩, rfl, rfl⟩
    · exact (wordEdge_before filled letters).2 apart
    · exact (stops_cons _ _ _).2 (by decide)

theorem reads_returnSpace :
    returnSpace.Reads before u after v ↔
      ∃ g, u = "return".toList ++ g ∧ v = "return ".toList ∧ Within isInlineBlank g ∧ g ≠ [] ∧
        Stops isInlineBlank after ∧ Apart before := by
  simp only [returnSpace, reads_append, reads_literal, reads_someGap, Reads]
  obtain ⟨filled, letters⟩ := keyword_word "return" (by decide)
  constructor
  · rintro ⟨_, _, _, _, rfl, rfl, ⟨_, g, _, _, rfl, rfl, ⟨_, _, _, _, rfl, rfl, ⟨rfl, rfl, edge⟩,
      rfl, rfl⟩, rfl, _, blank, nonempty, stops, rfl⟩, rfl, rfl⟩
    exact ⟨_, by simp, rfl, blank, nonempty, stops,
      (wordEdge_before filled letters).1 (by simpa using edge)⟩
  · rintro ⟨g, rfl, rfl, blank, nonempty, stops, apart⟩
    exact ⟨"return".toList ++ g, [], "return".toList, [' '], by simp, rfl, ⟨"return".toList, g,
      "return".toList, [], rfl, rfl, ⟨[], "return".toList, [], "return".toList, rfl, rfl,
        ⟨rfl, rfl, (wordEdge_before filled letters).2 apart⟩, rfl, rfl⟩, rfl, g, blank, nonempty,
      stops, rfl⟩, rfl, rfl⟩

theorem reads_keywordSpace :
    keywordSpace.Reads before u after v ↔
      ∃ g, ∃ word ∈ spacedKeywords, u = word.toList ++ g ∧ v = word.toList ++ [' '] ∧
        Within isBlank g ∧ g ≠ [] ∧ Stops isBlank after ∧ Apart before := by
  have some' : spacedKeywords ≠ [] := by decide
  simp only [keywordSpace, reads_append, reads_anyText some', reads_oneSpace, Reads]
  constructor
  · rintro ⟨_, g, _, _, rfl, rfl, ⟨_, _, _, _, rfl, rfl, ⟨rfl, rfl, edge⟩, word, member, rfl, rfl⟩,
      blank, nonempty, stops, rfl⟩
    obtain ⟨filled, letters⟩ := spacedKeyword_word member
    exact ⟨g, word, member, rfl, rfl, blank, nonempty, stops,
      (wordEdge_before filled letters).1 (by simpa using edge)⟩
  · rintro ⟨g, word, member, rfl, rfl, blank, nonempty, stops, apart⟩
    obtain ⟨filled, letters⟩ := spacedKeyword_word member
    exact ⟨word.toList, g, word.toList, [' '], rfl, rfl, ⟨[], word.toList, [], word.toList, rfl, rfl,
      ⟨rfl, rfl, (wordEdge_before filled letters).2 apart⟩, word, member, rfl, rfl⟩, blank, nonempty,
      stops, rfl⟩

theorem reads_colonSpace :
    colonSpace.Reads before u after v ↔
      ∃ g h, u = g ++ ':' :: h ∧ v = [':'] ∧ Within isBlank g ∧ Within isBlank h ∧
        Stops isBlank after := by
  simp only [colonSpace, reads_append, reads_literal, reads_drop, reads_blanks]
  constructor
  · rintro ⟨_, h, _, _, rfl, rfl, ⟨g, _, _, _, rfl, rfl, ⟨rfl, _, blank, -, rfl⟩, rfl, rfl⟩, rfl, _,
      blank', stops, rfl⟩
    exact ⟨_, _, by simp, rfl, blank, blank', stops⟩
  · rintro ⟨g, h, rfl, rfl, blank, blank', stops⟩
    exact ⟨g ++ [':'], h, [':'], [], by simp, rfl, ⟨g, [':'], [], [':'], rfl, rfl,
      ⟨rfl, g, blank, (stops_cons _ _ _).2 (by decide), rfl⟩, rfl,
      rfl⟩, rfl, h, blank', stops, rfl⟩

theorem reads_separatorAfter {mark : String} :
    (separatorAfter mark).Reads before u after v ↔ u = mark.toList ++ [';'] ∧ v = mark.toList := by
  simp only [separatorAfter, reads_append, reads_literal, reads_drop]
  constructor
  · rintro ⟨_, _, _, _, rfl, rfl, ⟨rfl, rfl⟩, rfl, _, rfl, rfl⟩
    exact ⟨rfl, by simp⟩
  · rintro ⟨rfl, rfl⟩
    exact ⟨mark.toList, [';'], mark.toList, [], rfl, by simp, ⟨rfl, rfl⟩, rfl, _, rfl, rfl⟩

theorem reads_separatorAfterIn :
    separatorAfterIn.Reads before u after v ↔
      u = "in;".toList ∧ v = "in ".toList ∧ Apart before := by
  simp only [separatorAfterIn, reads_append, reads_literal, Reads]
  obtain ⟨filled, letters⟩ := keyword_word "in" (by decide)
  constructor
  · rintro ⟨_, _, _, _, rfl, rfl, ⟨_, _, _, _, rfl, rfl, ⟨_, _, _, _, rfl, rfl, ⟨rfl, rfl, edge⟩,
      rfl, rfl⟩, rfl, _, rfl, rfl⟩, rfl, rfl⟩
    exact ⟨rfl, rfl, (wordEdge_before filled letters).1 (by simpa using edge)⟩
  · rintro ⟨rfl, rfl, apart⟩
    exact ⟨"in;".toList, [], "in".toList, [' '], rfl, rfl, ⟨"in".toList, [';'], "in".toList, [], rfl,
      rfl, ⟨[], "in".toList, [], "in".toList, rfl, rfl,
        ⟨rfl, rfl, (wordEdge_before filled letters).2 apart⟩, rfl, rfl⟩, rfl, _, rfl, rfl⟩, rfl, rfl⟩

/-- What stands between `guard` and `else`, and what is written for it. -/
inductive Condition : List Char → List Char → Prop
  | text {g x h : List Char} {e : Char} (blank : Within isBlank g) (nonempty : g ≠ [])
      (inside : Within isInCondition (x ++ [e])) (solid : isBlank e = false)
      (blank' : Within isBlank h) (nonempty' : h ≠ []) :
      Condition (g ++ (x ++ [e]) ++ h) (' ' :: (x ++ [e]) ++ [' '])
  | blank {g h : List Char} {i : Char} (blank : Within isBlank g) (nonempty : g ≠ [])
      (inline : isInlineBlank i = true) (blank' : Within isBlank h) (nonempty' : h ≠ []) :
      Condition (g ++ i :: h) [' ', i, ' ']

/-- What stands between `return` and the end of its block, and what is written for it. -/
inductive Outcome : List Char → List Char → Prop
  | text {g x h : List Char} (blank : Within isBlank g) (nonempty : g ≠ [])
      (inside : Within isInResult x) (filled : x ≠ []) (blank' : Within isBlank h) :
      Outcome (g ++ x ++ h) (' ' :: x)
  | blank {g h : List Char} {i : Char} (blank : Within isBlank g) (nonempty : g ≠ [])
      (inline : isInlineBlank i = true) (blank' : Within isBlank h) : Outcome (g ++ i :: h) [' ', i]

theorem reads_spaceBeforeBlank (reads : spaceBeforeBlank.Reads before u after v) :
    ∃ g i, u = g ++ [i] ∧ Within isBlank g ∧ g ≠ [] ∧ isInlineBlank i = true ∧ v = [' ', i] := by
  simp only [spaceBeforeBlank, reads_append, Reads] at reads
  obtain ⟨_, _, _, _, rfl, rfl, ⟨_, _, _, _, rfl, rfl, ⟨rfl, _, _, _, _, _, rfl, rfl,
    ⟨b, blank, rfl, rfl⟩, blanks, rfl⟩, rfl, rfl⟩, i, inline, rfl, rfl⟩ := reads
  exact ⟨_, i, rfl, by simp [blank, blanks], by simp, inline, by simp⟩

theorem getLast_solid {c : Char} {w : List Char} (first : isBlank c = false)
    (last : ∀ e ∈ w.getLast?, isBlank e = false) :
    ∃ x e, c :: w = x ++ [e] ∧ isBlank e = false := by
  rcases List.eq_nil_or_concat w with rfl | ⟨x, e, rfl⟩
  · exact ⟨[], c, rfl, first⟩
  · exact ⟨c :: x, e, by simp, last e (by simp)⟩

theorem reads_guardCondition (reads : guardCondition.Reads before u after v) : Condition u v := by
  rcases reads with reads | reads
  · simp only [reads_append, reads_oneSpace, Reads] at reads
    obtain ⟨_, h, _, _, rfl, rfl, ⟨_, w, _, _, rfl, rfl, ⟨g, _, _, _, rfl, rfl,
      ⟨blank, nonempty, stops, rfl⟩, c, first, rfl, rfl⟩, inside, -, last, rfl⟩, blank', nonempty', -,
      rfl⟩ := reads
    obtain ⟨x, e, split, solid⟩ := getLast_solid (by simpa using stops) last
    have within : Within isInCondition (x ++ [e]) := by
      rw [← split]
      simp [first, inside]
    have here := Condition.text blank nonempty within solid blank' nonempty'
    rw [← split] at here
    simpa using here
  · simp only [reads_append, Reads] at reads
    obtain ⟨_, _, _, _, rfl, rfl, ⟨a, b, _, _, rfl, rfl, before', rfl, _, dropped⟩, rfl, rfl⟩ := reads
    obtain ⟨g, i, rfl, blank, nonempty, inline, rfl⟩ := reads_spaceBeforeBlank before'
    have lineBreaks : ∀ n : List Char, Within (· == '\n') n → Within isBlank n := by
      intro n lines
      refine lines.mono fun c same => ?_
      rw [beq_iff_eq] at same
      subst same
      decide
    have rest : Within isBlank b ∧ b ≠ [] := by
      simp only [newlines, newline, Reads] at dropped
      rcases dropped with ⟨_, _, _, _, rfl, rfl, ⟨lines, -, -, rfl⟩, j, inline', rfl, rfl⟩ |
        ⟨_, _, _, _, rfl, rfl, ⟨rfl, rfl⟩, lines, -, -, rfl⟩
      · exact ⟨by simp [lineBreaks _ lines, isBlank_of_isInlineBlank inline'], by simp⟩
      · exact ⟨by simpa using ⟨by decide, lineBreaks _ lines⟩, by simp⟩
    simpa using Condition.blank blank nonempty inline rest.1 rest.2

theorem reads_result (reads : result.Reads before u after v) :
    ∃ w z, u = w ++ ['\x7d'] ∧ v = z ++ ['\x7d'] ∧ Outcome w z := by
  rcases reads with reads | reads
  · simp only [reads_append, reads_oneSpace, reads_literal, reads_blanks, Reads] at reads
    obtain ⟨_, _, _, _, rfl, rfl, ⟨_, h, _, _, rfl, rfl, ⟨_, _, _, w, rfl, rfl, ⟨g, _, _, _, rfl, rfl,
      ⟨blank, nonempty, -, rfl⟩, c, first, rfl, rfl⟩, inside, -, -, rfl⟩, rfl, _, blank', -, rfl⟩, rfl,
      rfl⟩ := reads
    have within : Within isInResult (c :: w) := by simp [first, inside]
    exact ⟨_, _, rfl, rfl, by simpa using Outcome.text blank nonempty within (by simp) blank'⟩
  · simp only [reads_append, reads_literal, Reads] at reads
    obtain ⟨_, _, _, _, rfl, rfl, ⟨a, _, _, _, rfl, rfl, before', rfl, n, lines, -, -, rfl⟩, rfl, rfl⟩ :=
      reads
    obtain ⟨g, i, rfl, blank, nonempty, inline, rfl⟩ := reads_spaceBeforeBlank before'
    have blank' : Within isBlank n := by
      refine Within.mono lines fun c same => ?_
      rw [beq_iff_eq] at same
      subst same
      decide
    exact ⟨_, _, rfl, rfl, by simpa using Outcome.blank blank nonempty inline blank'⟩

theorem reads_guardReturn (reads : guardReturn.Reads before u after v) :
    ∃ c d p q, u = "guard".toList ++ c ++ "else".toList ++ p ++ ['\x7b'] ++ q ++ "return".toList ∧
      v = "guard".toList ++ d ++ "else\x7breturn".toList ∧ Condition c d ∧ Within isBlank p ∧
      Within isBlank q := by
  simp only [guardReturn, reads_append, reads_literal, reads_drop, reads_blanks] at reads
  obtain ⟨_, _, _, _, rfl, rfl, ⟨_, q, _, _, rfl, rfl, ⟨_, _, _, _, rfl, rfl, ⟨_, p, _, _, rfl, rfl,
    ⟨_, _, _, _, rfl, rfl, ⟨_, c, _, d, rfl, rfl, ⟨rfl, rfl⟩, condition⟩, rfl, rfl⟩, rfl, _, blank, -,
    rfl⟩, rfl, rfl⟩, rfl, _, blank', -, rfl⟩, rfl, rfl⟩ := reads
  exact ⟨c, d, _, _, rfl, by simp, reads_guardCondition condition, blank, blank'⟩

theorem reads_guardBare (reads : guardBare.Reads before u after v) :
    ∃ w z g, u = w ++ g ++ ['\x7d'] ∧ v = z ++ ['\x7d'] ∧ Within isBlank g ∧
      guardReturn.Reads before w (g ++ ['\x7d'] ++ after) z := by
  simp only [guardBare, reads_append, reads_literal, reads_drop, reads_blanks] at reads
  obtain ⟨_, _, _, _, rfl, rfl, ⟨w, g, z, _, rfl, rfl, head, rfl, _, blank, -, rfl⟩, rfl, rfl⟩ := reads
  exact ⟨w, z, _, rfl, by simp, blank, by simpa using head⟩

theorem reads_guardResult (reads : guardResult.Reads before u after v) :
    ∃ w z g h, u = w ++ g ++ ['\x7d'] ∧ v = z ++ h ++ ['\x7d'] ∧ Outcome g h ∧
      guardReturn.Reads before w (g ++ ['\x7d'] ++ after) z := by
  obtain ⟨w, _, z, _, rfl, rfl, head, tail⟩ := (reads_append _ _ _ _ _ _).1 reads
  obtain ⟨g, h, rfl, rfl, outcome⟩ := reads_result tail
  exact ⟨w, z, g, h, by simp, by simp, outcome, by simpa using head⟩

end SourceBundle.Swift
