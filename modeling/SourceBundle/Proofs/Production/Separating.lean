import SourceBundle.Proofs.Production.StatementPlaces

/-!
The rules that write a semicolon in front of a statement on a line of its own, and those that take one back: what they
make of a place between two such lines.
-/

namespace SourceBundle.Swift

open Pattern Text

variable {m : Pattern} {P Q : List Char → Prop} {before : Option Char}
  {g h k p s u v w x y z after out : List Char}

theorem ink_reads (marks : List String) (ends : Char → Bool) (respaces : m.Respaces marks ends)
    (reads : m.Reads before u after v) : ink v = ink u := by
  have same : ink (v ++ after) = ink (u ++ after) := (respaces _ _ _ _ reads).congr fun x g h y change => by
    simp [ink_eq_nil.2 change.spacing, ink_eq_nil.2 change.spacing']
  simpa using same

theorem BrokenGap.ends (broken : BrokenGap k) (flush : FlushLeft none (x ++ (k ++ y))) : ∃ g, k = g ++ ['\n'] := by
  obtain ⟨blank, member⟩ := broken
  obtain ⟨g, b, rfl⟩ := List.append_of_mem member
  cases b with
  | nil => exact ⟨g, rfl⟩
  | cons c b =>
      have stops := flush (x ++ (g ++ ['\n'])) (c :: (b ++ y)) (by simp) (by simp)
      simp [blank c (by simp)] at stops

def inStatementRule (c : Char) : Bool := isWord c || isSpacing c || c == ':' || c == '\x7b'

def StartsApart (w : List Char) : Prop := ∃ c ∈ w.head?, inStatementRule c = false

instance (w : List Char) : Decidable (StartsApart w) := inferInstanceAs (Decidable (∃ c ∈ w.head?, _))

theorem not_startsApart_in : ¬ StartsApart "in".toList := by decide

theorem StartsApart.append (starts : StartsApart w) (u : List Char) : StartsApart (w ++ u) := by
  obtain ⟨c, first, apart⟩ := starts
  obtain ⟨w, rfl⟩ := List.head?_eq_some_iff.1 first
  exact ⟨c, by simp, apart⟩

theorem inStatementRule_word (word : Within isWord u) : Within inStatementRule u :=
  word.mono fun c letter => by simp [inStatementRule, letter]

theorem inStatementRule_blank (blank : Within isBlank u) : Within inStatementRule u :=
  blank.mono fun c blank => by simp [inStatementRule, isSpacing_of_isBlank blank]

theorem keywordLine_inRule (before : Option Char) (u after v : List Char) (reads : keywordLine.Reads before u after v) :
    Within inStatementRule u := by
  obtain ⟨g, word, member, rfl, -, blank, -⟩ := reads_keywordLine.1 reads
  rw [within_append]
  exact ⟨inStatementRule_blank blank, inStatementRule_word (statementKeyword_word member).2⟩

theorem defaultLine_inRule (before : Option Char) (u after v : List Char) (reads : defaultLine.Reads before u after v) :
    Within inStatementRule u := by
  obtain ⟨g, h, rfl, -, blank, -, -, blank'⟩ := reads_defaultLine.1 reads
  simp only [within_append, within_cons, within_nil, and_true]
  exact ⟨⟨⟨inStatementRule_blank blank, by decide⟩, inStatementRule_blank blank'⟩, by decide⟩

theorem keywordLine_blank (before : Option Char) (u after v : List Char) (reads : keywordLine.Reads before u after v) :
    ∀ c ∈ u.head?, isBlank c = true := by
  obtain ⟨g, word, -, rfl, -, blank, nonempty, -⟩ := reads_keywordLine.1 reads
  obtain ⟨d, g, rfl⟩ := List.exists_cons_of_ne_nil nonempty
  simpa using blank d (by simp)

theorem defaultLine_blank (before : Option Char) (u after v : List Char) (reads : defaultLine.Reads before u after v) :
    ∀ c ∈ u.head?, isBlank c = true := by
  obtain ⟨g, h, rfl, -, blank, nonempty, -⟩ := reads_defaultLine.1 reads
  obtain ⟨d, g, rfl⟩ := List.exists_cons_of_ne_nil nonempty
  simpa using blank d (by simp)

theorem attributeLine_blank (before : Option Char) (u after v : List Char)
    (reads : attributeLine.Reads before u after v) : ∀ c ∈ u.head?, isBlank c = true := by
  obtain ⟨_, _, _, _, rfl, -, lower, -⟩ := (reads_append _ _ _ _ _ _).1 reads
  obtain ⟨g, _, _, _, rfl, -, separator, -⟩ := (reads_append _ _ _ _ _ _).1 lower
  obtain ⟨blank, nonempty, -⟩ := reads_separated.1 separator
  obtain ⟨d, g, rfl⟩ := List.exists_cons_of_ne_nil nonempty
  simpa using blank d (by simp)

theorem separatorAfter_inRule {mark : String} (known : Within inStatementRule mark.toList) (before : Option Char)
    (u after v : List Char) (reads : (separatorAfter mark).Reads before u after v) : Within inStatementRule u := by
  obtain ⟨rfl, -⟩ := reads_separatorAfter.1 reads
  rw [within_append]
  exact ⟨known, by decide⟩

theorem separatorAfterIn_inRule (before : Option Char) (u after v : List Char)
    (reads : separatorAfterIn.Reads before u after v) : Within inStatementRule u := by
  obtain ⟨rfl, -⟩ := reads_separatorAfterIn.1 reads
  decide

def LeadsAttribute (y : List Char) : Prop :=
  ∃ a r, y = a ++ r ∧ attributeUse.Reads (some '\n') a r a ∧ ∃ c ∈ r.head?, isBlank c = true

theorem split_between_gaps {c : Char} (blank : Within isBlank g) (blank' : Within isBlank h) (solid : isBlank c = false)
    (same : u ++ c :: v = g ++ (w ++ h)) : ∃ p q, w = p ++ c :: q ∧ v = q ++ h := by
  have inside : ∀ {b : List Char}, Within isBlank b → c ∉ b := fun gap member => by simp [gap c member] at solid
  obtain ⟨t, rest⟩ : ∃ t, w ++ h = t ++ c :: v := by
    rcases List.append_eq_append_iff.1 same with ⟨t, rfl, rest⟩ | ⟨t, rfl, rest⟩
    · cases t with
      | nil => exact ⟨[], rest.symm⟩
      | cons d t =>
          obtain ⟨rfl, -⟩ := List.cons.inj rest
          exact absurd (by simp) (inside blank)
    · exact ⟨t, rest⟩
  rcases List.append_eq_append_iff.1 rest with ⟨m, rfl, rfl⟩ | ⟨m, rfl, tail⟩
  · exact absurd (by simp) (inside blank')
  · cases m with
    | nil => exact absurd (by simp [← show c :: v = h from tail]) (inside blank')
    | cons d m =>
        obtain ⟨rfl, rfl⟩ := List.cons.inj tail
        exact ⟨t, m, rfl, rfl⟩

theorem attributeEnd_apart {e : Char} (inked : Within isInk w) (other : ∃ c ∈ w.getLast?, endsAttribute c = false)
    (broken : BrokenGap k) (unbroken : '\n' ∉ u) (ends : endsAttribute e = true) (blank : Within isBlank h)
    (filled : h ≠ []) : u ++ e :: (h ++ after) ≠ w ++ (k ++ y) := by
  intro same
  have solid : isBlank e = false := by simpa [isSolid] using isSolid_of_endsAttribute ends
  rcases List.append_eq_append_iff.1 same with ⟨m, rfl, ahead⟩ | ⟨m, rfl, ahead⟩
  · cases m with
    | nil =>
        obtain ⟨d, k, rfl⟩ := List.exists_cons_of_ne_nil (List.ne_nil_of_mem broken.2)
        obtain ⟨rfl, -⟩ := List.cons.inj ahead
        simp [broken.1 e (by simp)] at solid
    | cons d m =>
        obtain ⟨rfl, behind⟩ := List.cons.inj ahead
        cases m with
        | nil =>
            obtain ⟨d, last, unlike⟩ := other
            obtain rfl : e = d := by simpa using last
            simp [ends] at unlike
        | cons d m =>
            obtain ⟨b, h, rfl⟩ := List.exists_cons_of_ne_nil filled
            obtain ⟨rfl, -⟩ := List.cons.inj behind
            have apart := isBlank_of_isInk (inked b (by simp))
            simp [apart] at blank
  · rcases List.append_eq_append_iff.1 ahead with ⟨n, rfl, -⟩ | ⟨n, rfl, onward⟩
    · exact unbroken (by simp [broken.2])
    · cases n with
      | nil => exact unbroken (by simpa using Or.inr broken.2)
      | cons d n =>
          obtain ⟨rfl, -⟩ := List.cons.inj onward
          simp [broken.1 e (by simp)] at solid

theorem attributeLine_apart (inked : Within isInk w) (filled : w ≠ []) (other : ∃ c ∈ w.getLast?, endsAttribute c = false)
    (broken : BrokenGap k) (before : Option Char) (u r after v : List Char)
    (reads : attributeLine.Reads before (u ++ r) after v) (nonempty : r ≠ []) : r ++ after ≠ w ++ (k ++ y) := by
  intro same
  obtain ⟨_, h, _, _, whole, -, lower, space⟩ := (reads_append _ _ _ _ _ _).1 reads
  obtain ⟨g, a, _, _, rfl, -, separator, use⟩ := (reads_append _ _ _ _ _ _).1 lower
  obtain ⟨blank, -⟩ := reads_separated.1 separator
  obtain ⟨blank', filled', -⟩ := reads_oneSpace.1 space
  obtain ⟨inline, -⟩ := attributeUse_spelling use
  obtain ⟨-, -, s, e, spelled, ends⟩ := reads_attributeUse use
  -- The line starts with no blank, so what is read of it starts inside the attribute.
  obtain ⟨c, r, rfl⟩ := List.exists_cons_of_ne_nil nonempty
  have start : c ∈ w := by
    obtain ⟨d, w, rfl⟩ := List.exists_cons_of_ne_nil filled
    obtain ⟨rfl, -⟩ := List.cons.inj same
    simp
  obtain ⟨p, q, rfl, rfl⟩ :=
    split_between_gaps blank blank' (isBlank_of_isInk (inked c start)) (w := a) (by simpa using whole)
  obtain ⟨t, tail⟩ : ∃ t, c :: q = t ++ [e] := by
    have last : (p ++ c :: q).getLast? = some e := by simp [spelled]
    rw [List.getLast?_append_of_ne_nil _ (by simp)] at last
    exact List.getLast?_eq_some_iff.1 last
  have unbroken : '\n' ∉ t := fun member => by
    have inside : '\n' ∈ c :: q := by simp [tail, member]
    exact absurd (inline '\n' (List.mem_append_right _ inside)) (by decide)
  have rest : t ++ (e :: (h ++ after)) = w ++ (k ++ y) := calc
    t ++ (e :: (h ++ after)) = (t ++ [e]) ++ (h ++ after) := by simp
    _ = c :: q ++ (h ++ after) := by rw [tail]
    _ = w ++ (k ++ y) := by simpa using same
  exact attributeEnd_apart inked other broken unbroken ends blank' filled' rest

section place

variable (inked : Within isInk w)
include inked

theorem stands_attributeLine (other : ∃ c ∈ w.getLast?, endsAttribute c = false) (flush : FlushLeft none s)
    (here : Stands w ['@'] BrokenGap (fun y => LeadsAttribute ('@' :: y)) p s) :
    Stands w ['@'] (· = [';']) (fun _ => True) p (attributeLine.rewrite s) := by
  obtain ⟨x, k, y, rfl, rfl, broken, a, r, split, use, c, first, blank⟩ := here
  have filled : w ≠ [] := by
    rintro rfl
    obtain ⟨c, last, -⟩ := other
    simp at last
  have filled' : k ≠ [] := List.ne_nil_of_mem broken.2
  obtain ⟨b, rfl⟩ := broken.ends (x := x ++ w) (y := '@' :: y) (by simpa using flush)
  have writes : ∀ o u after v, b ++ ['\n'] ++ (['@'] ++ y) = u ++ after → attributeLine.Reads o u after v →
      ∃ v', v = ';' :: (['@'] ++ v') := by
    intro o u after v _ reads
    obtain ⟨_, _, _, _, -, rfl, lower, -⟩ := (reads_append _ _ _ _ _ _).1 reads
    obtain ⟨_, _, _, _, -, rfl, separator, use⟩ := (reads_append _ _ _ _ _ _).1 lower
    obtain ⟨-, -, -, -, rfl⟩ := reads_separated.1 separator
    obtain ⟨rfl, ⟨t, rfl⟩, -⟩ := reads_attributeUse use
    exact ⟨_, rfl⟩
  have goes : ∀ o, ¬ Fails attributeLine o (b ++ ['\n'] ++ (['@'] ++ y)) := by
    intro o fails
    obtain ⟨h, z, rfl, blank', stops⟩ := exists_run isBlank r
    have nonempty : h ≠ [] := by
      rintro rfl
      simp [stops c first] at blank
    refine fails (b ++ ['\n'] ++ a ++ h) z (';' :: a ++ [' ']) (by simp [split]) ?_
    refine (reads_append _ _ _ _ _ _).2 ⟨_, _, _, _, rfl, rfl, (reads_append _ _ _ _ _ _).2 ⟨_, _, [';'], _, rfl, rfl,
      reads_separated.2 ⟨broken.1, by simp, ?_, by simp, rfl⟩, by simpa using use⟩,
      reads_oneSpace.2 ⟨blank', nonempty, stops, rfl⟩⟩
    rw [← split]
    exact (stops_cons _ _ _).2 (by decide)
  obtain ⟨x', y', written, same⟩ := (rewrite_swept attributeLine_advances _).separates
    (fun _ _ _ _ => ink_reads [] endsAttribute attributeLine_respaces) attributeLine_advances attributeLine_blank inked
    (attributeLine_apart inked filled other broken) filled' goes writes
  exact ⟨x', [';'], y', written, same, rfl, trivial⟩

variable (starts : StartsApart w)
include starts

theorem stands_keywordLine {word : String} (member : word ∈ statementKeywords) (flush : FlushLeft none s)
    (here : Stands w word.toList BrokenGap (Stops isWord) p s) :
    Stands w word.toList (· = [';']) (fun _ => True) p (keywordLine.rewrite s) := by
  obtain ⟨x, k, y, rfl, rfl, broken, stops⟩ := here
  obtain ⟨filled, letters⟩ := statementKeyword_word member
  have filled' : k ≠ [] := List.ne_nil_of_mem broken.2
  have line : ∀ o, OpensLine (lastOf o k) := by
    obtain ⟨g, rfl⟩ := broken.ends (x := x ++ w) (y := word.toList ++ y) (by simpa using flush)
    simp
  have writes : ∀ o u after v, k ++ (word.toList ++ y) = u ++ after → keywordLine.Reads o u after v →
      ∃ v', v = ';' :: (word.toList ++ v') := by
    intro o u after v split reads
    obtain ⟨g, other, member', rfl, rfl, blank, -, -, stops'⟩ := reads_keywordLine.1 reads
    obtain ⟨filled'', letters'⟩ := statementKeyword_word member'
    rw [List.append_assoc] at split
    obtain ⟨-, rest⟩ := run_unique split broken.1 blank (stops_isBlank_word filled letters)
      (stops_isBlank_word filled'' letters')
    obtain ⟨same, -⟩ := run_unique rest letters letters' stops stops'
    exact ⟨[], by simp [same]⟩
  have goes : ∀ o, ¬ Fails keywordLine o (k ++ (word.toList ++ y)) := fun o fails =>
    fails (k ++ word.toList) y (';' :: word.toList) (by simp)
      (reads_keywordLine.2 ⟨k, word, member, rfl, rfl, broken.1, filled', line o, stops⟩)
  obtain ⟨x', y', written, same⟩ := (rewrite_swept keywordLine_advances _).separates
    (fun _ _ _ _ => ink_reads [] (fun _ => false) keywordLine_respaces) keywordLine_advances keywordLine_blank inked
    (apart_of_head keywordLine_inRule starts) filled' goes writes
  exact ⟨x', [';'], y', written, same, rfl, trivial⟩

theorem stands_defaultLine (flush : FlushLeft none s) (here : Stands w "default".toList BrokenGap ColonNext p s) :
    Stands w "default".toList (· = [';']) (fun _ => True) p (defaultLine.rewrite s) := by
  obtain ⟨x, k, y, rfl, rfl, broken, h, r, rfl, blank⟩ := here
  obtain ⟨filled, letters⟩ := keyword_word "default" (by decide)
  have filled' : k ≠ [] := List.ne_nil_of_mem broken.2
  have line : ∀ o, OpensLine (lastOf o k) := by
    obtain ⟨g, rfl⟩ := broken.ends (x := x ++ w) (y := "default".toList ++ (h ++ ':' :: r)) (by simpa using flush)
    simp
  have writes : ∀ o u after v, k ++ ("default".toList ++ (h ++ ':' :: r)) = u ++ after → defaultLine.Reads o u after v →
      ∃ v', v = ';' :: ("default".toList ++ v') := by
    intro o u after v split reads
    obtain ⟨g, h', -, rfl, -⟩ := reads_defaultLine.1 reads
    exact ⟨h' ++ [':'], by simp⟩
  have goes : ∀ o, ¬ Fails defaultLine o (k ++ ("default".toList ++ (h ++ ':' :: r))) := fun o fails =>
    fails (k ++ "default".toList ++ h ++ [':']) r _ (by simp)
      (reads_defaultLine.2 ⟨k, h, rfl, rfl, broken.1, filled', line o, blank⟩)
  obtain ⟨x', y', written, same⟩ := (rewrite_swept defaultLine_advances _).separates
    (fun _ _ _ _ => ink_reads [] (fun _ => false) defaultLine_respaces) defaultLine_advances defaultLine_blank inked
    (apart_of_head defaultLine_inRule starts) filled' goes writes
  exact ⟨x', [';'], y', written, same, rfl, trivial⟩

end place

theorem stands_separatorAfter (starts : StartsApart w) (mark : String) {c : Char} (spelled : mark.toList = [c])
    (known : inStatementRule c = true) (outside : c ∉ w ++ (k ++ z)) (here : Stands w z (· = k) (fun _ => True) p s) :
    Stands w z (· = k) (fun _ => True) p ((separatorAfter mark).rewrite s) := by
  obtain ⟨x, k, y, rfl, rfl, rfl, -⟩ := here
  have fails : ∀ o a b, w ++ (k ++ z) = a ++ b → b ≠ [] → Fails (separatorAfter mark) (lastOf o a) (b ++ y) := by
    rintro o a b split filled u after v same reads
    obtain ⟨rfl, -⟩ := reads_separatorAfter.1 reads
    obtain ⟨d, b, rfl⟩ := List.exists_cons_of_ne_nil filled
    obtain rfl : d = c := (List.cons.inj (by simpa [spelled] using same)).1
    exact outside (by simp [split])
  obtain ⟨x', y', written, same⟩ := Swept.keeps_stretch
    (fun _ _ _ _ => ink_reads [mark] (fun _ => false) (separatorAfter_respaces (by simp)))
    (apart_of_head (separatorAfter_inRule (by simpa [spelled] using known)) (starts.append _)) fails
    (rewrite_swept (p := separatorAfter mark) separatorAfter_advances (x ++ (w ++ (k ++ z) ++ y)))
  exact ⟨x', k, y', by simpa using written, same, rfl, trivial⟩

theorem separatorAfterIn_at {m : List Char} (plain : ';' ∉ m) (same : m ++ ';' :: y = u ++ after)
    (reads : separatorAfterIn.Reads before u after v) : m = "in".toList ∧ after = y ∧ Apart before := by
  obtain ⟨rfl, -, apart⟩ := reads_separatorAfterIn.1 reads
  have other : ∀ {t : List Char}, ';' ∉ t → Within (· != ';') t := fun absent c member => by
    rw [bne_iff_ne]
    rintro rfl
    exact absent member
  have split : m ++ ';' :: y = "in".toList ++ ';' :: after := by simpa using same
  obtain ⟨rfl, rest⟩ := run_unique (p := (· != ';')) split (other plain) (other (t := "in".toList) (by decide)) (by simp)
    (by simp)
  exact ⟨rfl, (List.cons.inj rest).2.symm, apart⟩

/-- No end of the text starts what the closure rule reads. -/
def EndsOff (z : List Char) : Prop := ∀ b ∈ z.tails, b ≠ [] → ¬ b <+: "in;".toList

instance (z : List Char) : Decidable (EndsOff z) := inferInstanceAs (Decidable (∀ b ∈ z.tails, _))

theorem statementWords_apart : ∀ z ∈ statementWords.map String.toList ++ [['@']],
    Within isInk z ∧ z ≠ [] ∧ EndsOff z ∧ '\x7b' ∉ z ∧ ':' ∉ z ∧ ';' ∉ z := by
  decide

theorem separatorAfterIn_fails (plain : ';' ∉ z) (off : EndsOff z) (o : Option Char) {a b : List Char} (split : z = a ++ b)
    (nonempty : b ≠ []) : Fails separatorAfterIn o (b ++ y) := by
  intro u after v same reads
  obtain ⟨rfl, -⟩ := reads_separatorAfterIn.1 reads
  rcases List.append_eq_append_iff.1 same with ⟨m, front, -⟩ | ⟨m, rfl, -⟩
  · exact off b ((List.mem_tails _ _).2 ⟨a, split.symm⟩) nonempty ⟨m, front.symm⟩
  · exact plain (by simp [split])

theorem EndsOff.gap (off : EndsOff z) (blank : Within isBlank k) (nonempty : k ≠ []) : EndsOff (w ++ (k ++ z)) := by
  intro b ends filled reads
  obtain ⟨g, d, rfl⟩ := (List.eq_nil_or_concat k).resolve_left nonempty
  have outside : d ∉ b := fun member => by
    have solid : ∀ c ∈ "in;".toList, isBlank c = false := by decide
    have other := solid d (reads.subset member)
    simp [blank d (by simp)] at other
  have whole : d :: z <:+ w ++ (g.concat d ++ z) := ⟨w ++ g, by simp⟩
  rcases List.suffix_or_suffix_of_suffix ((List.mem_tails _ _).1 ends) whole with inside | beyond
  · rcases List.suffix_cons_iff.1 inside with rfl | inside
    · exact outside (by simp)
    · exact off b ((List.mem_tails _ _).2 inside) filled reads
  · exact outside (beyond.subset (by simp))

theorem stands_unseparated (starts : StartsApart w) (plain : ';' ∉ w ++ (k ++ z)) (off : EndsOff (w ++ (k ++ z)))
    (here : Stands w z (· = k) (fun _ => True) p s) :
    Stands w z (· = k) (fun _ => True) p (separatorAfterIn.rewrite s) := by
  obtain ⟨x, k, y, rfl, rfl, rfl, -⟩ := here
  obtain ⟨x', y', written, same⟩ := Swept.keeps_stretch
    (fun _ _ _ _ => ink_reads [] (fun _ => false) separatorAfterIn_respaces)
    (apart_of_head separatorAfterIn_inRule (starts.append _))
    (fun _ _ _ split nonempty => separatorAfterIn_fails plain off _ split nonempty)
    (rewrite_swept separatorAfterIn_advances (x ++ (w ++ (k ++ z) ++ y)))
  exact ⟨x', k, y', by simpa using written, same, rfl, trivial⟩

section closure

variable (inked : Within isInk w) (starts : StartsApart w) (plain : ';' ∉ w) (plain' : ';' ∉ z) (off : EndsOff z)
include starts plain plain' off

theorem stands_separatorAfterIn (other : ∀ p, w = p ++ "in".toList → ¬ Apart (lastOf none p))
    (here : Stands w z (· = [';']) (fun _ => True) p s) :
    Stands w z (· = [';']) (fun _ => True) p (separatorAfterIn.rewrite s) := by
  obtain ⟨x, k, y, rfl, rfl, rfl, -⟩ := here
  have fails : ∀ o a b, w ++ ';' :: z = a ++ b → b ≠ [] → Fails separatorAfterIn (lastOf o a) (b ++ y) := by
    intro o a b split nonempty
    rcases List.append_eq_append_iff.1 split with ⟨m, rfl, behind⟩ | ⟨m, front, rfl⟩
    · cases m with
      | nil =>
          obtain rfl : ';' :: z = b := behind
          intro u after v same reads
          obtain ⟨word, -⟩ := separatorAfterIn_at (m := []) (by simp) same reads
          exact absurd word (by decide)
      | cons e m =>
          obtain ⟨-, inner⟩ := List.cons.inj behind
          exact separatorAfterIn_fails plain' off _ inner nonempty
    · intro u after v same reads
      obtain ⟨rfl, -, apart'⟩ := separatorAfterIn_at (m := m) (y := z ++ y)
        (fun member => plain (by simp [front, member])) (by simpa using same) reads
      have filled : a ≠ [] := by
        rintro rfl
        have word : w = "in".toList := front
        exact not_startsApart_in (word ▸ starts)
      refine other a front ?_
      rwa [lastOf_eq_getLast _ _ filled, ← lastOf_eq_getLast o _ filled]
  obtain ⟨x', y', written, same⟩ := Swept.keeps_stretch
    (fun _ _ _ _ => ink_reads [] (fun _ => false) separatorAfterIn_respaces)
    (apart_of_head separatorAfterIn_inRule (starts.append _)) fails
    (rewrite_swept separatorAfterIn_advances (x ++ (w ++ ';' :: z ++ y)))
  exact ⟨x', [';'], y', by simpa using written, same, rfl, trivial⟩

theorem stands_closureHead {r : List Char} (ends : w = r ++ "in".toList) (word : Apart (lastOf none r))
    (here : Stands w z (· = [';']) (fun _ => True) p s) :
    Stands w z (· = [' ']) (fun _ => True) p (separatorAfterIn.rewrite s) := by
  obtain ⟨x, k, y, rfl, rfl, rfl, -⟩ := here
  subst ends
  rw [List.mem_append, not_or] at plain
  have filled : r ≠ [] := by
    rintro rfl
    exact not_startsApart_in starts
  have inside : ∀ o a b, r = a ++ b → b ≠ [] →
      Fails separatorAfterIn (lastOf o a) (b ++ ("in".toList ++ ';' :: (z ++ y))) := by
    rintro o a b rfl nonempty u after v same reads
    obtain ⟨word, -⟩ := separatorAfterIn_at (m := b ++ "in".toList) (y := z ++ y)
      (by rw [List.mem_append, not_or]; exact ⟨fun member => plain.1 (by simp [member]), plain.2⟩)
      (by simpa using same) reads
    exact nonempty (List.append_left_eq_self.1 word)
  obtain ⟨x', out, written, same, onward⟩ := (rewrite_swept separatorAfterIn_advances
    (x ++ (r ++ "in".toList ++ ([';'] ++ (z ++ y))))).reaches
    (fun _ _ _ _ => ink_reads [] (fun _ => false) separatorAfterIn_respaces)
    (apart_of_head separatorAfterIn_inRule starts)
  obtain ⟨out, rfl, later⟩ := Swept.copies_all (u := r) (s := "in".toList ++ ';' :: (z ++ y)) (inside _)
    (by simpa using onward)
  have spelled : "in".toList ++ ';' :: (z ++ y) = 'i' :: 'n' :: ';' :: (z ++ y) := rfl
  rw [spelled] at later
  have reads : separatorAfterIn.Reads (lastOf (lastOf none x) r) "in;".toList (z ++ y) "in ".toList := by
    refine reads_separatorAfterIn.2 ⟨rfl, rfl, ?_⟩
    rwa [lastOf_eq_getLast _ _ filled, ← lastOf_eq_getLast none _ filled]
  rcases later.cases_cons with ⟨u, after, v, out, split, rfl, here, -, onward⟩ | ⟨fails, -⟩
  · obtain ⟨rfl, rfl, -⟩ := reads_separatorAfterIn.1 here
    obtain rfl : z ++ y = after := by simpa using split
    obtain ⟨out, rfl, -⟩ := onward.copies_all fun a b split nonempty =>
      separatorAfterIn_fails plain' off _ split nonempty
    exact ⟨x', [' '], out, by simpa using written, same, rfl, trivial⟩
  · exact absurd reads (fails _ _ _ rfl)

end closure

/-- In front of a statement word the rules for keywords and for the default case write a semicolon in a broken gap, and
those up to the corrections leave it. -/
theorem stage_separated (tidy : Tidy s) (inked : Within isInk w) (starts : StartsApart w)
    (spelled : ∃ text ∈ statementWords, z = text.toList) (here : Stands w z BrokenGap (StatementWord z) p (stage 8 s)) :
    Stands w z (· = [';']) (fun _ => True) p (stage 15 s) := by
  obtain ⟨text, member, rfl⟩ := spelled
  obtain ⟨filled', inked', -⟩ := statementWords_letters text member
  have filled : w ≠ [] := by
    rintro rfl
    obtain ⟨c, first, -⟩ := starts
    simp at first
  have other : ∀ word ∈ statementKeywords, word.toList ≠ "default".toList := by decide
  refine Shifted.stands_separated inked inked' filled filled' (stage_punctuation s) ?_
  rcases List.mem_append.1 member with keyword | default
  · refine Shifted.stands_separated inked inked' filled filled' (stage_defaults s) ?_
    refine stands_keywordLine inked starts keyword (stage_tidy 8 tidy).flush (here.mono (fun _ => id) fun y word => ?_)
    rcases statementWord_iff.1 word with ⟨_, -, -, stops⟩ | ⟨same, -⟩
    · exact stops
    · exact absurd same (other text keyword)
  · obtain rfl : text = "default" := by simpa using default
    -- The rule for keywords makes moves in front of keywords only, so the gap is still there.
    have kept : Stands w "default".toList BrokenGap (StatementWord "default".toList) p (stage 9 s) :=
      Shifted.stands_word (unclosed_nil w) (by simp) (fun _ => KeywordNext.leads) inked filled ⟨_, member, rfl⟩
        (fun _ => And.left) (fun _ _ _ _ => not_keywordNext_default) (by simp) (stage_keywords s) here
    refine stands_defaultLine inked starts (stage_tidy 9 tidy).flush (kept.mono (fun _ => id) fun y word => ?_)
    rcases statementWord_iff.1 word with ⟨word, keyword, same, -⟩ | ⟨-, next⟩
    · exact absurd same.symm (other word keyword)
    · exact next

theorem stage_corrected (starts : StartsApart w) (plain : '\x7b' ∉ w ++ (k ++ z)) (plain' : ':' ∉ w ++ (k ++ z))
    (here : Stands w z (· = k) (fun _ => True) p (stage 15 s)) :
    Stands w z (· = k) (fun _ => True) p (stage 17 s) := by
  have braces := stands_separatorAfter starts "\x7b" rfl (by decide) plain here
  exact stands_separatorAfter starts ":" rfl (by decide) plain' braces

end SourceBundle.Swift
