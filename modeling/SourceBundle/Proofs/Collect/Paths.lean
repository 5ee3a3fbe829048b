import SourceBundle.Collect
import Mathlib.Data.List.Basic

/-!
Paths that go down from a directory by names. Each name adds one part to the path, and seen from the directory the
path is made of the names alone.
-/

namespace SourceBundle

open Text

namespace Path

def descend (p : Path) (names : List String) : Path := names.foldl (fun p name => p.join ⟨name⟩) p

variable {p : Path} {name : String} {names : List String} {x m : List Char}

@[simp] theorem descend_nil (p : Path) : p.descend [] = p := rfl

@[simp] theorem descend_cons (p : Path) (name : String) (names : List String) :
    p.descend (name :: names) = (p.join ⟨name⟩).descend names := rfl

theorem isName_iff : isName name = true ↔
    name.toList ≠ [] ∧ '/' ∉ name.toList ∧ '\x00' ∉ name.toList ∧ name.toList ≠ ['.'] ∧
      name.toList ≠ ['.', '.'] := by
  simp [isName, and_assoc]

theorem isAbsolute_name (proper : isName name = true) : Path.isAbsolute ⟨name⟩ = false := by
  obtain ⟨-, slash, -⟩ := isName_iff.1 proper
  rw [isAbsolute, beq_eq_false_iff_ne]
  intro first
  exact slash (List.mem_of_mem_head? first)

theorem laterParts_append (u w : List (List Char)) : laterParts (u ++ w) = laterParts u ++ laterParts w := by
  simp [laterParts]

theorem laterParts_name (proper : isName name = true) : laterParts [name.toList] = [.name name] := by
  obtain ⟨filled, -, -, dot, dots⟩ := isName_iff.1 proper
  simp [laterParts, isIdle, Part.ofSegment, filled, dot, dots]

def openingParts (absolute : Bool) : List Char → List Part
  | [] => if absolute then [.root] else []
  | ['.'] => [.here]
  | first => [.ofSegment first]

theorem parts_eq {first : List Char} {later : List (List Char)} (split : cut '/' p.text.toList = first :: later) :
    p.parts = openingParts p.isAbsolute first ++ laterParts later := by
  have stretches : p.segments = (first, later) := by
    rw [segments, split]
  rw [parts, stretches]
  unfold openingParts
  split
  · split <;> simp_all
  · simp_all
  · simp_all

theorem parts_ofList {first : List Char} {later : List (List Char)} (split : cut '/' x = first :: later) :
    Path.parts ⟨String.ofList x⟩ = openingParts (Path.isAbsolute ⟨String.ofList x⟩) first ++ laterParts later :=
  parts_eq (by simpa using split)

theorem parts_slash (absent : '/' ∉ m) (x : List Char) :
    Path.parts ⟨String.ofList (x ++ '/' :: m)⟩ = Path.parts ⟨String.ofList (x ++ ['/'])⟩ ++ laterParts [m] := by
  obtain ⟨first, later, split⟩ := List.exists_cons_of_ne_nil (cut_ne_nil '/' x)
  have whole : cut '/' (x ++ '/' :: m) = first :: (later ++ [m]) := by
    rw [cut_append_mark, split, cut_of_not_mem absent, List.cons_append]
  have front : cut '/' (x ++ ['/']) = first :: (later ++ [[]]) := by
    rw [cut_append_mark, split, cut_nil, List.cons_append]
  have absolute : Path.isAbsolute ⟨String.ofList (x ++ '/' :: m)⟩ = Path.isAbsolute ⟨String.ofList (x ++ ['/'])⟩ := by
    cases x <;> simp [isAbsolute]
  have idle : laterParts [[]] = [] := rfl
  rw [parts_ofList whole, parts_ofList front, absolute, laterParts_append, laterParts_append, idle,
    List.append_nil, List.append_assoc]

theorem parts_slash_end {x : List Char} (filled : x ≠ []) :
    Path.parts ⟨String.ofList (x ++ ['/'])⟩ = Path.parts ⟨String.ofList x⟩ := by
  obtain ⟨first, later, split⟩ := List.exists_cons_of_ne_nil (cut_ne_nil '/' x)
  have whole : cut '/' (x ++ ['/']) = first :: (later ++ [[]]) := by
    rw [cut_append_mark, split, cut_nil, List.cons_append]
  have absolute : Path.isAbsolute ⟨String.ofList (x ++ ['/'])⟩ = Path.isAbsolute ⟨String.ofList x⟩ := by
    obtain ⟨c, x, rfl⟩ := List.exists_cons_of_ne_nil filled
    simp [isAbsolute]
  have idle : laterParts [[]] = [] := rfl
  rw [parts_ofList whole, parts_ofList split, absolute, laterParts_append, idle, List.append_nil]

theorem join_slash (proper : isName name = true) (ends : p.text.toList = x ++ ['/']) :
    p.join ⟨name⟩ = ⟨String.ofList (x ++ '/' :: name.toList)⟩ := by
  have last : p.text.toList.getLast? = some '/' := by simp [ends]
  have text : p.text ++ name = String.ofList (x ++ '/' :: name.toList) := by
    rw [← String.toList_inj]
    simp [ends]
  simp only [join, isAbsolute_name proper, last]
  simp [text]

theorem join_solid (proper : isName name = true) (filled : p.text.toList ≠ [])
    (ends : p.text.toList.getLast? ≠ some '/') : p.join ⟨name⟩ = ⟨p.text ++ "/" ++ name⟩ := by
  have text : p.text ≠ "" := by simpa using filled
  have last : (p.text.toList.getLast? == some '/') = false := by simpa using ends
  simp only [join, isAbsolute_name proper, last]
  simp [text]

theorem parts_join (proper : isName name = true) (p : Path) :
    (p.join ⟨name⟩).parts = p.parts ++ [.name name] := by
  obtain ⟨filled, slash, -, dot, dots⟩ := isName_iff.1 proper
  -- The name is the whole path, or it stands behind the slash at the end of `p` or behind one that is put in.
  rcases List.eq_nil_or_concat p.text.toList with empty | ⟨x, c, ends⟩
  · have none : p = ⟨""⟩ := by
      cases p
      simpa using empty
    have alone : Path.join ⟨""⟩ ⟨name⟩ = ⟨name⟩ := by
      simp [join, isAbsolute_name proper]
    have opening : openingParts (Path.isAbsolute ⟨name⟩) name.toList = [.name name] := by
      unfold openingParts
      split <;> simp_all [Part.ofSegment]
    rw [none, alone, parts_eq (cut_of_not_mem slash), opening]
    rfl
  · rw [List.concat_eq_append] at ends
    have spelled : p = ⟨String.ofList (x ++ [c])⟩ := by
      cases p
      rw [Path.mk.injEq, ← String.toList_inj]
      simpa using ends
    by_cases mark : c = '/'
    · subst mark
      rw [join_slash proper ends, parts_slash slash, laterParts_name proper, spelled]
    · have text : p.join ⟨name⟩ = ⟨String.ofList ((x ++ [c]) ++ '/' :: name.toList)⟩ := by
        rw [join_solid proper (by simp [ends]) (by simpa [ends] using mark), Path.mk.injEq, ← String.toList_inj]
        simp [ends]
      rw [text, parts_slash slash, parts_slash_end (by simp), laterParts_name proper, spelled]

theorem parts_descend (proper : ∀ name ∈ names, isName name = true) (p : Path) :
    (p.descend names).parts = p.parts ++ names.map .name := by
  induction names generalizing p with
  | nil => simp
  | cons name names ih =>
      rw [List.forall_mem_cons] at proper
      rw [descend_cons, ih proper.2, parts_join proper.1, List.append_assoc]
      rfl

theorem wayFrom_append (base target : List Part) : wayFrom base (base ++ target) = target := by
  induction base with
  | nil => rfl
  | cons part base ih => rw [List.cons_append, wayFrom, if_pos rfl, ih]

theorem ofParts_names (names : List String) : ofParts (names.map .name) = Path.descend ⟨""⟩ names := by
  rw [ofParts, descend, List.foldl_map]
  rfl

theorem relativeTo_descend (proper : ∀ name ∈ names, isName name = true) (p : Path) :
    (p.descend names).relativeTo p = Path.descend ⟨""⟩ names := by
  rw [relativeTo, parts_descend proper, wayFrom_append, ofParts_names]

theorem descend_solid {a : String} (proper : ∀ name ∈ names, isName name = true) (filled : a.toList ≠ [])
    (ends : a.toList.getLast? ≠ some '/') : Path.descend ⟨a⟩ names = ⟨"/".intercalate (a :: names)⟩ := by
  induction names generalizing a with
  | nil => simp
  | cons name names ih =>
      rw [List.forall_mem_cons] at proper
      obtain ⟨filled', slash, -⟩ := isName_iff.1 proper.1
      have last : (a ++ "/" ++ name).toList.getLast? ≠ some '/' := by
        intro same
        rw [String.toList_append, List.getLast?_append_of_ne_nil _ filled'] at same
        exact slash (List.mem_of_getLast? same)
      rw [descend_cons, join_solid proper.1 filled ends, ih proper.2 (by simp) last, String.append_assoc,
        String.intercalate_cons_append, String.intercalate_cons_append, String.intercalate_cons_cons,
        String.append_assoc]

theorem descend_empty (proper : ∀ name ∈ names, isName name = true) :
    Path.descend ⟨""⟩ names = ⟨"/".intercalate names⟩ := by
  cases names with
  | nil => simp
  | cons name names =>
      rw [List.forall_mem_cons] at proper
      obtain ⟨filled, slash, -⟩ := isName_iff.1 proper.1
      have alone : Path.join ⟨""⟩ ⟨name⟩ = ⟨name⟩ := by
        simp [join, isAbsolute_name proper.1]
      rw [descend_cons, alone]
      apply descend_solid proper.2 filled
      intro last
      exact slash (List.mem_of_getLast? last)

theorem checkText_iff : p.checkText = .ok () ↔ '\x00' ∉ p.text.toList ∧ p.text.toList ≠ [] := by
  rw [checkText]
  split
  · simp_all
  · split <;> simp_all

theorem check_eq (sound : p.checkText = .ok ()) :
    p.check = if greatestSize < p.text.utf8ByteSize then .error .nameTooLong else .ok () := by
  rw [check, sound]
  rfl

theorem checkText_of_check (sound : p.check = .ok ()) : p.checkText = .ok () := by
  cases text : p.checkText with
  | ok => rfl
  | error fault =>
      rw [check, text] at sound
      cases sound

theorem checkText_join (proper : isName name = true) (sound : p.checkText = .ok ()) :
    (p.join ⟨name⟩).checkText = .ok () := by
  obtain ⟨filled, -, nul, -⟩ := isName_iff.1 proper
  rw [checkText_iff] at sound ⊢
  simp only [join, isAbsolute_name proper]
  split
  · simp_all
  · split <;> simp_all

theorem checkText_descend (proper : ∀ name ∈ names, isName name = true) (sound : p.checkText = .ok ()) :
    (p.descend names).checkText = .ok () := by
  induction names generalizing p with
  | nil => exact sound
  | cons name names ih =>
      rw [List.forall_mem_cons] at proper
      exact ih proper.2 (checkText_join proper.1 sound)

end Path

end SourceBundle
