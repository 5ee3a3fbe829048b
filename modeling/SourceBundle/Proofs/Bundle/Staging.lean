import SourceBundle.Proofs.Bundle.Writing

/-!
The directory in which a file is put together is the one in which the path names its entry, although the two are
spelled apart.
-/

namespace SourceBundle

open Text

namespace Path

variable {p : Path} {first : List Char} {later : List (List Char)} {s x : List Char}

def spelled (first : List Char) (later : List (List Char)) : List Char :=
  later.foldl (fun s segment => s ++ '/' :: segment) first

theorem spelled_append (first : List Char) (later others : List (List Char)) :
    spelled first (later ++ others) = spelled (spelled first later) others := by
  rw [spelled, List.foldl_append, ← spelled, ← spelled]

theorem spelled_eq (first : List Char) (later : List (List Char)) :
    spelled first later = first ++ later.flatMap fun segment => '/' :: segment := by
  induction later generalizing first with
  | nil => simp [spelled]
  | cons segment later ih =>
      rw [spelled, List.foldl_cons, ← spelled, ih]
      simp

theorem cut_spelled (x : List Char) (absent : ∀ segment ∈ later, '/' ∉ segment) :
    cut '/' (spelled x later) = cut '/' x ++ later := by
  induction later generalizing x with
  | nil => simp [spelled]
  | cons segment later ih =>
      rw [List.forall_mem_cons] at absent
      rw [spelled, List.foldl_cons, ← spelled, ih _ absent.2, cut_append_mark, cut_of_not_mem absent.1]
      simp

theorem spelled_cut (split : cut '/' s = first :: later) : spelled first later = s := by
  rw [spelled_eq]
  induction s generalizing first later with
  | nil =>
      cases split
      rfl
  | cons c s ih =>
      rw [cut_cons] at split
      split at split
      · rename_i slash
        obtain ⟨next, others, rest⟩ := List.exists_cons_of_ne_nil (cut_ne_nil '/' s)
        rw [rest] at split
        cases split
        have behind := ih rest
        simp [slash, ← behind]
      · obtain ⟨next, others, rest⟩ := List.exists_cons_of_ne_nil (cut_ne_nil '/' s)
        rw [rest] at split
        cases split
        have behind := ih rest
        simp [← behind]

def solid (segments : List (List Char)) : List String :=
  (segments.filter fun segment => !isIdle segment).map String.ofList

theorem solid_append (u w : List (List Char)) : solid (u ++ w) = solid u ++ solid w := by
  simp [solid]

theorem solid_dropWhile (u : List (List Char)) : solid (u.dropWhile isIdle).reverse = solid u.reverse := by
  induction u with
  | nil => rfl
  | cons segment u ih =>
      rw [List.dropWhile_cons]
      split
      · rename_i idle
        rw [ih, List.reverse_cons, solid_append]
        simp [solid, idle]
      · rfl

theorem names_filter (p : Path) : p.names.filter (· != ".") = solid (cut '/' p.text.toList) := by
  have dot : ∀ segment : List Char, (String.ofList segment == ".") = (segment == ['.']) := by
    intro segment
    rw [Bool.eq_iff_iff, beq_iff_eq, beq_iff_eq, ← String.toList_inj, String.toList_ofList]
    rfl
  have filled : ∀ segment : List Char, (String.ofList segment).isEmpty = (segment == []) := by
    intro segment
    rw [Bool.eq_iff_iff, String.isEmpty_iff, beq_iff_eq, ← String.toList_inj, String.toList_ofList]
    rfl
  rw [names, cutString, List.filter_filter, List.filter_map, solid]
  congr 1
  apply List.filter_congr
  intro segment _
  simp [isIdle, dot, filled, Bool.and_comm, bne]

theorem solid_ofSegments (bare : '/' ∉ first) (absent : ∀ segment ∈ later, '/' ∉ segment) :
    solid (cut '/' (ofSegments first later).text.toList) = solid (first :: later) := by
  rw [ofSegments]
  split
  · rename_i empty
    obtain ⟨rfl, rfl⟩ : first = [] ∧ later = [] := by simpa using empty
    rfl
  · rw [String.toList_ofList, ← spelled, cut_spelled first absent, cut_of_not_mem bare, List.singleton_append]

theorem ofSegments_prefix {rest : List (List Char)} (more : rest ≠ []) :
    (ofSegments first later).text.toList ≠ [] ∧
      (ofSegments first later).text.toList <+: spelled first (later ++ rest) := by
  rw [ofSegments]
  split
  · rename_i empty
    obtain ⟨rfl, rfl⟩ : first = [] ∧ later = [] := by simpa using empty
    obtain ⟨segment, rest, rfl⟩ := List.exists_cons_of_ne_nil more
    rw [spelled_eq]
    simp
  · rename_i filled
    rw [String.toList_ofList, ← spelled, spelled_append, spelled_eq _ rest]
    refine ⟨fun empty => filled ?_, List.prefix_append _ _⟩
    rw [spelled_eq] at empty
    cases later <;> simp_all

end Path

namespace Buffer

variable {t : FileTree} {p : Path} {place : Location} {name : String} {above : List String}
  {first last : List Char} {later others : List (List Char)}

theorem stagingDirectory_current (segments : p.segments = (first, later))
    (idle : later.reverse.dropWhile Path.isIdle = []) : stagingDirectory p = ⟨"."⟩ := by
  simp only [stagingDirectory, Path.parent?, segments, idle]
  cases first <;> rfl

theorem stagingDirectory_opens (stretches : cut '/' p.text.toList = first :: later)
    (ending : later.reverse.dropWhile Path.isIdle = last :: others) :
    stagingDirectory p = Path.ofSegments first (others.dropWhile Path.isIdle).reverse ∧
      (∃ rest, later = (others.dropWhile Path.isIdle).reverse ++ rest) ∧
      (stagingDirectory p).text.toList ≠ [] ∧ (stagingDirectory p).text.toList <+: p.text.toList := by
  have segments : p.segments = (first, later) := by rw [Path.segments, stretches]
  have parent : p.parent? = some (Path.ofSegments first (others.dropWhile Path.isIdle).reverse) := by
    simp [Path.parent?, segments, ending]
  obtain ⟨u, before⟩ : last :: others <:+ later.reverse := ending ▸ List.dropWhile_suffix _
  obtain ⟨v, trimmed⟩ := List.dropWhile_suffix (l := others) Path.isIdle
  have whole : later = (others.dropWhile Path.isIdle).reverse ++ (v.reverse ++ last :: u.reverse) := by
    rw [← List.reverse_reverse later, ← before, List.reverse_append, List.reverse_cons]
    nth_rewrite 1 [← trimmed]
    simp
  have opens : (Path.ofSegments first (others.dropWhile Path.isIdle).reverse).text.toList ≠ [] ∧
      (Path.ofSegments first (others.dropWhile Path.isIdle).reverse).text.toList <+: p.text.toList := by
    rw [← Path.spelled_cut stretches, whole]
    exact Path.ofSegments_prefix (by simp)
  have directory : stagingDirectory p = Path.ofSegments first (others.dropWhile Path.isIdle).reverse := by
    have text : (Path.ofSegments first (others.dropWhile Path.isIdle).reverse).text ≠ "" := by
      simpa using opens.1
    simp [stagingDirectory, parent, text]
  rw [directory]
  exact ⟨rfl, ⟨_, whole⟩, opens⟩

/-- The directory of a path is spelled by an opening of the path, or it is the current one. -/
theorem stagingDirectory_eq (split : p.names = above ++ [name]) (plain : FileTree.isDots name = false) :
    (stagingDirectory p).steps.filter (· != ".") = above.filter (· != ".") ∧
      (stagingDirectory p = ⟨"."⟩ ∧ p.isAbsolute = false ∨
        (stagingDirectory p).text.toList ≠ [] ∧ (stagingDirectory p).text.toList <+: p.text.toList) := by
  obtain ⟨first, later, stretches⟩ := List.exists_cons_of_ne_nil (cut_ne_nil '/' p.text.toList)
  have bare : ∀ segment ∈ first :: later, '/' ∉ segment := fun segment member =>
    mark_not_mem_of_mem_cut (stretches ▸ member)
  rw [List.forall_mem_cons] at bare
  have steps : Path.solid [first] ++ Path.solid later = above.filter (· != ".") ++ [name] := by
    rw [← Path.solid_append, List.singleton_append, ← stretches, ← Path.names_filter, split]
    simp [(FileTree.not_dots plain).1]
  have solid := Path.solid_dropWhile later.reverse
  have ends := List.head?_dropWhile_not Path.isIdle later.reverse
  -- The name is the first segment, with no slash before it, or the last of the later ones.
  cases ending : later.reverse.dropWhile Path.isIdle with
  | nil =>
      rw [ending, List.reverse_reverse] at solid
      rw [← solid] at steps
      have named : Path.isIdle first = false := by
        cases idle : Path.isIdle first with
        | false => rfl
        | true => simp [Path.solid, idle] at steps
      obtain ⟨c, rest, rfl⟩ : ∃ c rest, first = c :: rest := by
        apply List.exists_cons_of_ne_nil
        rintro rfl
        cases named
      have single : [] ++ [String.ofList (c :: rest)] = above.filter (· != ".") ++ [name] := by
        simpa [Path.solid, named] using steps
      have alone : above.filter (· != ".") = [] := (List.append_inj' single rfl).1.symm
      have text := Path.spelled_cut stretches
      rw [Path.spelled_eq] at text
      have other : c ≠ '/' := by
        rintro rfl
        exact bare.1 List.mem_cons_self
      rw [stagingDirectory_current (by rw [Path.segments, stretches]) ending, alone]
      refine ⟨rfl, .inl ⟨rfl, ?_⟩⟩
      rw [Path.isAbsolute, ← text]
      simpa using other
  | cons last others =>
      obtain ⟨directory, ⟨rest, whole⟩, opens⟩ := stagingDirectory_opens stretches ending
      refine ⟨?_, .inr opens⟩
      rw [ending] at solid ends
      have named : Path.isIdle last = false := ends
      have inside : ∀ segment ∈ (others.dropWhile Path.isIdle).reverse, '/' ∉ segment := fun segment member =>
        bare.2 segment (by rw [whole]; exact List.mem_append_left _ member)
      rw [directory, Path.steps_filter, Path.names_filter, Path.solid_ofSegments bare.1 inside,
        ← List.singleton_append, Path.solid_append, Path.solid_dropWhile]
      rw [List.reverse_reverse, List.reverse_cons, Path.solid_append] at solid
      have last' : Path.solid [last] = [String.ofList last] := by simp [Path.solid, named]
      rw [← solid, last', ← List.append_assoc] at steps
      exact (List.append_inj' steps rfl).1

theorem stagingDirectory_check (split : p.names = above ++ [name]) (plain : FileTree.isDots name = false)
    (sound : p.check = .ok ()) : (stagingDirectory p).check = .ok () := by
  obtain ⟨-, ⟨here, -⟩ | ⟨filled, rest, whole⟩⟩ := stagingDirectory_eq split plain
  · rw [here]
    decide
  · have text := Path.checkText_of_check sound
    obtain ⟨nul, -⟩ := Path.checkText_iff.1 text
    have text' : (stagingDirectory p).checkText = .ok () := by
      refine Path.checkText_iff.2 ⟨fun member => nul ?_, filled⟩
      rw [← whole]
      exact List.mem_append_left _ member
    have spelled : p.text = (stagingDirectory p).text ++ String.ofList rest := by
      rw [← String.toList_inj]
      simp [whole]
    rw [Path.check_eq text, spelled, String.utf8ByteSize_append] at sound
    rw [Path.check_eq text', if_neg]
    intro long
    rw [if_pos (by omega)] at sound
    cases sound

theorem stagingDirectory_isAbsolute (split : p.names = above ++ [name]) (plain : FileTree.isDots name = false) :
    (stagingDirectory p).isAbsolute = p.isAbsolute := by
  obtain ⟨-, ⟨here, relative⟩ | ⟨filled, rest, whole⟩⟩ := stagingDirectory_eq split plain
  · rw [here, relative]
    rfl
  · rw [Path.isAbsolute, Path.isAbsolute, ← whole, List.head?_append_of_ne_nil _ filled]

/-- A file is put together where its path names an entry. -/
theorem resolve_stagingDirectory (names : t.Names p place name) : t.resolve (stagingDirectory p) = .ok place := by
  obtain ⟨above, split, leads⟩ := names.above
  rw [FileTree.resolve_ok_iff, FileTree.start, stagingDirectory_isAbsolute split names.plain]
  exact ⟨stagingDirectory_check split names.plain names.sound,
    leads.idle names.inside (stagingDirectory_eq split names.plain).1⟩

theorem write_again {b : Buffer} {mode : Nat} (staged : (stagingPath (stagingDirectory p)).check = .ok ()) (names : t.Names p place name)
    (ends : p.endsWithSlash = false) (short : name.utf8ByteSize ≤ Path.greatestNameSize)
    (file : t.shown? (place ++ [name]) = some (.file b.bytes mode)) : b.write t p = (t, .ok b.size) := by
  have leads : t.resolve p = .ok (place ++ [name]) := names.resolve ends short file (by simp)
  have found : t.mode? p = some mode := FileTree.mode?_eq_some_iff.2 ⟨_, _, leads, file⟩
  have made : t.createDirectories (stagingDirectory p).text.utf8ByteSize (stagingDirectory p) = (t, none) :=
    FileTree.createDirectories_of_isDirectory
      (FileTree.isDirectory_iff.2 ⟨place, resolve_stagingDirectory names, names.inside⟩) _
  obtain ⟨entries, inside⟩ := FileTree.shown?_directory.1 names.inside
  rw [write_ok_iff]
  refine ⟨rfl, t, place, name, made, staged, ⟨names, ends, short, by simp [file]⟩, ?_⟩
  rw [found, Option.getD_some, FileTree.put_same inside names.isName file]

end Buffer

end SourceBundle
