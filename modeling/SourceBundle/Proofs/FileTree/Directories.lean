import SourceBundle.Proofs.FileTree.Answers
import SourceBundle.Proofs.Joining

/-!
Making directories. What is there already stays as it is, and what is new are directories to which a prefix of the
path leads.
-/

namespace SourceBundle

open Text

namespace Path

inductive Above (p : Path) : Path → Prop where
  | self : Above p p
  | next {q r : Path} (above : Above p q) (parent : q.parent? = some r) : Above p r

theorem Above.trans {p q r : Path} (first : p.Above q) (second : q.Above r) : p.Above r := by
  induction second with
  | self => exact first
  | next _ parent ih => exact .next ih parent

end Path

namespace FileTree

variable {t made u : FileTree} {p above : Path} {place : Location} {name : String} {fault : Fault}

/-- One tree comes from another by making directories, each of which a path above the given one leads to. -/
structure MakesDirectories (t : FileTree) (p : Path) (made : FileTree) : Prop where
  larger : made.Extends t
  new : ∀ place, made.shown? place ≠ t.shown? place →
    made.shown? place = some (.directory .empty) ∧ ∃ above, p.Above above ∧ made.resolve above = .ok place

namespace MakesDirectories

theorem refl (t : FileTree) (p : Path) : t.MakesDirectories p t :=
  ⟨.refl t, fun _ differs => absurd rfl differs⟩

theorem trans (first : t.MakesDirectories p u) (second : u.MakesDirectories p made) : t.MakesDirectories p made := by
  refine ⟨second.larger.trans first.larger, ?_⟩
  intro place differs
  by_cases late : made.shown? place = u.shown? place
  · rw [late] at differs ⊢
    obtain ⟨here, above, leads, resolves⟩ := first.new place differs
    exact ⟨here, above, leads, second.larger.resolve resolves⟩
  · exact second.new place late

theorem below (makes : t.MakesDirectories above made) (leads : p.Above above) : t.MakesDirectories p made := by
  refine ⟨makes.larger, ?_⟩
  intro place differs
  obtain ⟨here, higher, later, resolves⟩ := makes.new place differs
  exact ⟨here, higher, leads.trans later, resolves⟩

end MakesDirectories

theorem Names.isName (names : t.Names p place name) : isName name = true := by
  obtain ⟨steps, split, -⟩ := names.above
  have member : name ∈ p.names := by simp [split]
  rw [Path.names, cutString, List.mem_filter, List.mem_map] at member
  obtain ⟨⟨stretch, cut, rfl⟩, filled⟩ := member
  obtain ⟨nul, -⟩ := Path.checkText_iff.1 (Path.checkText_of_check names.sound)
  have dots := not_dots names.plain
  rw [Path.isName_iff, String.toList_ofList]
  refine ⟨by simpa using filled, mark_not_mem_of_mem_cut cut, fun inside => nul (mem_of_mem_cut cut inside), ?_, ?_⟩
  · rintro rfl
    exact dots.1 rfl
  · rintro rfl
    exact dots.2 rfl

theorem createDirectory_ok (created : t.createDirectory p = .ok made) :
    ∃ place name, t.Names p place name ∧ t.shown? (place ++ [name]) = none ∧
      name.utf8ByteSize ≤ Path.greatestNameSize ∧ made = t.put place name (.directory .empty) := by
  obtain ⟨⟨place, entries, name⟩, parent, created⟩ := bind_ok.1 created
  dsimp only at created
  split at created
  · cases created
  · rename_i plain
    obtain ⟨names, inside⟩ := (parent_ok_iff (by simpa using plain)).1 parent
    split at created
    · cases created
    · rename_i missing
      obtain ⟨short, absent⟩ := lookUp_missing_iff.1 missing
      cases created
      exact ⟨place, name, names, by rw [shown?_eq_none, node?_entry inside, absent], short, rfl⟩
    · cases created

theorem createDirectory_makes (created : t.createDirectory p = .ok made) : t.MakesDirectories p made := by
  obtain ⟨place, name, names, free, short, rfl⟩ := createDirectory_ok created
  obtain ⟨entries, inside⟩ := shown?_directory.1 names.inside
  have shown : ∀ other, (t.put place name (.directory .empty)).shown? other =
      if other = place ++ [name] then some (.directory .empty) else t.shown? other :=
    shown?_put inside names.isName (fun sub => by simp [shown?_eq_none.1 free]) rfl
  have larger : (t.put place name (.directory .empty)).Extends t := by
    refine ⟨rfl, fun other node here => ?_⟩
    rw [shown, if_neg, here]
    rintro rfl
    rw [free] at here
    cases here
  refine ⟨larger, fun other differs => ?_⟩
  rw [shown] at differs ⊢
  split at differs
  · rename_i same
    subst same
    rw [if_pos rfl]
    refine ⟨rfl, p, .self, (names.grow larger).resolve_directory short ?_⟩
    rw [shown, if_pos rfl]
  · exact absurd rfl differs

theorem ensureDirectory_makes (t : FileTree) (p : Path) : t.MakesDirectories p (t.ensureDirectory p).1 := by
  rw [ensureDirectory]
  split
  · rename_i created
    exact createDirectory_makes created
  · exact .refl t p

theorem createDirectories_makes (t : FileTree) (bound : Nat) (p : Path) :
    t.MakesDirectories p (t.createDirectories bound p).1 := by
  induction bound generalizing p with
  | zero => exact ensureDirectory_makes t p
  | succ bound ih =>
      rw [createDirectories]
      split
      · rename_i above _ parent
        split
        · exact ensureDirectory_makes t p
        · have higher := (ih above).below (.next .self parent)
          split
          · rename_i made done
            rw [done] at higher
            exact higher.trans (ensureDirectory_makes made p)
          · rename_i made fault failed
            rw [failed] at higher
            exact higher
      · exact ensureDirectory_makes t p

theorem createDirectories_of_isDirectory (found : t.isDirectory p = true) (bound : Nat) :
    t.createDirectories bound p = (t, none) := by
  have ensured : t.ensureDirectory p = (t, none) := by
    rw [ensureDirectory]
    split
    · rename_i made created
      obtain ⟨place, name, names, free, -⟩ := createDirectory_ok created
      obtain ⟨goal, leads, -⟩ := isDirectory_iff.1 found
      exact absurd leads (names.not_resolve free goal)
    · rw [if_pos found]
  cases bound with
  | zero => exact ensured
  | succ bound =>
      rw [createDirectories, ensured]

end FileTree

end SourceBundle
