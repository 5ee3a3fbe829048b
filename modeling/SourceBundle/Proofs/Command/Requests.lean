import SourceBundle.Command.Options

/-!
What the command line makes of the request of a configuration file.
-/

namespace SourceBundle

/-- What is said above prevails, and what stands below counts where nothing is said. -/
inductive Prevails {α : Type} (above : Option α) (below : α) : α → Prop where
  | said {a : α} (said : above = some a) : Prevails above below a
  | unsaid (silent : above = none) : Prevails above below below

theorem prevails_iff {α : Type} {above : Option α} {below a : α} :
    Prevails above below a ↔ above.getD below = a := by
  constructor
  · intro prevails
    cases prevails with
    | said said => rw [said, Option.getD_some]
    | unsaid silent => rw [silent, Option.getD_none]
  · intro same
    cases above with
    | none =>
        rw [← same]
        exact .unsaid rfl
    | some b =>
        rw [← same]
        exact .said rfl

namespace Command.Options

variable {o : Options} {c request : Config}

def askedSuffixes (o : Options) : Option (List String) := if o.suffixes = [] then none else some o.suffixes

/-- A request comes from a command line and a configuration file: values of the command line prevail, a switch is on
where either turns it on, and the exclusions of both count. -/
structure Merges (o : Options) (c request : Config) : Prop where
  source : Prevails (o.source.map some) c.source request.source
  lang : Prevails o.lang c.lang request.lang
  output : Prevails o.output c.output request.output
  suffixes : Prevails (o.askedSuffixes.map some) c.suffixes request.suffixes
  recursive : request.recursive = true ↔ c.recursive = true ∨ o.recursive = true
  embedded : request.profiles.embedded = true ↔ c.profiles.embedded = true ∨ o.embedded = true
  production : request.profiles.production = true ↔ c.profiles.production = true ∨ o.production = true
  exclude : request.exclude = c.exclude ++ o.exclude

theorem getD_source : (o.source.map some).getD c.source = (o.merge c).source := by
  cases asked : o.source with
  | none => simp [merge, asked]
  | some s => simp [merge, asked]

theorem getD_suffixes : (o.askedSuffixes.map some).getD c.suffixes = (o.merge c).suffixes := by
  cases asked : o.suffixes with
  | nil => simp [merge, askedSuffixes, asked]
  | cons s suffixes => simp [merge, askedSuffixes, asked]

theorem merge_merges (o : Options) (c : Config) : o.Merges c (o.merge c) where
  source := prevails_iff.2 getD_source
  lang := prevails_iff.2 rfl
  output := prevails_iff.2 rfl
  suffixes := prevails_iff.2 getD_suffixes
  recursive := Bool.or_eq_true _ _ ▸ Iff.rfl
  embedded := Bool.or_eq_true _ _ ▸ Iff.rfl
  production := Bool.or_eq_true _ _ ▸ Iff.rfl
  exclude := rfl

theorem Merges.unique {other : Config} (merges : o.Merges c request) (merges' : o.Merges c other) :
    request = other := by
  have values {α : Type} {above : Option α} {below a b : α} (here : Prevails above below a)
      (there : Prevails above below b) : a = b := (prevails_iff.1 here).symm.trans (prevails_iff.1 there)
  have switches {a b : Bool} {p : Prop} (here : a = true ↔ p) (there : b = true ↔ p) : a = b :=
    Bool.eq_iff_iff.2 (here.trans there.symm)
  cases request with
  | mk source lang output recursive suffixes exclude profiles =>
      cases other with
      | mk source' lang' output' recursive' suffixes' exclude' profiles' =>
          obtain rfl : source = source' := values merges.source merges'.source
          obtain rfl : lang = lang' := values merges.lang merges'.lang
          obtain rfl : output = output' := values merges.output merges'.output
          obtain rfl : suffixes = suffixes' := values merges.suffixes merges'.suffixes
          obtain rfl : recursive = recursive' := switches merges.recursive merges'.recursive
          obtain rfl : exclude = exclude' := merges.exclude.trans merges'.exclude.symm
          have profile : profiles = profiles' := by
            cases profiles
            cases profiles'
            congr 1
            · exact switches merges.embedded merges'.embedded
            · exact switches merges.production merges'.production
          rw [profile]

theorem merges_iff : o.Merges c request ↔ o.merge c = request := by
  constructor
  · exact fun merges => (merge_merges o c).unique merges
  · rintro rfl
    exact merge_merges o c

theorem merge_empty (c : Config) : ({} : Options).merge c = c := by
  refine merges_iff.1 ⟨.unsaid rfl, .unsaid rfl, .unsaid rfl, .unsaid rfl, ?_, ?_, ?_, ?_⟩
  · exact (or_iff_left Bool.false_ne_true).symm
  · exact (or_iff_left Bool.false_ne_true).symm
  · exact (or_iff_left Bool.false_ne_true).symm
  · exact (List.append_nil _).symm

end Command.Options

end SourceBundle
