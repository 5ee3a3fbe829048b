import SourceBundle.Proofs.ByteOrder
import SourceBundle.Proofs.Collect.Request
import SourceBundle.Proofs.Collect.Walk

/-!
The files that a request collects. They are the entries below the source directory that the request asks for, each
once and in the order of the bytes of their names, unless a directory has to be listed whose path is too long for the
system.
-/

namespace SourceBundle

open Text

namespace Config

/-- The entry with these names below the source directory is one to collect. -/
structure Collects (config : Config) (language : Language) (t : FileTree) (source : Path) (entries : Entries.Raw)
    (names : List String) : Prop where
  leaf : ∃ node, entries.at? names = some node ∧ (∀ inner, node ≠ .directory inner) ∧
    ∀ target, node = .link target → t.isDirectory (source.descend names) = false
  depth : config.recursive = true ∨ names.length = 1
  suffix : ∃ name ∈ names.getLast?, config.Accepts language name
  included : config.Includes names

/-- The files are the entries to collect: each once, with the path of the source continued by its names, and in the
order of the bytes of the names. -/
structure Collected (config : Config) (language : Language) (t : FileTree) (source : Path) (entries : Entries.Raw)
    (files : List SourceFile) : Prop where
  members : ∀ f, f ∈ files ↔ ∃ names, config.Collects language t source entries names ∧
    f = ⟨source.descend names, names⟩
  relative : ∀ f ∈ files, f.relative = f.path.relativeTo source ∧ f.relative.parts = f.below.map .name
  ordered : files.Pairwise fun f g => f.below.map bytes < g.below.map bytes

/-- A directory with these names below the source directory has to be listed, and its path is too long. -/
structure Overlong (config : Config) (source : Path) (entries : Entries.Raw) (names : List String) : Prop where
  directory : ∃ inner, entries.at? names = some (.directory inner)
  below : names ≠ []
  recursive : config.recursive = true
  included : config.Includes names
  size : Path.greatestSize < (source.descend names).text.utf8ByteSize

end Config

namespace FileTree

variable {t : FileTree} {p : Path} {node : Node}

theorem proper_of_follow (leads : t.follow p = .ok node) : node.proper = true := by
  rw [FileTree.follow] at leads
  obtain ⟨place, -, found⟩ := bind_ok.1 leads
  split at found
  · rename_i there
    obtain rfl := Except.ok.inj found
    exact Entries.Raw.proper_of_at? t.entries.proper there
  · cases found

theorem check_of_follow (leads : t.follow p = .ok node) : p.check = .ok () := by
  rw [FileTree.follow] at leads
  obtain ⟨place, resolved, -⟩ := bind_ok.1 leads
  rw [resolve] at resolved
  obtain ⟨_, sound, _⟩ := bind_ok.1 resolved
  exact sound

end FileTree

namespace Settings

variable {home : Option String} {root : Path} {config : Config} {s : Settings} {t : FileTree} {entries : Entries.Raw}
  {below names : List String} {node : Node}

theorem reaches_iff : s.Reaches below entries names node ↔
    names ≠ [] ∧ entries.at? names = some node ∧ (s.recursive = true ∨ names.length = 1) ∧
      ∀ above, above ≠ [] → above <+: names → s.excludesNames (below ++ above) = false := by
  constructor
  · intro reaches
    induction reaches with
    | @entry below entries name node found included =>
        refine ⟨by simp, ?_, .inr rfl, ?_⟩
        · rw [Entries.Raw.at?, found]
          cases node <;> rfl
        · intro above filled start
          obtain ⟨first, above, rfl⟩ := List.exists_cons_of_ne_nil filled
          obtain ⟨rfl, last⟩ := List.cons_prefix_cons.1 start
          rw [List.prefix_nil.1 last]
          exact included
    | @inside below entries inner name names node found included recursive later ih =>
        obtain ⟨-, there, -, included'⟩ := ih
        refine ⟨by simp, ?_, .inl recursive, ?_⟩
        · rw [Entries.Raw.at?, found]
          exact there
        · intro above filled start
          obtain ⟨first, above, rfl⟩ := List.exists_cons_of_ne_nil filled
          obtain ⟨rfl, rest⟩ := List.cons_prefix_cons.1 start
          by_cases last : above = []
          · rw [last]
            exact included
          · have onward := included' above last rest
            rwa [List.append_assoc, List.singleton_append] at onward
  · rintro ⟨filled, there, depth, included⟩
    -- On the names: a way from `inner` is left out just where it is with `name` in front.
    induction names generalizing below entries with
    | nil => exact absurd rfl filled
    | cons name names ih =>
        have here : s.excludesNames (below ++ [name]) = false := included [name] (by simp) (by simp)
        rw [Entries.Raw.at?] at there
        cases found : entries.find? name with
        | none =>
            rw [found] at there
            cases there
        | some step =>
            rw [found] at there
            cases step with
            | directory inner =>
                by_cases last : names = []
                · subst last
                  obtain rfl : .directory inner = node := Option.some.inj there
                  exact .entry found here
                · have recursive : s.recursive = true := by
                    refine depth.resolve_right fun single => last ?_
                    simpa using single
                  refine .inside found here recursive (ih last there (.inl recursive) fun above filled start => ?_)
                  have onward := included (name :: above) (by simp) (List.cons_prefix_cons.2 ⟨rfl, start⟩)
                  rwa [List.append_assoc, List.singleton_append]
            | file content mode | link target =>
                simp only [List.isEmpty_iff, Option.ite_none_right_eq_some, Option.some.injEq] at there
                obtain ⟨rfl, rfl⟩ := there
                exact .entry found here

theorem includes_ofConfig (resolved : ofConfig home root config = .ok s) (names : List String) :
    (∀ above, above ≠ [] → above <+: names → s.excludesNames ([] ++ above) = false) ↔ config.Includes names := by
  have each : ∀ above, s.excludesNames above = false ↔
      ∀ entry ∈ config.exclude, Config.excludedNames entry ≠ above := by
    intro above
    rw [← Bool.not_eq_true, excludesNames_ofConfig resolved]
    simp
  simp only [List.nil_append, each, Config.Includes]

theorem reaches_takes (resolved : ofConfig home root config = .ok s) (names : List String) :
    (∃ node, s.Reaches [] entries names node ∧
        ∃ name ∈ names.getLast?, s.takes t (s.source.descend names) name node = true) ↔
      config.Collects s.language t s.source entries names := by
  have recursive := (ofConfig_ok_iff.1 resolved).recursive
  constructor
  · rintro ⟨node, reached, name, last, taken⟩
    obtain ⟨-, there, depth, included⟩ := reaches_iff.1 reached
    have accepted : s.accepts name = true := by
      cases node <;> simp_all [takes]
    refine ⟨⟨node, there, ?_, ?_⟩, recursive ▸ depth, ?_, (includes_ofConfig resolved names).1 included⟩
    · rintro inner rfl
      cases taken
    · rintro target rfl
      simp only [takes, Bool.and_eq_true, Bool.not_eq_true'] at taken
      exact taken.1
    · exact ⟨name, last, (accepts_ofConfig resolved name).1 accepted⟩
  · rintro ⟨⟨node, there, closed, link⟩, depth, ⟨name, last, accepted⟩, included⟩
    have filled : names ≠ [] := by
      rintro rfl
      cases last
    refine ⟨node, reaches_iff.2 ⟨filled, there, recursive ▸ depth, ?_⟩, name, last, ?_⟩
    · exact (includes_ofConfig resolved names).2 included
    · have accepts := (accepts_ofConfig resolved name).2 accepted
      cases node with
      | directory inner => exact absurd rfl (closed inner)
      | file content mode => exact accepts
      | link target => simp [takes, link target rfl, accepts]

theorem stuck_iff (resolved : ofConfig home root config = .ok s) (sound : s.source.check = .ok ())
    (proper : entries.proper = true) (names : List String) (fault : Fault) :
    s.Stuck s.source (s.Reaches [] entries) names fault ↔
      config.Overlong s.source entries names ∧ fault = .nameTooLong := by
  have recursive := (ofConfig_ok_iff.1 resolved).recursive
  have size : ∀ inner, entries.at? names = some (.directory inner) →
      ((s.source.descend names).check = .error fault ↔
        Path.greatestSize < (s.source.descend names).text.utf8ByteSize ∧ fault = .nameTooLong) := by
    intro inner there
    have text := Path.checkText_descend (Entries.Raw.isName_of_at? proper there) (Path.checkText_of_check sound)
    rw [Path.check_eq text]
    split
    · rename_i long
      simp [long, eq_comm]
    · rename_i short
      simp [short]
  constructor
  · rintro ⟨down, ⟨inner, reached⟩, failed⟩
    obtain ⟨filled, there, -, included⟩ := reaches_iff.1 reached
    obtain ⟨long, named⟩ := (size inner there).1 failed
    exact ⟨⟨⟨inner, there⟩, filled, recursive ▸ down, (includes_ofConfig resolved names).1 included, long⟩, named⟩
  · rintro ⟨⟨⟨inner, there⟩, filled, down, included, long⟩, named⟩
    have kept := (includes_ofConfig resolved names).2 included
    have reached := reaches_iff.2 ⟨filled, there, .inl (recursive ▸ down), kept⟩
    exact ⟨recursive ▸ down, ⟨inner, reached⟩, (size inner there).2 ⟨long, named⟩⟩

theorem map_bytes_lt {names names' : List String} (less : names < names') : names.map bytes < names'.map bytes := by
  induction less with
  | nil => exact List.nil_lt_cons _ _
  | rel less => exact List.cons_lt_cons_iff.2 (.inl (bytes_lt less))
  | cons _ ih => exact List.cons_lt_cons_iff.2 (.inr ⟨rfl, ih⟩)

section Directory

variable (resolved : ofConfig home root config = .ok s) (leads : t.follow s.source = .ok (.directory entries))

include resolved leads

theorem collect_finds : s.Finds t s.source [] (s.Reaches [] entries) (s.collect t) ∧
    ∀ names fault, s.Stuck s.source (s.Reaches [] entries) names fault ↔
      config.Overlong s.source entries names ∧ fault = .nameTooLong := by
  have inside : entries.proper = true := FileTree.proper_of_follow leads
  have search : s.collect t = s.sourcesIn t s.source [] entries := by
    rw [collect, leads]
  rw [search]
  exact ⟨sourcesIn_finds inside s.source [], stuck_iff resolved (FileTree.check_of_follow leads) inside⟩

theorem collect_short (short : ∀ names, ¬ config.Overlong s.source entries names) :
    ∃ files, s.collect t = .ok files ∧ config.Collected s.language t s.source entries files := by
  obtain ⟨finds, stuck⟩ := collect_finds resolved leads
  cases found : s.collect t with
  | error e =>
      rw [found] at finds
      obtain ⟨names, fault, here, -⟩ := finds
      exact absurd ((stuck names fault).1 here).1 (short names)
  | ok files =>
      rw [found] at finds
      obtain ⟨-, members, sorted⟩ := finds
      have collected : ∀ f, f ∈ files ↔ ∃ names, config.Collects s.language t s.source entries names ∧
          f = ⟨s.source.descend names, names⟩ := by
        intro f
        rw [members]
        constructor
        · rintro ⟨names, node, reached, taken, rfl⟩
          exact ⟨names, (reaches_takes resolved names).1 ⟨node, reached, taken⟩, rfl⟩
        · rintro ⟨names, wanted, rfl⟩
          obtain ⟨node, reached, taken⟩ := (reaches_takes resolved names).2 wanted
          exact ⟨names, node, reached, taken, rfl⟩
      refine ⟨files, rfl, collected, fun f member => ?_, sorted.imp fun less => map_bytes_lt less⟩
      obtain ⟨names, ⟨⟨node, there, -⟩, -⟩, rfl⟩ := (collected f).1 member
      have named := Entries.Raw.isName_of_at? (FileTree.proper_of_follow leads) there
      have spelled : SourceFile.relative ⟨s.source.descend names, names⟩ = Path.descend ⟨""⟩ names :=
        (Path.descend_empty named).symm
      constructor
      · rw [spelled, Path.relativeTo_descend named]
      · rw [spelled, Path.parts_descend named]
        rfl

theorem collect_long (long : ∃ names, config.Overlong s.source entries names) :
    ∃ names, config.Overlong s.source entries names ∧
      s.collect t = .error (.directoryRead (s.source.descend names) .nameTooLong) ∧
      ∀ other, config.Overlong s.source entries other → names = other ∨ names.map bytes < other.map bytes := by
  obtain ⟨finds, stuck⟩ := collect_finds resolved leads
  cases found : s.collect t with
  | error e =>
      rw [found] at finds
      obtain ⟨names, fault, here, rfl, least⟩ := finds
      obtain ⟨long, rfl⟩ := (stuck names fault).1 here
      refine ⟨names, long, rfl, fun other there => ?_⟩
      exact (least other .nameTooLong ((stuck other _).2 ⟨there, rfl⟩)).imp_right map_bytes_lt
  | ok files =>
      rw [found] at finds
      obtain ⟨names, long⟩ := long
      exact absurd ((stuck names _).2 ⟨long, rfl⟩) (finds.1 names _)

end Directory

/-- A request whose source is a directory collects each entry that it asks for, unless a directory has to be listed
whose path is too long: the first one is reported then. -/
theorem collect_ofConfig (resolved : ofConfig home root config = .ok s)
    (leads : t.follow s.source = .ok (.directory entries)) :
    ((∀ names, ¬ config.Overlong s.source entries names) →
      ∃ files, s.collect t = .ok files ∧ config.Collected s.language t s.source entries files) ∧
    ((∃ names, config.Overlong s.source entries names) →
      ∃ names, config.Overlong s.source entries names ∧
        s.collect t = .error (.directoryRead (s.source.descend names) .nameTooLong) ∧
        ∀ other, config.Overlong s.source entries other →
          names = other ∨ names.map bytes < other.map bytes) :=
  ⟨collect_short resolved leads, collect_long resolved leads⟩

def request : Config := { source := some "src", recursive := true, exclude := ["./gen/"] }

def requested (root : Path) : Settings where
  source := root.join ⟨"src"⟩
  output := root.join ⟨"Embedded"⟩
  suffixes := [".swift"]
  excluded := [["gen"]]
  recursive := true
  profiles := {}
  language := .swift

theorem requested_ofConfig (root : Path) : ofConfig none root request = .ok (requested root) := rfl

def sources : Entries.Raw :=
  .entry "d" (.directory (.entry "a.swift" (.file .empty 0o644) .empty))
    (.entry "gen" (.directory (.entry "b.swift" (.file .empty 0o644) .empty))
      (.entry "l.swift" (.link ⟨"d"⟩) .empty))

def sourceTree : FileTree where
  entries := ⟨.entry "src" (.directory sources) .empty, by decide⟩

theorem sources_directories {names : List String} {inner : Entries.Raw}
    (there : sources.at? names = some (.directory inner)) :
    names = [] ∨ names = ["d"] ∨ names = ["gen"] := by
  rcases names with _ | ⟨name, rest⟩
  · exact .inl rfl
  · rw [Entries.Raw.at?] at there
    by_cases d : name = "d"
    · subst d
      cases rest with
      | nil => exact .inr (.inl rfl)
      | cons next rest =>
          by_cases file : next = "a.swift"
          · simp [sources, Entries.Raw.at?, Entries.Raw.find?, file] at there
          · simp [sources, Entries.Raw.at?, Entries.Raw.find?, Ne.symm file] at there
    · by_cases gen : name = "gen"
      · subst gen
        cases rest with
        | nil => exact .inr (.inr rfl)
        | cons next rest =>
            by_cases file : next = "b.swift"
            · simp [sources, Entries.Raw.at?, Entries.Raw.find?, file] at there
            · simp [sources, Entries.Raw.at?, Entries.Raw.find?, Ne.symm file] at there
      · by_cases link : name = "l.swift"
        · simp [sources, Entries.Raw.find?, link] at there
        · simp [sources, Entries.Raw.find?, Ne.symm d, Ne.symm gen, Ne.symm link] at there

theorem collect_ofConfig_sources :
    ofConfig none ⟨"/"⟩ request = .ok (requested ⟨"/"⟩) ∧
      sourceTree.follow (requested ⟨"/"⟩).source = .ok (.directory sources) ∧
      ∃ files, (requested ⟨"/"⟩).collect sourceTree = .ok files ∧
        request.Collected .swift sourceTree (requested ⟨"/"⟩).source sources files := by
  have resolved := requested_ofConfig ⟨"/"⟩
  have leads : sourceTree.follow (requested ⟨"/"⟩).source = .ok (.directory sources) := rfl
  have short : ∀ names, ¬ request.Overlong (requested ⟨"/"⟩).source sources names := by
    rintro names ⟨⟨inner, there⟩, filled, -, -, size⟩
    rcases sources_directories there with rfl | rfl | rfl
    · exact filled rfl
    · exact absurd size (by decide)
    · exact absurd size (by decide)
  exact ⟨resolved, leads, (collect_ofConfig resolved leads).1 short⟩

/-- The link leads to a directory, and `gen` is left out. -/
example : (requested ⟨"/"⟩).collect sourceTree = .ok [⟨⟨"/src/d/a.swift"⟩, ["d", "a.swift"]⟩] := by
  decide +kernel

def dots : Nat → String
  | 0 => ""
  | n + 1 => "/." ++ dots n

theorem size_dots (n : Nat) : (dots n).utf8ByteSize = 2 * n := by
  induction n with
  | zero => rfl
  | succ n ih =>
      have step : "/.".utf8ByteSize = 2 := by decide
      rw [dots, String.utf8ByteSize_append, ih, step]
      omega

theorem dots_last (n : Nat) : (dots (n + 1)).toList.getLast? = some '.' := by
  induction n with
  | zero => decide
  | succ n ih =>
      have filled : (dots (n + 1)).toList ≠ [] := by
        intro empty
        rw [empty] at ih
        cases ih
      rw [dots, String.toList_append, List.getLast?_append_of_ne_nil _ filled, ih]

theorem names_dots (n : Nat) :
    Path.names ⟨dots n ++ "/src"⟩ = List.replicate n "." ++ ["src"] := by
  induction n with
  | zero => decide
  | succ n ih =>
      have start : ∃ z, (dots n ++ "/src").toList = '/' :: z := by
        cases n with
        | zero => exact ⟨_, rfl⟩
        | succ n => exact ⟨_, by simp [dots]; rfl⟩
      obtain ⟨z, text⟩ := start
      have longer : (dots (n + 1) ++ "/src").toList = '/' :: '.' :: '/' :: z := by
        rw [dots, String.append_assoc, String.toList_append, text]
        rfl
      have front : cut '/' ('/' :: '.' :: '/' :: z) = [] :: ['.'] :: cut '/' z := by
        rw [cut_cons, if_pos rfl, cut_cons, if_neg (by decide), cut_cons, if_pos rfl]
      have back : cut '/' ('/' :: z) = [] :: cut '/' z := by
        rw [cut_cons, if_pos rfl]
      simp only [Path.names, cutString, text, longer, front, back] at ih ⊢
      rw [List.replicate_succ, List.cons_append, ← ih]
      rfl

theorem walkWith_dots {t : FileTree} {followLast : Bool} {follow : Location → List String → Except Fault Location}
    {place : Location} {entries : Entries.Raw} (here : t.node? place = some (.directory entries)) (later : List String)
    (n : Nat) : t.walkWith followLast follow (List.replicate n "." ++ later) place =
      t.walkWith followLast follow later place := by
  induction n with
  | zero => rfl
  | succ n ih =>
      rw [List.replicate_succ, List.cons_append, FileTree.walkWith, here]
      simpa using ih

theorem follow_dots (n : Nat) (short : 2 * n + 4 ≤ Path.greatestSize) :
    sourceTree.follow ⟨dots n ++ "/src"⟩ = .ok (.directory sources) := by
  have nul : ∀ n, '\x00' ∉ (dots n).toList := by
    intro n
    induction n with
    | zero => decide
    | succ n ih => simp [dots, ih]
  have text : Path.checkText ⟨dots n ++ "/src"⟩ = .ok () := by
    rw [Path.checkText_iff]
    simp [nul]
  have size : (dots n ++ "/src").utf8ByteSize = 2 * n + 4 := by
    have step : "/src".utf8ByteSize = 4 := by decide
    rw [String.utf8ByteSize_append, size_dots, step]
  have sound : Path.check ⟨dots n ++ "/src"⟩ = .ok () := by
    rw [Path.check_eq text, if_neg]
    rw [size]
    omega
  have steps : Path.steps ⟨dots n ++ "/src"⟩ = List.replicate n "." ++ ["src"] := by
    have last : Path.endsWithSlash ⟨dots n ++ "/src"⟩ = false := by
      rw [Path.endsWithSlash, String.toList_append, List.getLast?_append_of_ne_nil _ (by decide)]
      decide
    rw [Path.steps, last, names_dots]
    rfl
  have start : sourceTree.start ⟨dots n ++ "/src"⟩ = [] := by
    rw [FileTree.start]
    exact ite_self _
  have root : sourceTree.node? [] = some (.directory sourceTree.entries.raw) := rfl
  have place : sourceTree.resolve ⟨dots n ++ "/src"⟩ = .ok ["src"] := by
    rw [FileTree.resolve, sound, steps, start]
    change sourceTree.walk true 40 _ [] = _
    rw [FileTree.walk, walkWith_dots root]
    rfl
  rw [FileTree.follow, place]
  rfl

theorem source_dots (n : Nat) : (requested ⟨dots (n + 1)⟩).source = ⟨dots (n + 1) ++ "/src"⟩ := by
  have last := dots_last n
  have filled : (dots (n + 1)).toList ≠ [] := by
    intro empty
    rw [empty] at last
    cases last
  have solid : (dots (n + 1)).toList.getLast? ≠ some '/' := by
    rw [last]
    decide
  have joined : Path.join ⟨dots (n + 1)⟩ ⟨"src"⟩ = ⟨dots (n + 1) ++ "/" ++ "src"⟩ :=
    Path.join_solid (by decide) filled solid
  rw [requested, joined, String.append_assoc]
  rfl

theorem path_dots (n : Nat) :
    (requested ⟨dots (n + 1)⟩).source.descend ["d"] = ⟨dots (n + 1) ++ "/src" ++ "/" ++ "d"⟩ := by
  rw [source_dots, Path.descend_cons, Path.descend_nil]
  apply Path.join_solid (by decide)
  · simp
  · rw [String.toList_append, List.getLast?_append_of_ne_nil _ (by decide)]
    decide

/-- Not every request collects what it asks for: the source directory can be listed, the directory in it cannot. -/
theorem collect_not_total : ¬ ∀ (home : Option String) (root : Path) (config : Config) (s : Settings) (t : FileTree)
    (entries : Entries.Raw), ofConfig home root config = .ok s → t.follow s.source = .ok (.directory entries) →
      ∃ files, s.collect t = .ok files ∧ config.Collected s.language t s.source entries files := by
  intro every
  -- The path of `src` has 4094 bytes and can be followed, the path of `d` in it has 4096 and cannot.
  have resolved := requested_ofConfig ⟨dots 2045⟩
  have source := source_dots 2044
  have path := path_dots 2044
  have leads : sourceTree.follow (requested ⟨dots 2045⟩).source = .ok (.directory sources) := by
    rw [source]
    exact follow_dots 2045 (by decide)
  have included : request.Includes ["d"] := by
    rintro above - start entry member rfl
    obtain rfl : entry = "./gen/" := by simpa [request] using member
    exact absurd start (by decide)
  have long : request.Overlong (requested ⟨dots 2045⟩).source sources ["d"] := by
    refine ⟨⟨_, rfl⟩, by simp, rfl, included, ?_⟩
    have letter : "d".utf8ByteSize = 1 ∧ "/".utf8ByteSize = 1 ∧ "/src".utf8ByteSize = 4 := by decide
    rw [path, String.utf8ByteSize_append, String.utf8ByteSize_append, String.utf8ByteSize_append, size_dots,
      letter.1, letter.2.1, letter.2.2]
    decide
  obtain ⟨names, -, failed, -⟩ := collect_long resolved leads ⟨["d"], long⟩
  obtain ⟨files, found, -⟩ := every _ _ _ _ _ _ resolved leads
  rw [failed] at found
  cases found

end Settings

end SourceBundle
