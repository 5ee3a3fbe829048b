import SourceBundle.FileTree.Walk
import SourceBundle.Settings

/-!
Collecting the source files of a run. The source directory is gone through depth first, and the
entries of a directory in the order of their names. Excluded entries are left out with everything
below them, and links are not entered.
-/

namespace SourceBundle

structure SourceFile where
  path : Path
  below : List String
  deriving DecidableEq, Repr

namespace SourceFile

def relative (f : SourceFile) : Path := ⟨"/".intercalate f.below⟩

end SourceFile

namespace Settings

def excludesNames (s : Settings) (names : List String) : Bool := s.excludes (names.map .name)

/-- The source files in a directory, which has the path `above` and is reached from the source
directory by the names `below`. A directory in it is listed by its path, and the first that cannot be
listed ends the search. -/
def sourcesIn (s : Settings) (t : FileTree) (above : Path) (below : List String) :
    Entries.Raw → Except Error (List SourceFile)
  | .empty => .ok []
  | .entry name node others => do
      let path := above.join ⟨name⟩
      let names := below ++ [name]
      let found ←
        if s.excludesNames names then .ok []
        else match node with
          | .directory inner =>
              if s.recursive then
                match path.check with
                | .error fault => .error (.directoryRead path fault)
                | .ok () => s.sourcesIn t path names inner
              else .ok []
          | .file _ _ => .ok (if s.accepts name then [⟨path, names⟩] else [])
          | .link _ => .ok (if !t.isDirectory path && s.accepts name then [⟨path, names⟩] else [])
      let later ← s.sourcesIn t above below others
      return found ++ later

/-- The source files of a run. A source that is a file has none below it. -/
def collect (s : Settings) (t : FileTree) : Except Error (List SourceFile) :=
  match t.follow s.source with
  | .error fault => .error (.directoryRead s.source fault)
  | .ok (.directory entries) => s.sourcesIn t s.source [] entries
  | .ok _ => .ok []

end Settings

end SourceBundle
