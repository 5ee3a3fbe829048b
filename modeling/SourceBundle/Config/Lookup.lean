import SourceBundle.Config.Document
import SourceBundle.Error
import SourceBundle.FileTree.Walk

/-!
Finding the project root and the configuration file of a run. A configuration file is asked for by
its path, by its name in the directory for them, or not at all.
-/

namespace SourceBundle

structure Environment where
  home : Option String := none
  /-- The project root for runs that name none. -/
  projectRoot : Option String := none
  deriving DecidableEq, Repr

inductive ConfigChoice where
  | disabled
  | standard
  | named (s : String)
  deriving DecidableEq, Repr

namespace Environment

/-- The path that is to be the project root: the one asked for, else the one of the environment
unless it is blank, else the current directory. -/
def rootCandidate (env : Environment) (t : FileTree) (asked : Option String) : Path :=
  match asked, env.projectRoot.map Text.trimmed with
  | some root, _ => Path.expandHome env.home root
  | none, some root =>
      if root.isEmpty then FileTree.spell t.current else Path.expandHome env.home root
  | none, none => FileTree.spell t.current

def root (env : Environment) (t : FileTree) (asked : Option String) : Except Error Path :=
  let candidate := env.rootCandidate t asked
  match t.canonical candidate with
  | .ok root => .ok root
  | .error fault => .error (.projectRoot candidate fault)

end Environment

namespace Config

def directory (root : Path) : Path := root.join ⟨".consolidate"⟩

def standardName : String := "consolidate.toml"

def extension : String := "toml"

/-- The text asks for a path and not for a name: it is absolute, has several parts or a slash. -/
def asksForPath (text : String) (path : Path) : Bool :=
  path.isAbsolute || 1 < path.parts.length || text.toList.any fun c => c == '/' || c == '\\'

/-- The file at a path. A path without an extension that leads nowhere gets one. -/
def fileAt (t : FileTree) (path : Path) : Except Error Path :=
  let path :=
    if !t.leadsSomewhere path && path.extension?.isNone then path.addExtension extension else path
  if t.isFile path then .ok path else .error (.noConfigFile path)

def fileNamed (t : FileTree) (root : Path) (asked : String) (name : Path) : Except Error Path :=
  let file := if name.extension? = some extension then name.text else name.text ++ "." ++ extension
  let path := (directory root).join ⟨file⟩
  if t.isFile path then .ok path else .error (.noNamedConfig asked (directory root))

def locate (env : Environment) (t : FileTree) (root : Path) :
    ConfigChoice → Except Error (Option Path)
  | .disabled => .ok none
  | .standard =>
      let path := (directory root).join ⟨standardName⟩
      .ok (if t.isFile path then some path else none)
  | .named asked =>
      let path := Path.expandHome env.home asked
      if asksForPath asked path then (fileAt t (root.join path)).map some
      else (fileNamed t root asked path).map some

def loadFile (t : FileTree) (path : Path) : Except Error Config :=
  match t.read path with
  | .error fault => .error (.fileRead path fault)
  | .ok bytes =>
      match String.fromUTF8? bytes with
      | none => .error (.fileRead path .notText)
      | some text =>
          match ofDocument text.toList with
          | .error fault => .error (.configSyntax path fault.message)
          | .ok config => .ok config

def load (env : Environment) (t : FileTree) (root : Path) (choice : ConfigChoice) :
    Except Error Config := do
  match ← locate env t root choice with
  | none => return {}
  | some path => loadFile t path

end Config

end SourceBundle
