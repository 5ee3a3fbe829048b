import SourceBundle.FileTree.Entries
import SourceBundle.FileTree.Fault

/-!
The file tree and the ways through it. A path is followed step by step from the root directory or
from the current one; a link on the way stands for the steps of its target. Every question about a
path is answered by where it leads.
-/

namespace SourceBundle

structure FileTree where
  entries : Entries
  current : Location := []

namespace Path

def names (p : Path) : List String := (Text.cutString '/' p.text).filter fun s => !s.isEmpty

def endsWithSlash (p : Path) : Bool := p.text.toList.getLast? == some '/'

/-- The steps along a path. A slash at the end asks for a directory, as a last step `.` does. -/
def steps (p : Path) : List String := if p.endsWithSlash then p.names ++ ["."] else p.names

def greatestSize : Nat := 4095

def greatestNameSize : Nat := 255

def checkText (p : Path) : Except Fault Unit :=
  if p.text.toList.contains '\x00' then .error .nulInPath
  else if p.text.isEmpty then .error .missing
  else .ok ()

def check (p : Path) : Except Fault Unit := do
  p.checkText
  if greatestSize < p.text.utf8ByteSize then .error .nameTooLong

end Path

namespace FileTree

def node? (t : FileTree) (place : Location) : Option Node := t.entries.raw.at? place

def lookUp (name : String) (entries : Entries.Raw) : Except Fault Node :=
  if Path.greatestNameSize < name.utf8ByteSize then .error .nameTooLong
  else match entries.find? name with
    | some node => .ok node
    | none => .error .missing

/-- Goes along steps from a directory. A link hands the steps of its target and those still to go to
`follow`, with the directory from which they go on; a link at the end is followed only on demand. -/
def walkWith (t : FileTree) (followLast : Bool)
    (follow : Location → List String → Except Fault Location) :
    List String → Location → Except Fault Location
  | [], place => .ok place
  | step :: later, place =>
      match t.node? place with
      | some (.directory entries) =>
          if step = "." then t.walkWith followLast follow later place
          else if step = ".." then t.walkWith followLast follow later place.dropLast
          else match lookUp step entries with
            | .error fault => .error fault
            | .ok (.link target) =>
                if later.isEmpty && !followLast then .ok (place ++ [step])
                else follow (if target.isAbsolute then [] else place) (target.steps ++ later)
            | .ok _ => t.walkWith followLast follow later (place ++ [step])
      | some _ => .error .notDirectory
      | none => .error .missing

def walk (t : FileTree) (followLast : Bool) : Nat → List String → Location → Except Fault Location
  | 0, steps, place => t.walkWith followLast (fun _ _ => .error .tooManyLinks) steps place
  | links + 1, steps, place =>
      t.walkWith followLast (fun place later => t.walk followLast links later place) steps place

def greatestLinks : Nat := 40

def start (t : FileTree) (p : Path) : Location := if p.isAbsolute then [] else t.current

def resolve (t : FileTree) (p : Path) : Except Fault Location := do
  p.check
  t.walk true greatestLinks p.steps (t.start p)

def follow (t : FileTree) (p : Path) : Except Fault Node := do
  let place ← t.resolve p
  match t.node? place with
  | some node => .ok node
  | none => .error .missing

def isDirectory (t : FileTree) (p : Path) : Bool :=
  match t.follow p with
  | .ok (.directory _) => true
  | _ => false

def isFile (t : FileTree) (p : Path) : Bool :=
  match t.follow p with
  | .ok (.file _ _) => true
  | _ => false

def leadsSomewhere (t : FileTree) (p : Path) : Bool :=
  match t.follow p with
  | .ok _ => true
  | .error _ => false

def mode? (t : FileTree) (p : Path) : Option Nat :=
  match t.follow p with
  | .ok (.file _ mode) => some mode
  | _ => none

def read (t : FileTree) (p : Path) : Except Fault ByteArray := do
  match ← t.follow p with
  | .file content _ => .ok content
  | .directory _ => .error .isDirectory
  | .link _ => .error .tooManyLinks

def spell (place : Location) : Path := ⟨"/" ++ "/".intercalate place⟩

/-- The path without links to the place to which a path leads. The path is followed one step at a
time, so that it may have any size. -/
def canonical (t : FileTree) (p : Path) : Except Fault Path := do
  p.checkText
  return spell (← t.walk true greatestLinks p.steps (t.start p))

end FileTree

end SourceBundle
