import SourceBundle.FileTree.Walk

/-!
Changes of the file tree: making directories, and replacing a file in one step. Each returns the
tree after the change or, if it is refused, the reason.
-/

namespace SourceBundle.FileTree

def parent (t : FileTree) (p : Path) : Except Fault (Location × Entries.Raw × String) := do
  p.check
  match p.names.reverse with
  | [] => .ok ([], t.entries.raw, ".")
  | last :: above => do
      let place ← t.walk true greatestLinks above.reverse (t.start p)
      match t.node? place with
      | some (.directory entries) => .ok (place, entries, last)
      | some _ => .error .notDirectory
      | none => .error .missing

def put (t : FileTree) (place : Location) (name : String) (node : Node) : FileTree :=
  { t with entries := t.entries.insertAt place name node }

def isDots (name : String) : Bool := name == "." || name == ".."

def createDirectory (t : FileTree) (p : Path) : Except Fault FileTree := do
  let (place, entries, name) ← t.parent p
  if isDots name then .error .occupied
  else match lookUp name entries with
    | .ok _ => .error .occupied
    | .error .missing => .ok (t.put place name (.directory .empty))
    | .error fault => .error fault

def ensureDirectory (t : FileTree) (p : Path) : FileTree × Option Fault :=
  match t.createDirectory p with
  | .ok made => (made, none)
  | .error fault => (t, if t.isDirectory p then none else some fault)

/-- Makes a directory and, where it lacks them, the directories that lead to it. The ones that were
made before a refusal stay. -/
def createDirectories (t : FileTree) : Nat → Path → FileTree × Option Fault
  | 0, p => t.ensureDirectory p
  | bound + 1, p =>
      match t.ensureDirectory p, p.parent? with
      | (_, some .missing), some above =>
          if above.text.isEmpty then t.ensureDirectory p
          else match t.createDirectories bound above with
            | (made, none) => made.ensureDirectory p
            | (made, some fault) => (made, some fault)
      | result, _ => result

def standardMode : Nat := 0o644

def destination (t : FileTree) (p : Path) : Except Fault (Location × String) := do
  let (place, entries, name) ← t.parent p
  if isDots name then .error .busy
  else match lookUp name entries with
    | .error .nameTooLong => .error .nameTooLong
    | found =>
        if p.endsWithSlash then .error .notDirectory
        else match found with
          | .ok (.directory _) => .error .isDirectory
          | _ => .ok (place, name)

/-- Puts a file with the given content where the path names an entry. A file or link that is there
gives way; the mode is that of the file to which the path led. -/
def replaceFile (t : FileTree) (p : Path) (content : ByteArray) : Except Fault FileTree := do
  let (place, name) ← t.destination p
  .ok (t.put place name (.file content ((t.mode? p).getD standardMode)))

/-- A node that does not stand for the same as another, what is in directories aside. -/
def differs : Node → Node → Bool
  | .directory _, .directory _ => false
  | .file content mode, .file other otherMode => content != other || mode != otherMode
  | .link target, .link other => target != other
  | _, _ => true

def changesSince (t earlier : FileTree) : List (Location × Node) :=
  (t.entries.raw.listing []).filter fun (place, node) =>
    match earlier.node? place with
    | some old => differs old node
    | none => true

def remove (t : FileTree) (place : Location) : FileTree :=
  match place.reverse with
  | [] => t
  | name :: above => { t with entries := t.entries.eraseAt above.reverse name }

end SourceBundle.FileTree
