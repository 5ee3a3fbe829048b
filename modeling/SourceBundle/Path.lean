import SourceBundle.Text.Lines

/-!
Paths. A path is kept as it is spelled; two spellings name the same way through the tree when their
parts agree. Empty segments and segments `.` are no parts, except for a `.` that opens a relative
path.
-/

namespace SourceBundle

structure Path where
  text : String
  deriving DecidableEq, Repr, Inhabited

namespace Path

inductive Part where
  | root
  | here
  | up
  | name (s : String)
  deriving DecidableEq, Repr

def Part.text : Part → String
  | root => "/"
  | here => "."
  | up => ".."
  | name s => s

def isAbsolute (p : Path) : Bool := p.text.toList.head? == some '/'

def segments (p : Path) : List Char × List (List Char) :=
  match Text.cut '/' p.text.toList with
  | [] => ([], [])
  | first :: later => (first, later)

def isIdle (segment : List Char) : Bool := segment == [] || segment == ['.']

def Part.ofSegment (segment : List Char) : Part :=
  if segment = ['.', '.'] then up else name (String.ofList segment)

def laterParts (segments : List (List Char)) : List Part :=
  (segments.filter fun s => !isIdle s).map .ofSegment

def parts (p : Path) : List Part :=
  match p.segments with
  | ([], later) => if p.isAbsolute then .root :: laterParts later else laterParts later
  | (['.'], later) => .here :: laterParts later
  | (first, later) => .ofSegment first :: laterParts later

def ofSegments (first : List Char) (later : List (List Char)) : Path :=
  if first.isEmpty && later.isEmpty then ⟨"/"⟩
  else ⟨String.ofList (later.foldl (fun s segment => s ++ '/' :: segment) first)⟩

/-- The path `q` seen from the directory `p`. An absolute `q` stands for itself. -/
def join (p q : Path) : Path :=
  if q.isAbsolute then q
  else if p.text.isEmpty || p.text.toList.getLast? == some '/' then ⟨p.text ++ q.text⟩
  else ⟨p.text ++ "/" ++ q.text⟩

def parent? (p : Path) : Option Path :=
  match p.segments with
  | (first, later) =>
    match later.reverse.dropWhile isIdle with
    | _ :: others => some (ofSegments first (others.dropWhile isIdle).reverse)
    | [] => if first.isEmpty then none else some ⟨""⟩

def fileName? (p : Path) : Option String :=
  match p.parts.getLast? with
  | some (.name s) => some s
  | _ => none

/-- What follows the last dot of a name that does not begin with that dot. -/
def extensionOf? (name : String) : Option String :=
  match (Text.cutString '.' name).reverse with
  | last :: before :: others => if others.isEmpty && before.isEmpty then none else some last
  | _ => none

def extension? (p : Path) : Option String := p.fileName?.bind extensionOf?

def addExtension (p : Path) (extension : String) : Path :=
  match p.fileName?, p.segments with
  | none, _ => p
  | some _, (first, later) =>
      ⟨(ofSegments first (later.reverse.dropWhile isIdle).reverse).text ++ "." ++ extension⟩

/-- The parts in a row, each seen from the ones before it. -/
def ofParts (parts : List Part) : Path :=
  parts.foldl (fun p part => p.join ⟨part.text⟩) ⟨""⟩

/-- The way from the parts `base` to the parts `target`: up out of what remains of `base` where the
two differ, then down. No part of `base` is `..`. -/
def wayFrom : List Part → List Part → List Part
  | b :: base, t :: target =>
      if t = b then wayFrom base target else (b :: base).map (fun _ => .up) ++ t :: target
  | base, target => base.map (fun _ => .up) ++ target

def relativeTo (p base : Path) : Path := ofParts (wayFrom base.parts p.parts)

/-- Puts the home directory in the place of a leading `~` that stands alone before a slash. -/
def expandHome (home : Option String) (s : String) : Path :=
  match s.toList, home with
  | ['~'], some home => ⟨home⟩
  | '~' :: '/' :: rest, some home => ⟨home ++ String.ofList ('/' :: rest)⟩
  | _, _ => ⟨s⟩

end Path

end SourceBundle
