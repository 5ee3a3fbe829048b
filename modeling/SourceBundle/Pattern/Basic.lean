import SourceBundle.Text.Word

/-!
Rewriting patterns. A pattern reads a stretch of text at a cursor and says what is written in its
place: a character that is read is written again unless it stands under `drop`, and `write` adds
text of its own. Where a pattern can be read in several ways the ways are tried in a fixed order,
and the first that lets the rest of the pattern succeed is taken.
-/

namespace SourceBundle

structure Cursor where
  previous : Option Char
  rest : List Char
  written : List Char
  deriving DecidableEq, Repr

namespace Cursor

def ofText (s : List Char) : Cursor := ⟨none, s, []⟩

def forward (c : Cursor) : Cursor :=
  match c.rest with
  | [] => c
  | x :: rest => ⟨some x, rest, x :: c.written⟩

def forwardWhile (p : Char → Bool) (previous : Option Char) (written : List Char) :
    List Char → Cursor
  | [] => ⟨previous, [], written⟩
  | x :: rest =>
      if p x then forwardWhile p (some x) (x :: written) rest else ⟨previous, x :: rest, written⟩

def forwardOver (s : List Char) (c : Cursor) : Option Cursor :=
  match s with
  | [] => some c
  | x :: s =>
      match c.rest with
      | [] => none
      | y :: rest => if x = y then forwardOver s ⟨some y, rest, y :: c.written⟩ else none

def meets (p : Char → Bool) (c : Cursor) : Bool :=
  match c.rest with
  | [] => false
  | x :: _ => p x

def atLineStart (c : Cursor) : Bool :=
  match c.previous with
  | none => true
  | some x => x == '\n'

def atTextEnd (c : Cursor) : Bool := c.rest.isEmpty

def atWordEdge (c : Cursor) : Bool := c.previous.any Text.isWord != c.meets Text.isWord

def text (c : Cursor) : List Char := c.written.reverse ++ c.rest

end Cursor

inductive Pattern where
  | one (p : Char → Bool)
  | text (s : List Char)
  /-- The characters of a class that come next, all of them; there may have to be one. -/
  | all (nonempty : Bool) (p : Char → Bool)
  /-- Characters of a class, as few as possible. -/
  | few (p : Char → Bool)
  /-- Characters of a class, as few as possible, up to where a run of another class starts. -/
  | upTo (run p : Char → Bool)
  | andThen (first second : Pattern)
  | orElse (first second : Pattern)
  | repeated (body : Pattern)
  | lineStart
  | textEnd
  | wordEdge
  /-- Reads as the body does and writes nothing. -/
  | drop (body : Pattern)
  /-- Reads nothing and writes the given text. -/
  | write (s : List Char)

namespace Pattern

def append : Pattern → Pattern → Pattern
  | andThen a b, c => andThen a (append b c)
  | a, c => andThen a c

instance : Append Pattern := ⟨append⟩

def optional (body : Pattern) : Pattern := orElse body (text [])

def anyOf : List Pattern → Pattern
  | [] => one fun _ => false
  | [body] => body
  | body :: others => orElse body (anyOf others)

def anyText (choices : List String) : Pattern := anyOf (choices.map fun s => text s.toList)

abbrev Continuation := Cursor → Option Cursor

def takeMore (p : Char → Bool) (k : Continuation) (previous : Option Char) (written : List Char) :
    List Char → Option Cursor
  | [] => k ⟨previous, [], written⟩
  | x :: rest =>
      match k ⟨previous, x :: rest, written⟩ with
      | some d => some d
      | none => if p x then takeMore p k (some x) (x :: written) rest else none

def takeUpTo (run p : Char → Bool) (k : Continuation) (inRun : Bool) (previous : Option Char)
    (written : List Char) : List Char → Option Cursor
  | [] => none
  | x :: rest =>
      match if run x && !inRun then k ⟨previous, x :: rest, written⟩ else none with
      | some d => some d
      | none => if p x then takeUpTo run p k (run x) (some x) (x :: written) rest else none

def rounds (step : Cursor → Continuation → Option Cursor) (k : Continuation) :
    List Char → Cursor → Option Cursor
  | [], c => k c
  | _ :: bound, c =>
      match step c (rounds step k bound) with
      | some d => some d
      | none => k c

def read : Pattern → Cursor → Continuation → Option Cursor
  | one p, c, k => if c.meets p then k c.forward else none
  | text s, c, k =>
      match c.forwardOver s with
      | some d => k d
      | none => none
  | all nonempty p, c, k =>
      if nonempty && !c.meets p then none else k (.forwardWhile p c.previous c.written c.rest)
  | few p, c, k => takeMore p k c.previous c.written c.rest
  | upTo run p, c, k => takeUpTo run p k false c.previous c.written c.rest
  | andThen a b, c, k => a.read c fun d => b.read d k
  | orElse a b, c, k =>
      match a.read c k with
      | some d => some d
      | none => b.read c k
  | repeated a, c, k => rounds (fun d j => a.read d j) k c.rest c
  | lineStart, c, k => if c.atLineStart then k c else none
  | textEnd, c, k => if c.atTextEnd then k c else none
  | wordEdge, c, k => if c.atWordEdge then k c else none
  | drop a, c, k => a.read c fun d => k { d with written := c.written }
  | write s, c, k => k { c with written := s.reverse ++ c.written }

def match? (p : Pattern) (c : Cursor) : Option Cursor := p.read c some

/-- The class of the run with which the pattern begins, if it begins with one. Where such a pattern
cannot be read it cannot be read further on in the same run either, since that has the same end. -/
def leadingRun? : Pattern → Option (Char → Bool)
  | all _ p => some p
  | andThen a _ => a.leadingRun?
  | drop a => a.leadingRun?
  | _ => none

def copy (run : Option (Char → Bool)) (c : Cursor) : Cursor :=
  match run with
  | none => c.forward
  | some p => if c.meets p then .forwardWhile p c.previous c.written c.rest else c.forward

/-- Goes through the text from left to right: where the pattern can be read it is, and elsewhere the
text is copied. The pattern must read at least one character, so that the text bounds the number of
steps. -/
def sweep (p : Pattern) (run : Option (Char → Bool)) : List Char → Cursor → Cursor
  | [], c => c
  | _ :: bound, c =>
      if c.atTextEnd then c
      else match p.match? c with
        | some d => sweep p run bound d
        | none => sweep p run bound (copy run c)

def rewrite (p : Pattern) (s : List Char) : List Char := (p.sweep p.leadingRun? s (.ofText s)).text

end Pattern

end SourceBundle
