import SourceBundle.Collect
import SourceBundle.FileTree.Change

/-!
Making the bundle. `Settings.plan` shows what every source file becomes and changes nothing;
`Settings.run` puts the bundle in its place, or leaves every file as it was.
-/

namespace SourceBundle

structure Buffer where
  bytes : ByteArray := .empty
  files : Nat := 0

namespace Buffer

def separator : UInt8 := 10

def append (b : Buffer) (content : String) : Buffer :=
  ⟨b.bytes.push separator ++ content.toUTF8, b.files + 1⟩

def size (b : Buffer) : Nat := b.bytes.size

def isEmpty (b : Buffer) : Bool := b.size == 0

def stagingDirectory (p : Path) : Path :=
  match p.parent? with
  | some above => if above.text.isEmpty then ⟨"."⟩ else above
  | none => ⟨"."⟩

/-- The path of a file that is put together in a directory. Its name is a new one; all such names have
the same size. -/
def stagingPath (directory : Path) : Path := directory.join ⟨".tmp000000"⟩

def write (b : Buffer) (t : FileTree) (p : Path) : FileTree × Except Error Nat :=
  let directory := stagingDirectory p
  match t.createDirectories directory.text.utf8ByteSize directory with
  | (made, some fault) => (made, .error (.directoryCreation directory fault))
  | (made, none) =>
      match (stagingPath directory).check >>= fun _ => made.replaceFile p b.bytes with
      | .error fault => (made, .error (.fileWrite p fault))
      | .ok written => (written, .ok b.size)

end Buffer

structure RewrittenFile where
  file : SourceFile
  sourceSize : Nat
  content : String
  deriving DecidableEq, Repr

structure Receipt where
  output : Path
  files : List SourceFile
  bytesWritten : Nat
  deriving DecidableEq, Repr

namespace Settings

def sourceText (t : FileTree) (f : SourceFile) : Except Error String :=
  match t.read f.path with
  | .error fault => .error (.fileRead f.path fault)
  | .ok bytes =>
      match String.fromUTF8? bytes with
      | none => .error (.fileDecode f.path)
      | some text => .ok text

def rewritten (s : Settings) (t : FileTree) (f : SourceFile) : Except Error RewrittenFile := do
  let text ← sourceText t f
  return ⟨f, text.utf8ByteSize, String.ofList (s.ruleSet.rewrite text.toList)⟩

def plan (s : Settings) (t : FileTree) : Except Error (List RewrittenFile) := do
  (← s.collect t).mapM (s.rewritten t)

def fill (s : Settings) (t : FileTree) : List SourceFile → Buffer → Except Error Buffer
  | [], b => .ok b
  | f :: later, b =>
      match s.rewritten t f with
      | .error e => .error e
      | .ok r => s.fill t later (b.append r.content)

/-- Puts the bundle together and has it written. Nothing is changed before every source file has
been read. -/
def runBy (s : Settings) (write : Buffer → FileTree → Path → FileTree × Except Error Nat)
    (t : FileTree) : FileTree × Except Error Receipt :=
  match s.collect t with
  | .error e => (t, .error e)
  | .ok files =>
      match s.fill t files {} with
      | .error e => (t, .error e)
      | .ok buffer =>
          match write buffer t s.output with
          | (changed, .error e) => (changed, .error e)
          | (changed, .ok size) => (changed, .ok ⟨s.output, files, size⟩)

def run (s : Settings) (t : FileTree) : FileTree × Except Error Receipt := s.runBy Buffer.write t

end Settings

end SourceBundle
