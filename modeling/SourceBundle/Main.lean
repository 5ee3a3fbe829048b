import SourceBundle.Command.Execution

/-!
The program. What the run can look at is read into a file tree first; the run itself is the function
`Command.runWith`, and what it changed is written back.
-/

namespace SourceBundle.Disk

def entry (place : Location) (name : String) : IO.FS.DirEntry := ⟨(FileTree.spell place).text, name⟩

def kind? (e : IO.FS.DirEntry) : IO (Option IO.FS.FileType) := do
  try
    return some (← e.path.symlinkMetadata).type
  catch _ => return none

def add (t : FileTree) (place : Location) (node : Node) : FileTree :=
  match node, t.node? place with
  | .directory _, some (.directory _) => t
  | _, _ => { t with entries := t.entries.place node place }

/-- Where a link leads, without further links. A target that is not there gets a name of its own. -/
def target (e : IO.FS.DirEntry) : IO Path := do
  if ← e.path.pathExists then return ⟨(← IO.FS.realPath e.path).toString⟩
  else return ⟨e.fileName ++ " (missing)"⟩

partial def along (t : FileTree) (place : Location) : List String → IO (FileTree × Location)
  | [] => return (t, place)
  | step :: later => do
      if step == "." then along t place later
      else if step == ".." then along t place.dropLast later
      else
        let e := entry place step
        let here := place ++ [step]
        match ← kind? e with
        | some .dir => along (add t here (.directory .empty)) here later
        | some .file =>
            return (add t here (.file (← IO.FS.readBinFile e.path) FileTree.standardMode), here)
        | some .symlink => do
            let target ← target e
            let t := add t here (.link target)
            if target.isAbsolute then along t [] (target.steps ++ later) else return (t, here)
        | _ => return (t, here)

partial def below (t : FileTree) (place : Location) : IO FileTree := do
  let found ← try (entry place "").root.readDir catch _ => pure #[]
  let mut t := t
  for e in found do
    t := (← along t place [e.fileName]).1
    if let some .dir := ← kind? e then
      t ← below t (place ++ [e.fileName])
  return t

def loadPath (t : FileTree) (p : Path) : IO FileTree := do
  return (← along t (t.start p) p.steps).1

def loadDirectory (t : FileTree) (p : Path) : IO FileTree := do
  let (t, place) ← along t (t.start p) p.steps
  below t place

def rights (mode : Nat) : IO.FileRight :=
  let right (n : Nat) : IO.AccessRight := ⟨n / 4 % 2 = 1, n / 2 % 2 = 1, n % 2 = 1⟩
  ⟨right (mode / 64), right (mode / 8), right mode⟩

def store (change : Location × Node) : IO Unit := do
  let path := (FileTree.spell change.1).text
  match change.2 with
  | .directory _ => IO.FS.createDir path
  | .file content mode =>
      let staged := path ++ "." ++ toString (← IO.monoNanosNow)
      IO.FS.writeBinFile staged content
      IO.setAccessRights staged (rights mode)
      IO.FS.rename staged path
  | .link _ => return

end SourceBundle.Disk

open SourceBundle in
def main (arguments : List String) : IO UInt32 := do
  let finish (outcome : Command.Outcome) : IO UInt32 := do
    IO.print outcome.stdout
    IO.eprint outcome.stderr
    return outcome.exitCode.toUInt32
  match Command.Options.read arguments with
  | .error stop => finish (.stopped stop)
  | .ok options => do
      let env : Environment :=
        { home := ← IO.getEnv "HOME", projectRoot := ← IO.getEnv "PROJECT_ROOT" }
      let current : Path := ⟨(← IO.currentDir).toString⟩
      let empty : FileTree := { entries := .empty, current := current.names }
      let mut t ← Disk.loadPath empty current
      t ← Disk.loadPath t (env.rootCandidate t options.projectRoot)
      match env.root t options.projectRoot with
      | .error error => finish (.failed .root error)
      | .ok root => do
          t ← Disk.loadDirectory t (Config.directory root)
          if let some name := options.config then
            let asked := root.join (Path.expandHome env.home name)
            t ← Disk.loadPath t asked
            t ← Disk.loadPath t (asked.addExtension Config.extension)
          if let .ok (_, settings) := Command.prepare env options t then
            t ← Disk.loadDirectory t settings.source
            t ← Disk.loadPath t settings.output
          let (changed, outcome) := Command.runWith env options t
          (changed.changesSince t).forM Disk.store
          finish outcome
