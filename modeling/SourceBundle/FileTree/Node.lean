import SourceBundle.Path

/-!
Files, links and directories as values. `Entries.Raw` is any list of named nodes; the directories of a
file tree are of the kind that `Entries` describes.
-/

namespace SourceBundle

mutual

inductive Node where
  | file (content : ByteArray) (mode : Nat)
  | link (target : Path)
  | directory (entries : Entries.Raw)

inductive Entries.Raw where
  | empty
  | entry (name : String) (node : Node) (others : Entries.Raw)

end

instance : Inhabited Entries.Raw := ⟨.empty⟩

abbrev Location := List String

namespace Entries.Raw

def names : Entries.Raw → List String
  | empty => []
  | entry name _ others => name :: others.names

def find? (name : String) : Entries.Raw → Option Node
  | empty => none
  | entry n node others => if n = name then some node else others.find? name

def insert (name : String) (node : Node) : Entries.Raw → Entries.Raw
  | empty => entry name node empty
  | entry n old others =>
      if name = n then entry name node others
      else if name < n then entry name node (entry n old others)
      else entry n old (others.insert name node)

def erase (name : String) : Entries.Raw → Entries.Raw
  | empty => empty
  | entry n node others => if n = name then others else entry n node (others.erase name)

def at? : Location → Entries.Raw → Option Node
  | [], entries => some (.directory entries)
  | name :: below, entries =>
      match entries.find? name with
      | some (.directory inner) => inner.at? below
      | some node => if below.isEmpty then some node else none
      | none => none

def editAt (edit : Entries.Raw → Entries.Raw) : Location → Entries.Raw → Entries.Raw
  | [], entries => edit entries
  | name :: below, entries =>
      match entries.find? name with
      | some (.directory inner) => entries.insert name (.directory (inner.editAt edit below))
      | _ => entries

/-- Puts a node at a place, with the directories on the way to it; what is no directory there gives
way to one. -/
def place (node : Node) : Location → Entries.Raw → Entries.Raw
  | [], entries => entries
  | [name], entries => entries.insert name node
  | name :: below, entries =>
      match entries.find? name with
      | some (.directory inner) => entries.insert name (.directory (inner.place node below))
      | _ => entries.insert name (.directory (empty.place node below))

end Entries.Raw

mutual

/-- Everything at and below a node, each with the names that lead to it, a directory before what is
in it. -/
def Node.listing (above : Location) : Node → List (Location × Node)
  | .file content mode => [(above, .file content mode)]
  | .link target => [(above, .link target)]
  | .directory entries => (above, .directory entries) :: entries.listing above

def Entries.Raw.listing (above : Location) : Entries.Raw → List (Location × Node)
  | .empty => []
  | .entry name node others => node.listing (above ++ [name]) ++ others.listing above

end

end SourceBundle
