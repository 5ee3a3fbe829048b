import SourceBundle.Config
import SourceBundle.Toml.Document

/-!
Configuration files. A file has the sections `general`, `filters` and `profiles`, each a table with
keys of its own, all of which may be left out; any other key is refused. A section can also be
written as an array of the values in the order of its keys.
-/

namespace SourceBundle.Config

open Toml

def generalKeys : List String := ["source", "lang", "output", "recursive"]

def filterKeys : List String := ["suffixes", "exclude"]

def profileKeys : List String := ["embedded", "production"]

def sectionKeys : List String := ["general", "filters", "profiles"]

def knows (keys : List String) (fields : Fields) : Bool :=
  fields.all fun field => keys.contains field.1

def sectionFields? (keys : List String) : Value → Option Fields
  | .table _ fields => if knows keys fields then some fields else none
  | .array _ items => some (keys.zip items)
  | _ => none

def section? (name : String) (keys : List String) (root : Fields) : Option Fields :=
  match root.find? name with
  | none => some []
  | some v => sectionFields? keys v

/-- A value that may be left out; a value of another kind is refused. -/
def optional? {α : Type} (read : Value → Option α) (key : String) (fields : Fields) :
    Option (Option α) :=
  match fields.find? key with
  | none => some none
  | some v => (read v).map some

def string? : Value → Option String
  | .string s => some s
  | _ => none

def boolean? : Value → Option Bool
  | .boolean b => some b
  | _ => none

def strings? : Value → Option (List String)
  | .array _ items => items.mapM string?
  | _ => none

def ofFields (root : Fields) : Option Config := do
  if !knows sectionKeys root then none
  let general ← section? "general" generalKeys root
  let filters ← section? "filters" filterKeys root
  let profiles ← section? "profiles" profileKeys root
  let standard : Config := {}
  return {
    source := ← optional? string? "source" general
    lang := (← optional? string? "lang" general).getD standard.lang
    output := (← optional? string? "output" general).getD standard.output
    recursive := (← optional? boolean? "recursive" general).getD standard.recursive
    suffixes := ← optional? strings? "suffixes" filters
    exclude := (← optional? strings? "exclude" filters).getD standard.exclude
    profiles :=
      { embedded := (← optional? boolean? "embedded" profiles).getD standard.profiles.embedded,
        production :=
          (← optional? boolean? "production" profiles).getD standard.profiles.production } }

inductive DocumentFault where
  | notToml
  | notConfig
  deriving DecidableEq, Repr

def DocumentFault.message : DocumentFault → String
  | notToml => "not a TOML document"
  | notConfig => "unknown key or value of the wrong type"

def ofDocument (s : List Char) : Except DocumentFault Config :=
  match Toml.read s with
  | none => .error .notToml
  | some root =>
      match ofFields root with
      | none => .error .notConfig
      | some config => .ok config

end SourceBundle.Config
