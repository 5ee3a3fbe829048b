/-!
Values of a TOML document, and the tables that headers and dotted keys build up. A table remembers
where it came from, since that decides whether a later line may add to it.
-/

namespace SourceBundle.Toml

inductive Origin where
  | inline
  | header
  /-- Only on the way to the table of a header. -/
  | implied
  /-- On the way to a value with a dotted key. -/
  | dotted
  deriving DecidableEq, Repr

inductive Value where
  | string (s : String)
  | boolean (b : Bool)
  | integer (n : Int)
  | float (written : String)
  | datetime (written : String)
  /-- Only the array of a double bracket header takes further elements. -/
  | array (fromHeaders : Bool) (items : List Value)
  | table (origin : Origin) (fields : List (String × Value))
  deriving Repr

abbrev Fields := List (String × Value)

namespace Fields

def find? (fields : Fields) (key : String) : Option Value := fields.lookup key

def set (key : String) (value : Value) : Fields → Fields
  | [] => [(key, value)]
  | (k, v) :: later => if k = key then (k, value) :: later else (k, v) :: set key value later

def add? (key : String) (value : Value) (fields : Fields) : Option Fields :=
  match fields.find? key with
  | none => some (fields ++ [(key, value)])
  | some _ => none

end Fields

abbrev Edit := Origin → Fields → Option Fields

/-- Follows a way of keys into the tables and edits the last one. Missing tables are made with the
origin `made`. A way of dotted keys passes through no table with a header of its own, and no way
into an inline table. In an array of tables the last one is meant. -/
def editAt (made : Origin) (edit : Edit) : List String → Edit
  | [], origin, fields => edit origin fields
  | key :: way, _, fields =>
      match fields.find? key with
      | none => do
          let inner ← editAt made edit way made []
          return fields.set key (.table made inner)
      | some (.table origin inner) =>
          if origin = .inline || (made = .dotted && origin = .header) then none
          else do
            let inner ← editAt made edit way origin inner
            return fields.set key (.table origin inner)
      | some (.array true items) =>
          match items.reverse with
          | .table origin inner :: earlier => do
              let inner ← editAt made edit way origin inner
              return fields.set key (.array true (earlier.reverse ++ [.table origin inner]))
          | _ => none
      | some _ => none

/-- Gives the last of the dotted keys a value. The table that takes it must be the current one or
come from dotted keys itself. -/
def assign (way : List String) (key : String) (value : Value) : Edit :=
  editAt .dotted
    (fun origin fields =>
      if way.isEmpty || origin = .dotted then fields.add? key value else none)
    way

/-- Opens the table of a header. A table that is only implied so far becomes one of its own. -/
def openTable (way : List String) (key : String) (root : Fields) : Option Fields :=
  editAt .implied
    (fun _ fields =>
      match fields.find? key with
      | none => some (fields.set key (.table .header []))
      | some (.table .implied inner) => some (fields.set key (.table .header inner))
      | some _ => none)
    way .header root

def openElement (way : List String) (key : String) (root : Fields) : Option Fields :=
  editAt .implied
    (fun _ fields =>
      match fields.find? key with
      | none => some (fields.set key (.array true [.table .header []]))
      | some (.array true items) =>
          some (fields.set key (.array true (items ++ [.table .header []])))
      | some _ => none)
    way .header root

def assignUnder (header way : List String) (key : String) (value : Value) (root : Fields) :
    Option Fields :=
  editAt .implied (assign way key value) header .header root

end SourceBundle.Toml
