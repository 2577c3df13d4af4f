set_option autoImplicit false

/-! # Data trees

The data that a text in JSON or TOML holds: nothing, truth values, integers, doubles, texts,
lists, and tables of named values. Integers and doubles are told apart, since 1 and 1.0 are
written differently and only the first can be read as a count. -/

namespace SpikeMesh

/-- A tree of data. A table lists its names in the order in which they are written. -/
inductive Datum
  | null
  | bool (b : Bool)
  | int (n : Int)
  | float (x : Float)
  | text (s : String)
  | list (items : List Datum)
  | table (entries : List (String × Datum))
deriving Inhabited, Repr

namespace Datum

/-- The value of the first entry with a name. -/
def valueNamed? (entries : List (String × Datum)) (name : String) : Option Datum :=
  entries.lookup name

/-- The entries with one more: in the order of the names, with only the last value of a name. -/
def insertEntry (name : String) (value : Datum) :
    List (String × Datum) → List (String × Datum)
  | [] => [(name, value)]
  | (other, old) :: rest =>
    if name < other then (name, value) :: (other, old) :: rest
    else if name = other then (name, value) :: rest
    else (other, old) :: insertEntry name value rest

/-- A table in the order of its names, with only the last value of a name. -/
def sortedTable (entries : List (String × Datum)) : Datum :=
  .table (entries.foldl (fun sorted e => insertEntry e.1 e.2 sorted) [])

/-- A natural number. -/
def natural (n : Nat) : Datum := .int n

/-- A value or nothing. -/
def ofOption {α : Type} (f : α → Datum) : Option α → Datum
  | some a => f a
  | none => .null

/-- A list of values. -/
def ofList {α : Type} (f : α → Datum) (items : List α) : Datum := .list (items.map f)

end Datum

end SpikeMesh
