import SpikeMesh.Datum.Basic
import SpikeMesh.Decimal.Binary64
import SpikeMesh.Text.Natural
import Std.Data.ExtTreeMap
import Std.Data.ExtTreeSet

set_option autoImplicit false

/-! # Reading typed values from data trees

Each reader gives none where the tree does not fit the type: a number outside its range, a
double for a count, a missing field. A record is a table whose unknown names are ignored, or a
list of its fields in their order; an enumeration is the text of a name, or a table with that
name alone and nothing under it. -/

namespace SpikeMesh.Datum

variable {α : Type}

/-! ## Single values -/

/-- A truth value. -/
def toBool? : Datum → Option Bool
  | .bool b => some b
  | _ => none

/-- A text. -/
def toText? : Datum → Option String
  | .text s => some s
  | _ => none

/-- A natural number below a bound. -/
def toNatBelow? (bound : Nat) : Datum → Option Nat
  | .int (.ofNat n) => if n < bound then some n else none
  | _ => none

/-- A number of 8 bits. -/
def toUInt8? (d : Datum) : Option UInt8 := (d.toNatBelow? UInt8.size).map UInt8.ofNat

/-- A number of 16 bits. -/
def toUInt16? (d : Datum) : Option UInt16 := (d.toNatBelow? UInt16.size).map UInt16.ofNat

/-- A number of 32 bits. -/
def toUInt32? (d : Datum) : Option UInt32 := (d.toNatBelow? UInt32.size).map UInt32.ofNat

/-- A number of 64 bits. -/
def toUInt64? (d : Datum) : Option UInt64 := (d.toNatBelow? UInt64.size).map UInt64.ofNat

/-- A double; an integer stands for the nearest one. -/
def toFloat? : Datum → Option Float
  | .float x => some x
  | .int n => some (Decimal.ofInteger n)
  | _ => none

/-- A list of values. -/
def toList? (f : Datum → Option α) : Datum → Option (List α)
  | .list items => items.mapM f
  | _ => none

/-- A list of two values. -/
def toPair? (f : Datum → Option α) : Datum → Option (α × α)
  | .list [a, b] => do return (← f a, ← f b)
  | _ => none

/-- A value, or none for nothing. -/
def toOption? (f : Datum → Option α) : Datum → Option (Option α)
  | .null => some none
  | d => (f d).map some

/-- The name of an enumeration's value that holds no data. -/
def toName? : Datum → Option String
  | .text s => some s
  | .table [(s, .null)] => some s
  | _ => none

/-- The value of an enumeration with a name. -/
def toEnum? (name : α → String) (values : List α) (d : Datum) : Option α := do
  let s ← d.toName?
  values.find? fun a => name a == s

/-! ## Maps and sets -/

/-- A number as the name of a table's entry: decimal digits with no zero before others. -/
def numberKey? (name : String) : Option UInt32 :=
  match name.toList with
  | '0' :: _ :: _ => none
  | cs => do
    let n ← Text.readDigits? cs
    if n < UInt32.size then some (UInt32.ofNat n) else none

section Maps

variable {κ ν : Type} [Ord κ] [Std.TransOrd κ]

/-- A map, from the entries of a table. Of entries whose names denote the same key the last
    one counts. -/
def toMap? (key : String → Option κ) (value : Datum → Option ν) :
    Datum → Option (Std.ExtTreeMap κ ν)
  | .table entries =>
    entries.foldlM (fun m e => do return m.insert (← key e.1) (← value e.2)) ∅
  | _ => none

/-- A map as a table, in the order of its keys. -/
def ofMap (key : κ → String) (value : ν → Datum) (m : Std.ExtTreeMap κ ν) : Datum :=
  .table (m.toList.map fun e => (key e.1, value e.2))

/-- A set, from the items of a list. -/
def toSet? (item : Datum → Option κ) (d : Datum) : Option (Std.ExtTreeSet κ) := do
  return (← d.toList? item).foldl (·.insert ·) ∅

/-- A set as a list in the order of its items. -/
def ofSet (item : κ → Datum) (s : Std.ExtTreeSet κ) : Datum := .list (s.toList.map item)

end Maps

/-! ## Records -/

/-- The fields of a record, by name. -/
structure Fields where
  /-- The value given for a name, if any. -/
  value? : String → Option Datum

/-- Read a tree as a record with the given field names. Other names are ignored. -/
def toFields? (names : List String) : Datum → Option Fields
  | .table entries => some ⟨valueNamed? entries⟩
  | .list items =>
    if items.length ≤ names.length then some ⟨valueNamed? (names.zip items)⟩ else none
  | _ => none

/-- Read a tree as a record with the given field names and no others. -/
def toFieldsOnly? (names : List String) (d : Datum) : Option Fields :=
  match d with
  | .table entries =>
    if entries.all fun e => names.contains e.1 then some ⟨valueNamed? entries⟩ else none
  | _ => d.toFields? names

namespace Fields

variable (fields : Fields)

/-- A field that must be given. -/
def required (name : String) (f : Datum → Option α) : Option α :=
  fields.value? name >>= f

/-- A field that may be missing or hold nothing. -/
def optional (name : String) (f : Datum → Option α) : Option (Option α) :=
  match fields.value? name with
  | none => some none
  | some d => d.toOption? f

/-- A field with a default where it is missing. -/
def withDefault (name : String) (default : α) (f : Datum → Option α) : Option α :=
  match fields.value? name with
  | none => some default
  | some d => f d

end Fields

end SpikeMesh.Datum
