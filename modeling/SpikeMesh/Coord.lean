import SpikeMesh.Text.Fields
import Std.Data.ExtTreeMap

set_option autoImplicit false

/-! # Coordinates

Chips are addressed by column and row, cores by their chip and a number on it. Chips are
ordered by column, then row; this is the order of every scan over a fabric. -/

namespace SpikeMesh

/-- A text that is no coordinate. -/
structure CoordError where
  input : String
  /-- How many numbers were expected. -/
  expected : Nat
deriving DecidableEq, Repr

/-- The text of the error. -/
def CoordError.message (e : CoordError) : String :=
  "invalid coordinate '" ++ e.input ++ "': expected " ++ Text.natural e.expected
    ++ " comma-separated integers"

/-- The place of a chip in the mesh. -/
structure ChipCoord where
  x : UInt32
  y : UInt32
deriving DecidableEq, Repr

/-- A core of a chip. -/
structure Location where
  chip : ChipCoord
  core : UInt32
deriving DecidableEq, Repr

namespace ChipCoord

instance : Ord ChipCoord := ⟨compareLex (compareOn x) (compareOn y)⟩

instance : Std.TransOrd ChipCoord :=
  inferInstanceAs (Std.TransCmp (compareLex (compareOn x) (compareOn y)))

instance : Std.LawfulEqOrd ChipCoord where
  eq_of_compare {a b} h := by
    have h : (compareOn x a b).then (compareOn y a b) = .eq := h
    simp only [Ordering.then_eq_eq, compareOn, Std.LawfulEqCmp.compare_eq_iff_eq] at h
    cases a; cases b; simp_all

/-- The coordinate as a key: both numbers with a comma between them. -/
def text (c : ChipCoord) : String :=
  Text.natural c.x.toNat ++ "," ++ Text.natural c.y.toNat

/-- The coordinate in messages. -/
def description (c : ChipCoord) : String :=
  "(" ++ Text.natural c.x.toNat ++ ", " ++ Text.natural c.y.toNat ++ ")"

/-- Read two comma-separated numbers. -/
def parse (s : String) : Except CoordError ChipCoord :=
  match Text.readWords? s.toList with
  | some [x, y] => .ok ⟨x, y⟩
  | _ => .error ⟨s, 2⟩

end ChipCoord

namespace Location

instance : Ord Location := ⟨compareLex (compareOn chip) (compareOn core)⟩

instance : Std.TransOrd Location :=
  inferInstanceAs (Std.TransCmp (compareLex (compareOn chip) (compareOn core)))

instance : Std.LawfulEqOrd Location where
  eq_of_compare {a b} h := by
    have h : (compareOn chip a b).then (compareOn core a b) = .eq := h
    simp only [Ordering.then_eq_eq, compareOn, Std.LawfulEqCmp.compare_eq_iff_eq] at h
    cases a; cases b; simp_all

/-- The location as a key: its three numbers with commas between them. -/
def text (l : Location) : String := l.chip.text ++ "," ++ Text.natural l.core.toNat

/-- The location in messages. -/
def description (l : Location) : String :=
  "(" ++ Text.natural l.chip.x.toNat ++ ", " ++ Text.natural l.chip.y.toNat ++ ", "
    ++ Text.natural l.core.toNat ++ ")"

/-- Read three comma-separated numbers. -/
def parse (s : String) : Except CoordError Location :=
  match Text.readWords? s.toList with
  | some [x, y, core] => .ok ⟨⟨x, y⟩, core⟩
  | _ => .error ⟨s, 3⟩

end Location

end SpikeMesh
