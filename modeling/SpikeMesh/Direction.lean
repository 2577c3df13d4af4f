import Std.Data.ExtTreeMap

set_option autoImplicit false

/-! # Directions

The six links of a chip in the hexagonal mesh. Their order is that of the link numbers 0 to 5;
the link back has the number three further, modulo six. -/

namespace SpikeMesh

/-- The direction of a link. -/
inductive Direction
  | east
  | northEast
  | north
  | west
  | southWest
  | south
deriving DecidableEq, Repr

namespace Direction

/-- The number of the link. -/
def index : Direction → Nat
  | east => 0
  | northEast => 1
  | north => 2
  | west => 3
  | southWest => 4
  | south => 5

/-- All directions in their order. -/
def all : List Direction := [east, northEast, north, west, southWest, south]

instance : Ord Direction := ⟨compareOn index⟩

instance : Std.TransOrd Direction := inferInstanceAs (Std.TransCmp (compareOn index))

instance : Std.LawfulEqOrd Direction where
  eq_of_compare {a b} h := by
    have h : compare a.index b.index = .eq := h
    cases a <;> cases b <;> first | rfl | (revert h; decide)

/-- The direction with a link number. -/
def ofIndex? (n : Nat) : Option Direction := all[n]?

/-- The direction back along the same link. -/
def opposite : Direction → Direction
  | east => west
  | northEast => southWest
  | north => south
  | west => east
  | southWest => northEast
  | south => north

/-- The opposite of the opposite is the direction itself. -/
theorem opposite_opposite (d : Direction) : d.opposite.opposite = d := by
  cases d <;> rfl

/-- The step across the mesh, by columns and rows. -/
def offset : Direction → Int × Int
  | east => (1, 0)
  | northEast => (1, 1)
  | north => (0, 1)
  | west => (-1, 0)
  | southWest => (-1, -1)
  | south => (0, -1)

/-- The direction as a key. -/
def text : Direction → String
  | east => "east"
  | northEast => "north_east"
  | north => "north"
  | west => "west"
  | southWest => "south_west"
  | south => "south"

/-- The direction in messages. -/
def description : Direction → String
  | northEast => "north-east"
  | southWest => "south-west"
  | d => d.text

/-- The direction with a key. -/
def ofText? (s : String) : Option Direction := all.find? fun d => d.text == s

/-- A key is read as its direction. -/
theorem ofText?_text (d : Direction) : ofText? d.text = some d := by
  cases d <;> decide

end Direction

end SpikeMesh
