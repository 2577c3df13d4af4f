import SpikeMesh.Text.Natural
import Std.Data.ExtTreeMap

set_option autoImplicit false

/-! # Ranges of atoms

The atoms of a unit are numbered from 0. A range holds the atoms from a first one up to, but not
including, a last one. -/

namespace SpikeMesh

/-- The atoms `lo`, `lo + 1`, …, `hi - 1`. -/
structure AtomRange where
  lo : UInt32
  hi : UInt32
deriving DecidableEq, Repr

namespace AtomRange

instance : Ord AtomRange := ⟨compareLex (compareOn lo) (compareOn hi)⟩

/-- The range between two bounds; bounds in the wrong order give an empty range. -/
def between (lo hi : UInt32) : AtomRange := ⟨lo, max hi lo⟩

/-- The number of atoms. -/
def size (r : AtomRange) : UInt32 := r.hi - r.lo

/-- Whether the range holds no atom. -/
def isEmpty (r : AtomRange) : Bool := r.hi == r.lo

/-- Whether an atom lies in the range. -/
def contains (r : AtomRange) (atom : UInt32) : Bool := r.lo ≤ atom && atom < r.hi

/-- The atoms in both ranges, if there are any. -/
def intersect? (a b : AtomRange) : Option AtomRange :=
  let lo := max a.lo b.lo
  let hi := min a.hi b.hi
  if lo < hi then some ⟨lo, hi⟩ else none

/-- The atoms in ascending order. -/
def atoms (r : AtomRange) : List UInt32 :=
  (List.range' r.lo.toNat (r.hi.toNat - r.lo.toNat)).map UInt32.ofNat

/-- The first atoms, at most `count` of them. -/
def firstAtoms (r : AtomRange) (count : Nat) : List UInt32 :=
  (List.range' r.lo.toNat (min count (r.hi.toNat - r.lo.toNat))).map UInt32.ofNat

/-- Whether a property holds of some atom of the range. Atoms are tried in ascending order and
    no further than needed. -/
def any (r : AtomRange) (p : UInt32 → Bool) : Bool :=
  go (r.hi.toNat - r.lo.toNat) r.lo.toNat
where
  go : Nat → Nat → Bool
    | 0, _ => false
    | count + 1, atom => p (UInt32.ofNat atom) || go count (atom + 1)

/-- An atom of the range has the property if and only if the search finds one. -/
theorem any_eq_atoms_any (r : AtomRange) (p : UInt32 → Bool) : r.any p = r.atoms.any p := by
  have h : ∀ count start,
      any.go p count start = ((List.range' start count).map UInt32.ofNat).any p := by
    intro count
    induction count with
    | zero => intro start; rfl
    | succ count ih => intro start; simp [any.go, ih, List.range'_succ]
  exact h _ _

/-- The range in messages. -/
def description (r : AtomRange) : String :=
  "[" ++ Text.natural r.lo.toNat ++ ", " ++ Text.natural r.hi.toNat ++ ")"

end AtomRange

end SpikeMesh
