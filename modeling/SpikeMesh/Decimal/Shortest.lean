import SpikeMesh.Decimal.Binary64

set_option autoImplicit false

/-! # Shortest decimals

The decimal with the fewest digits that reads back to a given double. The reals that round to
`m * 2 ^ q` form an interval around it, its ends included when `m` is even. For one digit, two
digits and so on, the two neighbours of the number on that decimal grid are tested; the first
grid with a neighbour inside the interval gives the digits, and of two neighbours the nearer
one is taken. If a point of a grid lies in the interval, so does one of these neighbours,
hence no shorter decimal reads back. -/

namespace SpikeMesh.Decimal

/-- The decimal number `coefficient * 10 ^ exponent`. -/
structure Scientific where
  coefficient : Nat
  exponent : Int
deriving DecidableEq, Repr

/-- Which neighbour is taken when the two are equally near. -/
inductive Tie
  | up
  | even
deriving DecidableEq, Repr

/-- The greatest `k` with `10 ^ k ≤ num / den`, for positive numbers. -/
def log10 (num den : Nat) : Int :=
  let guess : Int := (Nat.toDigits 10 num).length - (Nat.toDigits 10 den).length
  if 0 ≤ guess then (if den * tenTo guess.toNat ≤ num then guess else guess - 1)
  else (if den ≤ num * tenTo (-guess).toNat then guess else guess - 1)

/-- The interval of reals that round to one double, and the double itself, in units of a
    quarter of its last bit. -/
structure RoundingInterval where
  low : Nat
  value : Nat
  high : Nat
  closed : Bool

/-- The rounding interval of `m * 2 ^ q`: half a unit to both sides, but a quarter downwards
    where the spacing of doubles halves. -/
def roundingInterval (m : Nat) (q : Int) : RoundingInterval :=
  let gap := if m == Binary64.hiddenBit && Binary64.minExponent < q then 1 else 2
  ⟨4 * m - gap, 4 * m, 4 * m + 2, m % 2 == 0⟩

/-- The neighbour of the double on the grid of multiples of `10 ^ exponent` that lies in the
    rounding interval and is nearest, if any does. One quarter of the last bit is
    `2 ^ scale`. -/
def onGrid? (tie : Tie) (iv : RoundingInterval) (scale exponent : Int) : Option Scientific :=
  let u := tenTo (-exponent).toNat <<< scale.toNat
  let w := tenTo exponent.toNat <<< (-scale).toNat
  let inside (c : Nat) : Bool :=
    if iv.closed then iv.low * u ≤ c * w && c * w ≤ iv.high * u
    else iv.low * u < c * w && c * w < iv.high * u
  let below := iv.value * u / w
  let twice := 2 * (iv.value * u - below * w)
  let upper : Bool :=
    if !inside below then true
    else if !inside (below + 1) then false
    else match tie with
      | .up => w ≤ twice
      | .even => w < twice || (w == twice && below % 2 == 1)
  let c := if upper then below + 1 else below
  if inside c then some ⟨c, exponent⟩ else none

/-- The decimal without the zeros at the end of its coefficient. -/
def Scientific.normalize (d : Scientific) : Scientific :=
  let ds := (Nat.toDigits 10 d.coefficient).reverse
  let zeros := (ds.takeWhile (· == '0')).length
  if d.coefficient == 0 then ⟨0, 0⟩
  else ⟨d.coefficient / tenTo zeros, d.exponent + zeros⟩

/-- The decimal with the fewest digits that rounds to the double `m * 2 ^ q`; seventeen
    digits always suffice. -/
def shortest (tie : Tie) (m : Nat) (q : Int) : Scientific :=
  if m == 0 then ⟨0, 0⟩
  else
    let iv := roundingInterval m q
    let scale := q - 2
    let top := log10 (iv.value <<< scale.toNat) (1 <<< (-scale).toNat)
    match (List.range 17).findSome? fun (n : Nat) => onGrid? tie iv scale (top - n) with
    | some d => d.normalize
    | none => ⟨0, 0⟩

end SpikeMesh.Decimal
