set_option autoImplicit false

/-! # Doubles as exact numbers

A double of the IEEE 754 binary64 format is either not a number, an infinity, or a sign and
an exact value `mantissa * 2 ^ exponent`. This module decodes that value from the bits, rounds
exact quotients to the nearest double, and cuts a double to a natural number. -/

namespace SpikeMesh.Decimal

/-- What the bits of a double denote. -/
inductive Binary64
  /-- The number `mantissa * 2 ^ exponent`, negated if `negative`. -/
  | finite (negative : Bool) (mantissa : Nat) (exponent : Int)
  | infinite (negative : Bool)
  | notANumber
deriving DecidableEq, Repr

namespace Binary64

/-- The number of bits of the stored fraction. -/
def fractionBits : Nat := 52

/-- The value of the mantissa's first bit, which is not stored. -/
def hiddenBit : Nat := 1 <<< fractionBits

/-- The least exponent of a double's last mantissa bit. -/
def minExponent : Int := -1074

/-- Decode the bits of a double. -/
def ofBits (bits : UInt64) : Binary64 :=
  let n := bits.toNat
  let negative := n >>> 63 == 1
  let biased : Nat := n >>> fractionBits % 2048
  let fraction := n % hiddenBit
  if biased == 2047 then
    if fraction == 0 then .infinite negative else .notANumber
  else if biased == 0 then .finite negative fraction minExponent
  else .finite negative (hiddenBit + fraction) (minExponent + (biased - 1 : Nat))

/-- Decode a double. -/
def ofFloat (x : Float) : Binary64 := ofBits x.toBits

end Binary64

/-! ## Rounding a quotient to a double -/

/-- The quotient of two numbers as an integer, rounded to the nearest; a half goes to the
    even neighbour. -/
def roundQuotient (num den : Nat) : Nat :=
  let q := num / den
  let twice := 2 * (num % den)
  if den < twice || (twice == den && q % 2 == 1) then q + 1 else q

/-- The exponent of the last mantissa bit of the double nearest to `num / den`: the one that
    leaves 53 bits, but not below the least exponent. -/
def lastBitExponent (num den : Nat) : Int :=
  let guess : Int := num.log2 - den.log2
  -- the quotient lies between 2 ^ (guess - 1) and 2 ^ (guess + 1)
  let exact : Int :=
    if 0 ≤ guess then
      (if den <<< guess.toNat ≤ num then guess else guess - 1)
    else
      (if den ≤ num <<< (-guess).toNat then guess else guess - 1)
  max (exact - 52) Binary64.minExponent

/-- The bits of the double nearest to the positive number `num / den`, ties to even; an
    infinity if the quotient is too large. -/
def nearestBits (num den : Nat) : Nat :=
  let q := lastBitExponent num den
  let mantissa :=
    if 0 ≤ q then roundQuotient num (den <<< q.toNat)
    else roundQuotient (num <<< (-q).toNat) den
  let exponent := (q - Binary64.minExponent).toNat
  min (exponent * Binary64.hiddenBit + mantissa) (2047 * Binary64.hiddenBit)

/-- The double nearest to `num / den`, negated if asked; zero keeps its sign. -/
def nearest (negative : Bool) (num den : Nat) : Float :=
  let bits := if num == 0 then 0 else nearestBits num den
  Float.ofBits (UInt64.ofNat (if negative then bits + 1 <<< 63 else bits))

/-- The double nearest to a natural number. -/
def ofNatural (n : Nat) : Float := nearest false n 1

/-- The double nearest to an integer. -/
def ofInteger (i : Int) : Float := nearest (decide (i < 0)) i.natAbs 1

/-- A power of ten. -/
def tenTo (n : Nat) : Nat := Nat.pow 10 n

/-- The double nearest to `digits * 10 ^ exponent`. Exponents that put the number beyond
    every double are settled without computing the power. -/
def ofDecimal (negative : Bool) (digits : Nat) (exponent : Int) : Float :=
  let magnitude := (digits.log2 : Int) * 3 / 10 + exponent
  if digits == 0 then nearest negative 0 1
  else if 400 < magnitude then nearest negative (1 <<< 1024) 1
  else if magnitude + (digits.log2 : Int) / 30 + 1 < -400 then nearest negative 0 1
  else if 0 ≤ exponent then nearest negative (digits * tenTo exponent.toNat) 1
  else nearest negative digits (tenTo (-exponent).toNat)

/-! ## Cutting a double to a natural number -/

/-- The whole part of a double, as a 64-bit number: negative numbers and what is not a number
    give 0, numbers that are too large the largest 64-bit number. -/
def toWord64 (x : Float) : UInt64 :=
  let largest := UInt64.size - 1
  match Binary64.ofFloat x with
  | .finite true _ _ | .infinite true | .notANumber => 0
  | .infinite false => UInt64.ofNat largest
  | .finite false m e =>
    if 64 < e then (if m == 0 then 0 else UInt64.ofNat largest)
    else
      let whole := if 0 ≤ e then m <<< e.toNat else m >>> (-e).toNat
      UInt64.ofNat (min whole largest)

end SpikeMesh.Decimal
