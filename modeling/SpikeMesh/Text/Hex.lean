set_option autoImplicit false

/-! # Hexadecimal text

Numbers and bytes in lower-case hexadecimal, padded to a fixed number of digits. -/

namespace SpikeMesh.Text

/-- The lower-case hexadecimal digits of a number, with zeros before them up to `width`
    digits. -/
def hexDigits (width n : Nat) : List Char :=
  let ds := Nat.toDigits 16 n
  List.replicate (width - ds.length) '0' ++ ds

/-- A 32-bit word as `0x` and eight hexadecimal digits. -/
def hexWord (w : UInt32) : String := "0x" ++ String.ofList (hexDigits 8 w.toNat)

/-- Two hexadecimal digits per byte. -/
def hexBytes (bytes : List UInt8) : String :=
  String.ofList (bytes.flatMap fun b => hexDigits 2 b.toNat)

/-- Decimal digits with zeros before them up to `width` digits. -/
def paddedDigits (width n : Nat) : String :=
  let ds := Nat.toDigits 10 n
  String.ofList (List.replicate (width - ds.length) '0' ++ ds)

end SpikeMesh.Text
