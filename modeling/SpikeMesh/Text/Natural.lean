set_option autoImplicit false

/-! # Natural numbers in decimal

Reading decimal digits, and the text of a natural number. A number may carry one leading
`+` where a field of numbers is read; digits are the ASCII digits only. -/

namespace SpikeMesh.Text

/-- The value of an ASCII digit. -/
def digitValue (c : Char) : Nat := c.toNat - '0'.toNat

/-- The value of digits read after a number `start`. -/
def digitsValueFrom (start : Nat) (cs : List Char) : Nat :=
  cs.foldl (fun n c => 10 * n + digitValue c) start

/-- The number that decimal digits denote. -/
def digitsValue (cs : List Char) : Nat := digitsValueFrom 0 cs

/-- The number that one or more ASCII digits denote. -/
def readDigits? (cs : List Char) : Option Nat :=
  if !cs.isEmpty && cs.all Char.isDigit then some (digitsValue cs) else none

/-- The number that one or more ASCII digits denote, with at most one `+` before them. -/
def readNatural? (cs : List Char) : Option Nat :=
  match cs with
  | '+' :: rest => readDigits? rest
  | _ => readDigits? cs

/-- A number read as a 32-bit word: none if the text is no number or the number has more
    than 32 bits. -/
def readWord? (cs : List Char) : Option UInt32 :=
  match readNatural? cs with
  | some n => if h : n < UInt32.size then some (UInt32.ofNatLT n h) else none
  | none => none

/-- The decimal digits of a number, without leading zeros. -/
def digits (n : Nat) : List Char := Nat.toDigits 10 n

/-- The text of a number in decimal. -/
def natural (n : Nat) : String := String.ofList (digits n)

/-- The text of an integer in decimal. -/
def integer (i : Int) : String :=
  if i < 0 then "-" ++ natural i.natAbs else natural i.natAbs

end SpikeMesh.Text
