import SpikeMesh.Decimal.Shortest
import SpikeMesh.Text.Natural

set_option autoImplicit false

/-! # The text of doubles

Two ways to write a double with its shortest digits: in messages, always positional and with
no mark on whole numbers, and in JSON, with an exponent for very large and very small numbers
and a decimal point on whole ones. The reader accepts a sign, digits with an optional point
and an exponent, and names for what is not finite. -/

namespace SpikeMesh.Decimal

/-- How the digits of a double are laid out. -/
structure NumberStyle where
  /-- Which neighbour is written when two shortest decimals are equally near. -/
  tie : Tie
  /-- Whether a number whose decimal point stands after that many digits is written without
      an exponent; zero and negative counts mean zeros after the point. -/
  positional : Int → Bool
  /-- What follows the digits of a whole number. -/
  wholeMark : List Char
  infinity : List Char
  negativeInfinity : List Char
  notANumber : List Char

/-- In messages every number is positional, and a whole number has no decimal point. -/
def NumberStyle.message : NumberStyle where
  tie := .up
  positional := fun _ => true
  wholeMark := []
  infinity := "inf".toList
  negativeInfinity := "-inf".toList
  notANumber := "NaN".toList

/-- In JSON a number has its point within sixteen digits or at most five places before them,
    or else an exponent, and a whole number ends in `.0`; what is not finite is null. -/
def NumberStyle.json : NumberStyle where
  tie := .even
  positional := fun point => -5 < point && point ≤ 16
  wholeMark := ".0".toList
  infinity := "null".toList
  negativeInfinity := "null".toList
  notANumber := "null".toList

/-- Lay out the digits of a decimal number that is not negative. -/
def NumberStyle.layout (style : NumberStyle) (d : Scientific) : List Char :=
  let ds := Text.digits d.coefficient
  let point : Int := ds.length + d.exponent
  if d.coefficient == 0 then '0' :: style.wholeMark
  else if style.positional point then
    if 0 ≤ d.exponent then
      ds ++ List.replicate d.exponent.toNat '0' ++ style.wholeMark
    else if 0 < point then ds.take point.toNat ++ '.' :: ds.drop point.toNat
    else "0.".toList ++ List.replicate (-point).toNat '0' ++ ds
  else
    let power := (Text.integer (point - 1)).toList
    match ds with
    | [c] => c :: 'e' :: power
    | c :: rest => c :: '.' :: rest ++ 'e' :: power
    | [] => []

/-- The text of a double. -/
def NumberStyle.text (style : NumberStyle) (x : Float) : String :=
  String.ofList <| match Binary64.ofFloat x with
    | .finite false m q => style.layout (shortest style.tie m q)
    | .finite true m q => '-' :: style.layout (shortest style.tie m q)
    | .infinite false => style.infinity
    | .infinite true => style.negativeInfinity
    | .notANumber => style.notANumber

/-- The text of a double in messages. -/
def message (x : Float) : String := NumberStyle.message.text x

/-! ## Reading -/

/-- A number in decimal as written: the digits before and after the point, and the power of
    ten. -/
structure Written where
  whole : List Char
  fraction : List Char
  power : Int

/-- The value of a written number. -/
def Written.toFloat (negative : Bool) (w : Written) : Float :=
  ofDecimal negative (Text.digitsValue (w.whole ++ w.fraction)) (w.power - w.fraction.length)

/-- A power of ten: an optional sign and one or more digits. -/
def readPower? : List Char → Option Int
  | '-' :: cs => (Text.readDigits? cs).map fun n => -(n : Int)
  | '+' :: cs => (Text.readDigits? cs).map fun n => (n : Int)
  | cs => (Text.readDigits? cs).map fun n => (n : Int)

/-- A number without its sign: digits with an optional point somewhere, at least one digit,
    and an optional power of ten. -/
def readWritten? (cs : List Char) : Option Written :=
  let whole := cs.takeWhile Char.isDigit
  let rest := cs.dropWhile Char.isDigit
  let (fraction, rest) := match rest with
    | '.' :: after => (after.takeWhile Char.isDigit, after.dropWhile Char.isDigit)
    | _ => ([], rest)
  if whole.isEmpty && fraction.isEmpty then none
  else match rest with
    | [] => some ⟨whole, fraction, 0⟩
    | 'e' :: power | 'E' :: power => (readPower? power).map fun p => ⟨whole, fraction, p⟩
    | _ => none

/-- Read a double without its sign. The names of what is not finite may be in either case. -/
def readUnsigned? (negative : Bool) (cs : List Char) : Option Float :=
  let name := String.ofList (cs.map Char.toLower)
  if name == "inf" || name == "infinity" then
    some (if negative then -1.0 / 0.0 else 1.0 / 0.0)
  else if name == "nan" then some (0.0 / 0.0)
  else (readWritten? cs).map (·.toFloat negative)

/-- Read a double, with an optional sign before it. -/
def read? (cs : List Char) : Option Float :=
  match cs with
  | '-' :: rest => readUnsigned? true rest
  | '+' :: rest => readUnsigned? false rest
  | _ => readUnsigned? false cs

end SpikeMesh.Decimal
