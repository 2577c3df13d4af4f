import SpikeMesh.Datum.Basic
import SpikeMesh.Decimal.NumberText
import SpikeMesh.Text.Reader

set_option autoImplicit false

/-! # Reading JSON

JSON text as a data tree. Integers of 64 bits, signed or not, stay integers; all other numbers
become doubles, and so does `-0`, which no integer is. A table keeps the last value of a name
and lists its names in order. Lists and tables nest to a fixed depth. -/

namespace SpikeMesh.Json

open Text (Reader)
open Text.Reader

/-- Whether a character may stand between the parts of a text. -/
def isSpace (c : Char) : Bool := c == ' ' || c == '\t' || c == '\n' || c == '\r'

/-- The spaces before the next part. -/
def spaces : Reader Unit := discard (run isSpace)

/-- A character, with the spaces after it. -/
def mark (c : Char) : Reader Unit := do
  discard (char c)
  spaces

/-! ## Texts -/

/-- Four hexadecimal digits. -/
def hex4 : Reader Nat := Text.hexNumber <$> exactRun 4 Text.isHexDigit

/-- The character of an escape `\uXXXX`, after the `u`; two escapes stand for one character
    beyond the first 65536. -/
def unicodeEscape : Reader Char := do
  let high ← hex4
  if 0xD800 ≤ high && high < 0xDC00 then
    text "\\u"
    let low ← hex4
    if 0xDC00 ≤ low && low < 0xE000 then
      match Text.charOfNumber? (0x10000 + (high - 0xD800) * 0x400 + (low - 0xDC00)) with
      | some c => pure c
      | none => failure
    else failure
  else
    match Text.charOfNumber? high with
    | some c => pure c
    | none => failure

/-- The character of an escape, after the backslash. -/
def escaped : Reader Char := do
  match ← charIf fun _ => true with
  | '"' => pure '"'
  | '\\' => pure '\\'
  | '/' => pure '/'
  | 'b' => pure (Char.ofNat 8)
  | 'f' => pure (Char.ofNat 12)
  | 'n' => pure '\n'
  | 'r' => pure '\r'
  | 't' => pure '\t'
  | 'u' => unicodeEscape
  | _ => failure

/-- A character of a text: neither the quote nor a control character. -/
def textChar : Reader Char := do
  match ← charIf fun c => c != '"' && 32 ≤ c.toNat with
  | '\\' => escaped
  | c => pure c

/-- A text in quotes. -/
def quoted : Reader String := do
  discard (char '"')
  let cs ← many textChar
  discard (char '"')
  return String.ofList cs

/-! ## Numbers -/

/-- Decimal digits, with no zero before others. -/
def wholeDigits : Reader (List Char) := do
  let ds ← run1 Char.isDigit
  if ds.head? == some '0' && ds.length != 1 then failure else pure ds

/-- The digits after a point, if any. -/
def fractionDigits : Reader (Option (List Char)) :=
  optional (char '.' *> run1 Char.isDigit)

/-- The power of ten, if any. -/
def power : Reader (Option Int) := optional do
  discard (charIf fun c => c == 'e' || c == 'E')
  let sign ← optional (charIf fun c => c == '+' || c == '-')
  let n := Text.digitsValue (← run1 Char.isDigit)
  return if sign == some '-' then -(n : Int) else n

/-- The value of a number whose sign and digits are known. -/
def numberValue (negative : Bool) (whole : List Char) (fraction : Option (List Char))
    (power : Option Int) : Datum :=
  let n : Int := Text.digitsValue whole
  let value := if negative then -n else n
  match fraction, power with
  | none, none =>
    if Int64.minValue.toInt ≤ value && value < UInt64.size && !(negative && n == 0) then .int value
    else .float (Decimal.ofDecimal negative n.toNat 0)
  | _, _ =>
    .float (Decimal.Written.toFloat negative ⟨whole, fraction.getD [], power.getD 0⟩)

/-- A number. -/
def number : Reader Datum := do
  let sign ← optional (char '-')
  let whole ← wholeDigits
  let fraction ← fractionDigits
  let power ← power
  return numberValue sign.isSome whole fraction power

/-! ## Values -/

/-- Items with commas between them, up to a closing mark. -/
def items {α : Type} (close : Char) (item : Reader α) : Reader (List α) := do
  let first ← optional item
  match first with
  | none => mark close; pure []
  | some a =>
    let rest ← many (mark ',' *> item)
    mark close
    return a :: rest

/-- A value, with the spaces after it, that nests at most `depth` deep. -/
def value (depth : Nat) : Reader Datum := do
  match depth with
  | 0 => failure
  | depth + 1 =>
    match ← peek? with
    | some '"' => let s ← quoted; spaces; return .text s
    | some '[' => mark '['; return .list (← items ']' (value depth))
    | some '\x7b' =>
      mark '\x7b'
      let entry : Reader (String × Datum) := do
        let name ← quoted
        spaces
        mark ':'
        return (name, ← value depth)
      return Datum.sortedTable (← items '\x7d' entry)
    | some 'n' => text "null"; spaces; return .null
    | some 't' => text "true"; spaces; return .bool true
    | some 'f' => text "false"; spaces; return .bool false
    | _ => let d ← number; spaces; return d

/-- How deep lists and tables may nest. -/
def maxDepth : Nat := 128

/-- The data tree of a JSON text. -/
def read? (s : String) : Option Datum := readAll? (spaces *> value maxDepth) s.toList

end SpikeMesh.Json
