import SpikeMesh.Datum.Basic
import SpikeMesh.Decimal.NumberText
import SpikeMesh.Text.Reader

set_option autoImplicit false

/-! # TOML scalars

Texts, numbers, truth values, dates and times of TOML 1.0, the blanks and comments between
them, and keys. Integers have 64 bits with a sign. A date or time is read as a table with one
reserved name, so that it fits no other type. -/

namespace SpikeMesh.Toml

open Text (Reader)
open Text.Reader

/-! ## Blanks and comments -/

/-- Whether a character is a blank within a line. -/
def isSpace (c : Char) : Bool := c == ' ' || c == '\t'

/-- The blanks within a line. -/
def spaces : Reader Unit := discard (run isSpace)

/-- The end of a line. -/
def newLine : Reader Unit := text "\r\n" <|> discard (char '\n')

/-- Whether a character may stand in a comment or a text: no control character but the tab. -/
def isPrintable (c : Char) : Bool := c == '\t' || (32 ≤ c.toNat && c.toNat != 127)

/-- A comment, up to the end of its line. -/
def comment : Reader Unit := do
  discard (char '#')
  discard (run isPrintable)

/-- Blanks, line ends and whole comment lines. -/
def gap : Reader Unit := do
  discard (many (discard (run1 isSpace) <|> newLine <|> (comment *> newLine)))

/-- What may follow a statement on its line. -/
def lineEnd : Reader Unit := do
  spaces
  discard (optional comment)
  newLine <|> atEnd

/-! ## Texts -/

/-- The character with a number of `count` hexadecimal digits. -/
def characterNumber (count : Nat) : Reader Char := do
  let ds ← exactRun count Text.isHexDigit
  match Text.charOfNumber? (Text.hexNumber ds) with
  | some c => pure c
  | none => failure

/-- The character of an escape. -/
def escaped : Reader Char := do
  discard (char '\\')
  match ← charIf fun _ => true with
  | '"' => pure '"'
  | '\\' => pure '\\'
  | 'b' => pure (Char.ofNat 8)
  | 'f' => pure (Char.ofNat 12)
  | 'n' => pure '\n'
  | 'r' => pure '\r'
  | 't' => pure '\t'
  | 'u' => characterNumber 4
  | 'U' => characterNumber 8
  | _ => failure

/-- A character of a text that stands for itself. -/
def plainChar : Reader Char := charIf fun c => isPrintable c && c != '"' && c != '\\'

/-- A character of a literal text, in which nothing is escaped. -/
def literalChar : Reader Char := charIf fun c => isPrintable c && c != '\''

/-- A text on one line with escapes. -/
def basicText : Reader String := do
  discard (char '"')
  let cs ← many (plainChar <|> escaped)
  discard (char '"')
  return String.ofList cs

/-- A text on one line without escapes. -/
def literalText : Reader String := do
  discard (char '\'')
  let cs ← many literalChar
  discard (char '\'')
  return String.ofList cs

/-- A backslash at the end of a line, with all blanks and line ends after it. -/
def joinedLines : Reader Unit := do
  discard (char '\\')
  spaces
  newLine
  discard (many (discard (run1 isSpace) <|> newLine))

/-- One or two quotes inside a text that ends in three. -/
def innerQuotes (quote : Char) : Reader (List Char) := do
  let qs ← run (· == quote)
  if qs.length == 1 || qs.length == 2 then pure qs else failure

/-- The closing quotes, with at most two quotes of the text before them. -/
def closingQuotes (quote : Char) : Reader (List Char) := do
  let qs ← run (· == quote)
  if 3 ≤ qs.length && qs.length ≤ 5 then pure (qs.drop 3) else failure

/-- A text over several lines, from pieces that are no quotes. A line end right after the
    opening quotes is dropped. -/
def multilineText (quote : Char) (piece : Reader (List Char)) : Reader String := do
  exactly [quote, quote, quote]
  discard (optional newLine)
  let pieces ← many (piece <|> innerQuotes quote)
  let last ← closingQuotes quote
  return String.ofList (pieces.flatten ++ last)

/-- A line end inside a text. -/
def innerLine : Reader (List Char) := do
  newLine
  return ['\n']

/-- A text over several lines with escapes. -/
def multilineBasic : Reader String :=
  multilineText '"' <|
    (do return [← plainChar]) <|> (do joinedLines; return []) <|> (do return [← escaped])
      <|> innerLine

/-- A text over several lines without escapes. -/
def multilineLiteral : Reader String :=
  multilineText '\'' ((do return [← literalChar]) <|> innerLine)

/-- A text of any kind. -/
def anyText : Reader String :=
  multilineBasic <|> basicText <|> multilineLiteral <|> literalText

/-! ## Keys -/

/-- Whether a character may stand in a key without quotes. -/
def isKeyChar (c : Char) : Bool := c.isAlphanum || c == '_' || c == '-'

/-- One part of a key. -/
def keyPart : Reader String :=
  basicText <|> literalText <|> (do return String.ofList (← run1 isKeyChar))

/-- A key: parts with dots between them. -/
def key : Reader (List String) := do
  let part : Reader String := do
    spaces
    let s ← keyPart
    spaces
    return s
  let first ← part
  return first :: (← many (char '.' *> part))

/-! ## Numbers -/

/-- Digits of a class, with single underscores between them. -/
def groupedDigits (isDigit : Char → Bool) : Reader (List Char) := do
  let first ← run1 isDigit
  let groups ← many (char '_' *> run1 isDigit)
  return first ++ groups.flatten

/-- The sign of a number: whether it is negative. -/
def sign : Reader Bool := do
  return (← optional (charIf fun c => c == '+' || c == '-')) == some '-'

/-- Decimal digits with no zero before others. -/
def wholeDigits : Reader (List Char) :=
  (do
    let some c ← peek? | failure
    if c == '0' then failure else groupedDigits Char.isDigit)
  <|> (do return [← char '0'])

/-- An integer of 64 bits with a sign, as a datum. -/
def wordOrFail (n : Int) : Reader Datum :=
  if Int64.minValue.toInt ≤ n && n ≤ Int64.maxValue.toInt then pure (.int n) else failure

/-- The number that digits denote in a base. -/
def digitsNumber (base : Nat) (cs : List Char) : Nat :=
  cs.foldl (fun n c => base * n + (Text.hexValue? c).getD 0) 0

/-- An integer in a base, after its mark. -/
def basedInteger (mark : String) (base : Nat) (isDigit : Char → Bool) : Reader Datum := do
  text mark
  wordOrFail (digitsNumber base (← groupedDigits isDigit))

/-- An integer. -/
def integer : Reader Datum :=
  basedInteger "0x" 16 Text.isHexDigit
    <|> basedInteger "0o" 8 (fun c => '0' ≤ c && c ≤ '7')
    <|> basedInteger "0b" 2 (fun c => c == '0' || c == '1')
    <|> do
      let negative ← sign
      let n : Int := Text.digitsValue (← wholeDigits)
      wordOrFail (if negative then -n else n)

/-- A power of ten. -/
def power : Reader Int := do
  discard (charIf fun c => c == 'e' || c == 'E')
  let negative ← sign
  let n : Int := Text.digitsValue (← groupedDigits Char.isDigit)
  return if negative then -n else n

/-- A double with a fraction, a power of ten or both. One that is too large is refused. -/
def decimalFloat : Reader Datum := do
  let negative ← sign
  let whole ← wholeDigits
  let fraction ← optional (char '.' *> groupedDigits Char.isDigit)
  let power ← optional power
  if fraction.isNone && power.isNone then failure
  let x := Decimal.Written.toFloat negative ⟨whole, fraction.getD [], power.getD 0⟩
  if x == 1.0 / 0.0 then failure else pure (.float x)

/-- A double that is not finite. -/
def specialFloat : Reader Datum := do
  let negative ← sign
  (do text "inf"; return .float (if negative then -1.0 / 0.0 else 1.0 / 0.0))
    <|> (do text "nan"; return .float (0.0 / 0.0))

/-! ## Dates and times -/

/-- A number of two digits up to a bound. -/
def twoDigits (low high : Nat) : Reader Nat := do
  let n := Text.digitsValue (← exactRun 2 Char.isDigit)
  if low ≤ n && n ≤ high then pure n else failure

/-- The number of days of a month. -/
def daysInMonth (year month : Nat) : Nat :=
  if month == 2 then
    (if year % 4 == 0 && (year % 100 != 0 || year % 400 == 0) then 29 else 28)
  else if month == 4 || month == 6 || month == 9 || month == 11 then 30
  else 31

/-- A day of the calendar. -/
def date : Reader Unit := do
  let year := Text.digitsValue (← exactRun 4 Char.isDigit)
  discard (char '-')
  let month ← twoDigits 1 12
  discard (char '-')
  discard (twoDigits 1 (daysInMonth year month))

/-- A time of the day. -/
def time : Reader Unit := do
  discard (twoDigits 0 23)
  discard (char ':')
  discard (twoDigits 0 59)
  discard (char ':')
  discard (twoDigits 0 60)
  discard (optional (char '.' *> run1 Char.isDigit))

/-- The distance of a time from universal time. -/
def timeOffset : Reader Unit :=
  discard (charIf fun c => c == 'Z' || c == 'z') <|> do
    discard (charIf fun c => c == '+' || c == '-')
    discard (twoDigits 0 23)
    discard (char ':')
    discard (twoDigits 0 59)

/-- The name under which a date or time is kept. -/
def momentName : String := "$date-time"

/-- A date, a time, or both. -/
def moment : Reader Datum := fun cs => do
  let dated : Reader Unit := do
    date
    discard (optional do
      discard (charIf fun c => c == 'T' || c == 't' || c == ' ')
      time
      discard (optional timeOffset))
  let ((), rest) ← (dated <|> time) cs
  let written := cs.take (cs.length - rest.length)
  return (.table [(momentName, .text (String.ofList written))], rest)

/-! ## Scalars -/

/-- A value that is neither an array nor an inline table. -/
def scalar : Reader Datum :=
  (do return .text (← anyText))
    <|> moment <|> decimalFloat <|> specialFloat <|> integer
    <|> (do text "true"; return .bool true)
    <|> (do text "false"; return .bool false)

end SpikeMesh.Toml
