import SpikeMesh.Datum.Basic
import SpikeMesh.Decimal.NumberText
import SpikeMesh.Text.Hex

set_option autoImplicit false

/-! # Writing JSON

A data tree as JSON text, either compact, without blanks, or indented by two blanks a level
with one value per line. Texts escape quotes, backslashes and control characters only. -/

namespace SpikeMesh.Json

/-- The escaped form of a character inside a text. -/
def escape (c : Char) : List Char :=
  if c == '"' then ['\\', '"']
  else if c == '\\' then ['\\', '\\']
  else if c == '\n' then ['\\', 'n']
  else if c == '\r' then ['\\', 'r']
  else if c == '\t' then ['\\', 't']
  else if c == Char.ofNat 8 then ['\\', 'b']
  else if c == Char.ofNat 12 then ['\\', 'f']
  else if c.toNat < 32 then ['\\', 'u'] ++ Text.hexDigits 4 c.toNat
  else [c]

/-- A text in quotes. -/
def quote (s : String) : String :=
  String.ofList ('"' :: (s.toList.flatMap escape ++ ['"']))

/-- The text of a value that is neither a list nor a table. -/
def scalar : Datum → String
  | .null => "null"
  | .bool true => "true"
  | .bool false => "false"
  | .int n => Text.integer n
  | .float x => Decimal.NumberStyle.json.text x
  | .text s => quote s
  | .list _ | .table _ => ""

mutual

/-- Compact JSON text. -/
def compact : Datum → String
  | .list items => "[" ++ compactItems items ++ "]"
  | .table entries => "\x7b" ++ compactEntries entries ++ "\x7d"
  | d => scalar d

/-- The items of a list with commas between them. -/
def compactItems : List Datum → String
  | [] => ""
  | [d] => compact d
  | d :: rest => compact d ++ "," ++ compactItems rest

/-- The entries of a table with commas between them. -/
def compactEntries : List (String × Datum) → String
  | [] => ""
  | [(name, d)] => quote name ++ ":" ++ compact d
  | (name, d) :: rest => quote name ++ ":" ++ compact d ++ "," ++ compactEntries rest

end

/-- The start of a new line at a level. -/
def newLine (level : Nat) : String := "\n" ++ String.ofList (List.replicate (2 * level) ' ')

mutual

/-- Indented JSON text of a value at a level. -/
def indentedAt (level : Nat) : Datum → String
  | .list [] => "[]"
  | .list items => "[" ++ indentedItems (level + 1) items ++ newLine level ++ "]"
  | .table [] => "\x7b\x7d"
  | .table entries =>
    "\x7b" ++ indentedEntries (level + 1) entries ++ newLine level ++ "\x7d"
  | d => scalar d

/-- The items of a list, each on its line. -/
def indentedItems (level : Nat) : List Datum → String
  | [] => ""
  | [d] => newLine level ++ indentedAt level d
  | d :: rest => newLine level ++ indentedAt level d ++ "," ++ indentedItems level rest

/-- The entries of a table, each on its line. -/
def indentedEntries (level : Nat) : List (String × Datum) → String
  | [] => ""
  | [(name, d)] => newLine level ++ quote name ++ ": " ++ indentedAt level d
  | (name, d) :: rest =>
    newLine level ++ quote name ++ ": " ++ indentedAt level d ++ ","
      ++ indentedEntries level rest

end

/-- Indented JSON text. -/
def indented (d : Datum) : String := indentedAt 0 d

end SpikeMesh.Json
