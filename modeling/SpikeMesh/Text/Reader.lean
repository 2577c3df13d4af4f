set_option autoImplicit false

/-! # Readers

A reader takes characters from the front of a text and gives a value, or fails. An alternative
starts again where the first reader started. -/

namespace SpikeMesh.Text

/-- A step that takes a value from the front of a text and leaves the rest. -/
abbrev Reader := StateT (List Char) Option

namespace Reader

variable {α : Type}

/-- The value of the whole text, if the reader takes all of it. -/
def readAll? (r : Reader α) (cs : List Char) : Option α :=
  match r.run cs with
  | some (a, []) => some a
  | _ => none

/-- One character of a class. -/
def charIf (p : Char → Bool) : Reader Char := fun cs =>
  match cs with
  | c :: rest => if p c then some (c, rest) else none
  | [] => none

/-- The given character. -/
def char (c : Char) : Reader Char := charIf (· == c)

/-- The given characters, one after the other. -/
def exactly (cs : List Char) : Reader Unit := fun input =>
  if cs.isPrefixOf input then some ((), input.drop cs.length) else none

/-- The given text. -/
def text (s : String) : Reader Unit := exactly s.toList

/-- The longest run of characters of a class, possibly none. -/
def run (p : Char → Bool) : Reader (List Char) := fun cs =>
  some (cs.takeWhile p, cs.dropWhile p)

/-- The longest run of characters of a class, at least one. -/
def run1 (p : Char → Bool) : Reader (List Char) := do
  let cs ← run p
  if cs.isEmpty then failure else pure cs

/-- The next character, which stays. -/
def peek? : Reader (Option Char) := fun cs => some (cs.head?, cs)

/-- Nothing, where the text has ended. -/
def atEnd : Reader Unit := fun cs => if cs.isEmpty then some ((), cs) else none

/-- At most `limit` values, as long as the reader gives one. -/
def upTo (limit : Nat) (r : Reader α) : Reader (List α) :=
  match limit with
  | 0 => pure []
  | limit + 1 => do
    match ← optional r with
    | none => pure []
    | some a => return a :: (← upTo limit r)

/-- As many values as the reader gives. A reader that takes at least one character each time
    gives no more values than there are characters. -/
def many (r : Reader α) : Reader (List α) := fun cs => upTo (cs.length + 1) r cs

/-- Exactly `count` characters of a class. -/
def exactRun (count : Nat) (p : Char → Bool) : Reader (List Char) := fun cs =>
  let taken := cs.take count
  if taken.length == count && taken.all p then some (taken, cs.drop count) else none

end Reader

/-! ## Hexadecimal digits and characters by number -/

/-- The value of a hexadecimal digit in either case. -/
def hexValue? (c : Char) : Option Nat :=
  if c.isDigit then some (c.toNat - '0'.toNat)
  else if 'a' ≤ c ∧ c ≤ 'f' then some (c.toNat - 'a'.toNat + 10)
  else if 'A' ≤ c ∧ c ≤ 'F' then some (c.toNat - 'A'.toNat + 10)
  else none

/-- Whether a character is a hexadecimal digit. -/
def isHexDigit (c : Char) : Bool := (hexValue? c).isSome

/-- The number that hexadecimal digits denote. -/
def hexNumber (cs : List Char) : Nat :=
  cs.foldl (fun n c => 16 * n + (hexValue? c).getD 0) 0

/-- The character with a number, if there is one. -/
def charOfNumber? (n : Nat) : Option Char :=
  if n.isValidChar then some (Char.ofNat n) else none

end SpikeMesh.Text
