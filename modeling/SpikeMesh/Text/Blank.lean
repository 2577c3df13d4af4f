set_option autoImplicit false

/-! # Blank characters

The characters with Unicode's `White_Space` property, and the removal of blanks from both
ends of a text. Texts are handled as character lists, so that a reader recurses on the data. -/

namespace SpikeMesh.Text

/-- Whether a character has Unicode's `White_Space` property. -/
def isBlank (c : Char) : Bool :=
  let n := c.toNat
  (9 ≤ n && n ≤ 13) || n == 0x20 || n == 0x85 || n == 0xA0 || n == 0x1680
    || (0x2000 ≤ n && n ≤ 0x200A) || n == 0x2028 || n == 0x2029 || n == 0x202F
    || n == 0x205F || n == 0x3000

/-- The text without the blanks at its end. -/
def trimEnd (cs : List Char) : List Char :=
  (cs.reverse.dropWhile isBlank).reverse

/-- The text without the blanks at its two ends. -/
def trim (cs : List Char) : List Char :=
  trimEnd (cs.dropWhile isBlank)

end SpikeMesh.Text
