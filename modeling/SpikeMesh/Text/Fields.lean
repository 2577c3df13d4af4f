import SpikeMesh.Text.Blank
import SpikeMesh.Text.Natural

set_option autoImplicit false

/-! # Separated fields

The fields of a text between separators, and texts joined by a separator. -/

namespace SpikeMesh.Text

/-- The fields of a text between the occurrences of a separator: one more than there are
    separators. -/
def fields (sep : Char) : List Char → List (List Char)
  | [] => [[]]
  | c :: cs =>
    if c = sep then [] :: fields sep cs
    else match fields sep cs with
      | [] => [[c]]
      | f :: fs => (c :: f) :: fs

/-- Every text has a field. -/
theorem fields_ne_nil (sep : Char) (cs : List Char) : fields sep cs ≠ [] := by
  cases cs with
  | nil => simp [fields]
  | cons c cs =>
    rw [fields]
    split
    · simp
    · split <;> simp

/-- A text without the separator is one field. -/
theorem fields_of_not_mem {sep : Char} {cs : List Char} (h : sep ∉ cs) :
    fields sep cs = [cs] := by
  induction cs with
  | nil => rfl
  | cons c cs ih =>
    simp only [List.mem_cons, not_or] at h
    rw [fields, if_neg (Ne.symm h.1), ih h.2]

/-- A field that ends at a separator comes before the fields of the rest. -/
theorem fields_append_sep {sep : Char} {cs : List Char} (h : sep ∉ cs) (rest : List Char) :
    fields sep (cs ++ sep :: rest) = cs :: fields sep rest := by
  induction cs with
  | nil => simp [fields]
  | cons c cs ih =>
    simp only [List.mem_cons, not_or] at h
    rw [List.cons_append, fields, if_neg (Ne.symm h.1), ih h.2]

/-- The numbers of comma-separated fields, blanks around each field aside: none if one
    field is no 32-bit number. -/
def readWords? (cs : List Char) : Option (List UInt32) :=
  (fields ',' cs).mapM fun field => readWord? (trim field)

end SpikeMesh.Text
