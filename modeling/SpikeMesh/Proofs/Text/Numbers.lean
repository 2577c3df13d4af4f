import Mathlib.Data.List.Basic
import SpikeMesh.Datum.Domain

set_option autoImplicit false

/-! # Numbers in decimal, read back

The digits of a number denote the number, and have no zero before others. So a number is read back
from its text, alone, as the name of an entry, or between commas; and with the numbers the
coordinates and ids that are made of them. -/

namespace SpikeMesh

namespace Text

/-! ## Digits -/

@[simp] theorem toList_natural (n : Nat) : (natural n).toList = digits n := String.toList_ofList

theorem digits_ne_nil (n : Nat) : digits n ≠ [] := Nat.toDigits_ne_nil

theorem isDigit_of_mem_digits {n : Nat} {c : Char} (h : c ∈ digits n) : c.isDigit = true :=
  Nat.isDigit_of_mem_toDigits (by decide) (by decide) h

theorem digitsValue_digits (n : Nat) : digitsValue (digits n) = n :=
  Nat.ofDigitChars_ten_toDigits

theorem natural_injective {n m : Nat} (h : natural n = natural m) : n = m := by
  rw [← digitsValue_digits n, ← digitsValue_digits m, ← toList_natural, h, toList_natural]

theorem digits_of_lt {n : Nat} (h : n < 10) : digits n = [n.digitChar] :=
  Nat.toDigits_of_lt_base h

theorem digits_of_le {n : Nat} (h : 10 ≤ n) :
    digits n = digits (n / 10) ++ [(n % 10).digitChar] :=
  Nat.toDigits_of_base_le (by decide) h

/-- Only the number zero starts with a zero. -/
theorem eq_zero_of_head?_digits {n : Nat} (h : (digits n).head? = some '0') : n = 0 := by
  induction n using Nat.strongRecOn with
  | _ n ih =>
      by_cases hn : n < 10
      · rw [digits_of_lt hn, List.head?_cons, Option.some.injEq] at h
        have hzero : ∀ m < 10, Nat.digitChar m = '0' → m = 0 := by decide
        exact hzero n hn h
      · have hle := Nat.le_of_not_lt hn
        rw [digits_of_le hle, List.head?_append_of_ne_nil _ (digits_ne_nil _)] at h
        have := ih (n / 10) (by omega) h
        omega

/-- No zero comes before other digits. -/
theorem digits_ne_zero_cons_cons {n : Nat} {c : Char} {rest : List Char} :
    digits n ≠ '0' :: c :: rest := by
  intro h
  obtain rfl := eq_zero_of_head?_digits (by rw [h]; rfl)
  exact absurd h (by simp [digits_of_lt])

/-! ## Reading -/

theorem readDigits?_digits (n : Nat) : readDigits? (digits n) = some n := by
  have hall : (digits n).all Char.isDigit = true :=
    List.all_eq_true.2 fun c hc => isDigit_of_mem_digits hc
  rw [readDigits?, if_pos (by simp [digits_ne_nil, hall]), digitsValue_digits]

theorem readNatural?_digits (n : Nat) : readNatural? (digits n) = some n := by
  unfold readNatural?
  split
  case h_1 rest hplus =>
    have : '+' ∈ digits n := by simp [hplus]
    exact absurd (isDigit_of_mem_digits this) (by decide)
  case h_2 => exact readDigits?_digits n

theorem readWord?_digits (n : UInt32) : readWord? (digits n.toNat) = some n := by
  have hlt : n.toNat < UInt32.size := n.toNat_lt
  simp [readWord?, readNatural?_digits, hlt]

theorem isBlank_of_isDigit {c : Char} (h : c.isDigit = true) : isBlank c = false := by
  obtain ⟨hlow, hhigh⟩ := Char.isDigit_iff_toNat.1 h
  have hlow : 48 ≤ c.toNat := hlow
  have hhigh : c.toNat ≤ 57 := hhigh
  simp only [isBlank, Bool.or_eq_false_iff, Bool.and_eq_false_iff, decide_eq_false_iff_not,
    beq_eq_false_iff_ne]
  omega

/-- Blanks are removed around a text, not from one without blanks. -/
theorem trim_of_no_blank {cs : List Char} (h : ∀ c ∈ cs, isBlank c = false) : trim cs = cs := by
  have hdrop : ∀ cs : List Char, (∀ c ∈ cs, isBlank c = false) → cs.dropWhile isBlank = cs := by
    intro cs hcs
    cases cs with
    | nil => rfl
    | cons c cs => rw [List.dropWhile_cons_of_neg (by simp [hcs c List.mem_cons_self])]
  rw [trim, hdrop cs h, trimEnd, hdrop cs.reverse (by simpa using h), List.reverse_reverse]

theorem trim_digits (n : Nat) : trim (digits n) = digits n :=
  trim_of_no_blank fun _ hc => isBlank_of_isDigit (isDigit_of_mem_digits hc)

theorem comma_notMem_digits (n : Nat) : ',' ∉ digits n := fun h =>
  absurd (isDigit_of_mem_digits h) (by decide)

theorem readWords?_digits (n : UInt32) : readWords? (digits n.toNat) = some [n] := by
  simp [readWords?, fields_of_not_mem (comma_notMem_digits n.toNat), trim_digits, readWord?_digits]

/-- A number is read off the front of numbers with commas between them. -/
theorem readWords?_digits_append (n : UInt32) {cs : List Char} {ns : List UInt32}
    (h : readWords? cs = some ns) : readWords? (digits n.toNat ++ ',' :: cs) = some (n :: ns) := by
  rw [readWords?] at h ⊢
  rw [fields_append_sep (comma_notMem_digits n.toNat), List.mapM_cons, trim_digits,
    readWord?_digits, h]
  rfl

end Text

/-- A number is read back from the name of an entry. -/
theorem Datum.numberKey?_natural (n : UInt32) :
    Datum.numberKey? (Text.natural n.toNat) = some n := by
  have hlt : n.toNat < UInt32.size := n.toNat_lt
  unfold Datum.numberKey?
  rw [Text.toList_natural]
  split
  case h_1 c rest hzero => exact absurd hzero Text.digits_ne_zero_cons_cons
  case h_2 => simp [Text.readDigits?_digits, hlt]

/-! ## Coordinates and ids -/

@[simp] theorem ChipCoord.ofText?_text (c : ChipCoord) : ChipCoord.ofText? c.text = some c := by
  have hwords : Text.readWords? c.text.toList = some [c.x, c.y] := by
    simpa [ChipCoord.text] using
      Text.readWords?_digits_append c.x (Text.readWords?_digits c.y)
  rw [ChipCoord.ofText?, ChipCoord.parse, hwords]
  rfl

@[simp] theorem Location.ofText?_text (l : Location) : Location.ofText? l.text = some l := by
  have hwords : Text.readWords? l.text.toList = some [l.chip.x, l.chip.y, l.core] := by
    simpa [Location.text, ChipCoord.text] using
      Text.readWords?_digits_append l.chip.x
        (Text.readWords?_digits_append l.chip.y (Text.readWords?_digits l.core))
  rw [Location.ofText?, Location.parse, hwords]
  rfl

@[simp] theorem Id.ofText?_text {kind : IdKind} (id : Id kind) : Id.ofText? id.text = some id := by
  rw [Id.ofText?, Id.text, Datum.numberKey?_natural]
  rfl

end SpikeMesh
