import SpikeMesh.Json.Reader
import SpikeMesh.Json.Writer
import SpikeMesh.Proofs.Text.Numbers
import SpikeMesh.Proofs.Text.Readers

set_option autoImplicit false

/-! # Texts and numbers in JSON, read back

Every character is read back from its escaped form, so every text is from its quoted one; and
every integer of 64 bits, with or without a sign, is from its digits, as long as what follows them
is no part of a number. -/

namespace SpikeMesh.Json

open Text (Reader)
open Text.Reader

/-! ## Texts -/

/-- The four hexadecimal digits of a control character denote its number. -/
theorem hexDigits_of_lt : ∀ n < 32, (Text.hexDigits 4 n).length = 4 ∧
    (Text.hexDigits 4 n).all Text.isHexDigit = true ∧
    Text.hexNumber (Text.hexDigits 4 n) = n := by
  decide

theorem takes_hex4 {n : Nat} (h : n < 32) (rest : List Char) :
    Takes hex4 (Text.hexDigits 4 n ++ rest) n rest := by
  obtain ⟨hlength, hhex, hnumber⟩ := hexDigits_of_lt n h
  have htakes := (takes_exactRun (List.all_eq_true.1 hhex) rest).map Text.hexNumber
  rwa [hlength, hnumber] at htakes

theorem takes_unicodeEscape {c : Char} (h : c.toNat < 32) (rest : List Char) :
    Takes unicodeEscape (Text.hexDigits 4 c.toNat ++ rest) c rest := by
  refine (takes_hex4 h rest).bind ?_
  have hchar : Text.charOfNumber? c.toNat = some c := by
    have hvalid : c.toNat.isValidChar := c.valid
    rw [Text.charOfNumber?, if_pos hvalid, Char.ofNat_toNat]
  rw [if_neg (by simp; omega), hchar]
  exact takes_pure c rest

/-- A character is read back from its escaped form. -/
theorem takes_textChar (c : Char) (rest : List Char) :
    Takes textChar (escape c ++ rest) c rest := by
  unfold escape
  split
  case isTrue h => rw [eq_of_beq h]; rfl
  split
  case isTrue h => rw [eq_of_beq h]; rfl
  split
  case isTrue h => rw [eq_of_beq h]; rfl
  split
  case isTrue h => rw [eq_of_beq h]; rfl
  split
  case isTrue h => rw [eq_of_beq h]; rfl
  split
  case isTrue h => rw [eq_of_beq h]; rfl
  split
  case isTrue h => rw [eq_of_beq h]; rfl
  split
  case isTrue h => exact takes_unicodeEscape h rest
  case isFalse hquote hslash _ _ _ _ _ hcontrol =>
    have hquote : c ≠ '"' := fun h => hquote (beq_iff_eq.2 h)
    have hplain : 32 ≤ c.toNat := Nat.le_of_not_lt hcontrol
    refine (takes_charIf (by simp [hquote, hplain]) rest).bind ?_
    split
    case h_1 => exact absurd rfl hslash
    case h_2 => exact takes_pure c rest

theorem escape_ne_nil (c : Char) : escape c ≠ [] := by
  intro h
  have htakes := takes_textChar c []
  rw [h] at htakes
  exact nomatch htakes

theorem toList_quote (s : String) :
    (quote s).toList = '"' :: (s.toList.flatMap escape ++ ['"']) := String.toList_ofList

/-- A text is read back from its quoted form. -/
theorem takes_quoted (s : String) (rest : List Char) :
    Takes quoted ((quote s).toList ++ rest) s rest := by
  have hrepeats : ∀ cs : List Char,
      Repeats textChar (cs.flatMap escape ++ '"' :: rest) cs ('"' :: rest) := by
    intro cs
    induction cs with
    | nil => exact .stop rfl
    | cons c cs ih =>
        rw [List.flatMap_cons, List.append_assoc]
        refine .step (takes_textChar c _) ?_ ih
        have := List.length_pos_iff.2 (escape_ne_nil c)
        simp only [List.length_append]
        omega
  rw [toList_quote, List.cons_append, List.append_assoc]
  refine (takes_char '"' _).discard.bind ((hrepeats s.toList).many.bind ?_)
  refine (takes_char '"' rest).discard.bind ?_
  rw [String.ofList_toList]
  exact takes_pure s rest

/-! ## Numbers -/

/-- Whether a character after digits would belong to the number. -/
def isNumberPart (c : Char) : Bool := c.isDigit || c == '.' || c == 'e' || c == 'E'

section Number

variable {rest : List Char}

theorem takes_wholeDigits (hrest : Ends isNumberPart rest) (n : Nat) :
    Takes wholeDigits (Text.digits n ++ rest) (Text.digits n) rest := by
  have hends : Ends Char.isDigit rest := hrest.mono fun c hc => by simp [isNumberPart, hc]
  refine (takes_run1 (Text.digits_ne_nil n) (fun _ => Text.isDigit_of_mem_digits) hends).bind ?_
  have hzero : ¬ ((Text.digits n).head? == some '0' && (Text.digits n).length != 1) = true := by
    intro h
    rw [Bool.and_eq_true, beq_iff_eq] at h
    obtain rfl := Text.eq_zero_of_head?_digits h.1
    exact absurd h.2 (by simp [Text.digits_of_lt])
  rw [if_neg hzero]
  exact takes_pure _ rest

/-- Where no part of a number follows, a number has neither a fraction nor a power. -/
theorem takes_fractionDigits (hrest : Ends isNumberPart rest) :
    Takes fractionDigits rest none rest := by
  have hpoint : Ends (· == '.') rest := hrest.mono fun c hc => by simp [isNumberPart, hc]
  exact (hpoint.refuses.seqRight _).optional

theorem takes_power (hrest : Ends isNumberPart rest) : Takes power rest none rest := by
  have hexponent : Ends (fun c => c == 'e' || c == 'E') rest := hrest.mono fun c hc => by
    simp only [Bool.or_eq_true] at hc
    simp only [isNumberPart, Bool.or_eq_true]
    tauto
  exact hexponent.refuses.discard.bind.optional

theorem numberValue_digits (negative : Bool) (n : Nat) {i : Int}
    (hi : i = if negative then -(n : Int) else n) (hsign : negative = true → n ≠ 0)
    (hmin : Int64.minValue.toInt ≤ i) (hmax : i < UInt64.size) :
    numberValue negative (Text.digits n) none none = .int i := by
  have hvalue : (if negative then -((Text.digitsValue (Text.digits n) : Nat) : Int)
      else (Text.digitsValue (Text.digits n) : Nat)) = i := by rw [Text.digitsValue_digits, hi]
  simp only [numberValue, hvalue]
  rw [if_pos]
  simp only [Bool.and_eq_true, decide_eq_true_eq, hmin, hmax, true_and, Bool.not_eq_true',
    Bool.and_eq_false_iff, Text.digitsValue_digits]
  cases negative with
  | false => exact .inl rfl
  | true => exact .inr (by simpa using hsign rfl)

/-- An integer of 64 bits is read back from its digits. -/
theorem takes_number {i : Int} (hmin : Int64.minValue.toInt ≤ i) (hmax : i < UInt64.size)
    (hrest : Ends isNumberPart rest) :
    Takes number ((Text.integer i).toList ++ rest) (.int i) rest := by
  -- what follows the sign is the same for all numbers
  have hunsigned : ∀ (sign : Option Char),
      (i = if sign.isSome then -(i.natAbs : Int) else i.natAbs) →
      (sign.isSome = true → i.natAbs ≠ 0) →
      Takes (do
        let whole ← wholeDigits
        let fraction ← fractionDigits
        let power ← power
        return numberValue sign.isSome whole fraction power)
        (Text.digits i.natAbs ++ rest) (.int i) rest := by
    intro sign hi hsign
    refine (takes_wholeDigits hrest i.natAbs).bind ?_
    refine (takes_fractionDigits hrest).bind ((takes_power hrest).bind ?_)
    rw [numberValue_digits sign.isSome i.natAbs hi hsign hmin hmax]
    exact takes_pure _ rest
  unfold Text.integer
  split
  case isTrue hneg =>
    have hi : i = -(i.natAbs : Int) := by omega
    rw [String.toList_append, Text.toList_natural]
    exact (takes_char '-' _).optional.bind (hunsigned (some '-') hi fun _ => by omega)
  case isFalse hnonneg =>
    have hi : i = i.natAbs := by omega
    rw [Text.toList_natural]
    refine Takes.bind (Refuses.optional ?_) (hunsigned none hi fun h => absurd h (by simp))
    cases hdigits : Text.digits i.natAbs with
    | nil => exact absurd hdigits (Text.digits_ne_nil _)
    | cons c cs =>
        refine refuses_char ?_ (cs ++ rest)
        rintro rfl
        have : '-' ∈ Text.digits i.natAbs := by simp [hdigits]
        exact absurd (Text.isDigit_of_mem_digits this) (by decide)

end Number

end SpikeMesh.Json
