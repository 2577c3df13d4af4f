import Mathlib.Data.List.Forall2
import Mathlib.Data.List.Induction
import Mathlib.Data.List.TakeWhile
import Mathlib.Data.Nat.Digits.Defs
import SpikeMesh.Proofs.Text.Numbers

set_option autoImplicit false

/-! # Which texts are coordinates

A text is a coordinate exactly if it has two fields between commas, a location if it has three, and
each field writes a 32-bit number: blanks, at most one `+`, one or more ASCII digits, blanks. The
texts that coordinates are written as are among them and read back as themselves, so two
coordinates never have the same text (`coordinates_of_text`). -/

namespace SpikeMesh

namespace Text

variable {cs ds field : List Char} {n : Nat} {w : UInt32}

/-! ## Blanks around a text -/

/-- What stands around a trimmed text is blank. -/
theorem exists_around_trim (cs : List Char) : ∃ before after : List Char,
    cs = before ++ trim cs ++ after ∧ (∀ c ∈ before, isBlank c = true) ∧
      ∀ c ∈ after, isBlank c = true := by
  refine ⟨cs.takeWhile isBlank, ((cs.dropWhile isBlank).reverse.takeWhile isBlank).reverse, ?_,
    fun c hc => List.mem_takeWhile_imp hc,
    fun c hc => List.mem_takeWhile_imp (List.mem_reverse.1 hc)⟩
  have hend : trim cs ++ ((cs.dropWhile isBlank).reverse.takeWhile isBlank).reverse
      = cs.dropWhile isBlank := by
    rw [trim, trimEnd, ← List.reverse_append, List.takeWhile_append_dropWhile, List.reverse_reverse]
  rw [List.append_assoc, hend, List.takeWhile_append_dropWhile]

/-- Trimming removes exactly the blanks around a text without blanks. -/
theorem trim_around {before after : List Char} (hbefore : ∀ c ∈ before, isBlank c = true)
    (hne : cs ≠ []) (hcs : ∀ c ∈ cs, isBlank c = false) (hafter : ∀ c ∈ after, isBlank c = true) :
    trim (before ++ cs ++ after) = cs := by
  have hdrop : ∀ (cs rest : List Char), cs ≠ [] → (∀ c ∈ cs, isBlank c = false) →
      (cs ++ rest).dropWhile isBlank = cs ++ rest := by
    intro cs rest hne hcs
    cases cs with
    | nil => exact absurd rfl hne
    | cons c cs =>
        exact List.dropWhile_cons_of_neg (by simp [hcs c List.mem_cons_self])
  have hend : (cs ++ after).reverse.dropWhile isBlank = cs.reverse := by
    rw [List.reverse_append, List.dropWhile_append_of_pos (by simpa using hafter)]
    simpa using hdrop cs.reverse [] (by simpa using hne) (by simpa using hcs)
  rw [trim, List.append_assoc, List.dropWhile_append_of_pos hbefore, hdrop cs after hne hcs,
    trimEnd, hend, List.reverse_reverse]

/-! ## Numbers in fields -/

/-- The value of digits is the number that they write in base ten, the last digit first. -/
theorem digitsValue_eq_ofDigits (ds : List Char) :
    digitsValue ds = Nat.ofDigits 10 (ds.reverse.map digitValue) := by
  induction ds using List.reverseRecOn with
  | nil => rfl
  | append_singleton ds d ih =>
      rw [List.reverse_append, List.reverse_singleton, List.singleton_append, List.map_cons,
        Nat.ofDigits_cons, ← ih]
      simp [digitsValue, digitsValueFrom, Nat.add_comm]

/-- A field writes a number: one or more digits, which denote it in base ten, with at most one `+`
    before them and blanks around. -/
inductive WritesNumber : List Char → UInt32 → Prop
  | intro {before sign ds after : List Char} {w : UInt32}
      (hbefore : ∀ c ∈ before, isBlank c = true) (hsign : sign = [] ∨ sign = ['+'])
      (hne : ds ≠ []) (hds : ∀ c ∈ ds, c.isDigit = true)
      (hvalue : Nat.ofDigits 10 (ds.reverse.map digitValue) = w.toNat)
      (hafter : ∀ c ∈ after, isBlank c = true) :
      WritesNumber (before ++ (sign ++ ds) ++ after) w

theorem readDigits?_eq_some_iff :
    readDigits? ds = some n ↔ ds ≠ [] ∧ (∀ c ∈ ds, c.isDigit = true) ∧ digitsValue ds = n := by
  rw [readDigits?]
  split
  · next h => simp_all
  · next h => simp_all

/-- A number is read off digits with at most one `+` before them. -/
theorem readNatural?_eq_some_iff : readNatural? cs = some n ↔
    ∃ sign ds, cs = sign ++ ds ∧ (sign = [] ∨ sign = ['+']) ∧ readDigits? ds = some n := by
  constructor
  · intro h
    unfold readNatural? at h
    split at h
    case h_1 rest => exact ⟨['+'], rest, rfl, .inr rfl, h⟩
    case h_2 => exact ⟨[], cs, rfl, .inl rfl, h⟩
  · rintro ⟨sign, ds, rfl, rfl | rfl, hds⟩
    · unfold readNatural?
      split
      case h_1 rest hplus =>
        -- digits do not start with a `+`
        rw [List.nil_append] at hplus
        have hdigit := (readDigits?_eq_some_iff.1 hds).2.1 '+' (by simp [hplus])
        exact absurd hdigit (by decide)
      case h_2 => exact hds
    · exact hds

theorem readWord?_eq_some_iff : readWord? cs = some w ↔ readNatural? cs = some w.toNat := by
  rw [readWord?]
  cases h : readNatural? cs with
  | none => simp
  | some n =>
      simp only [Option.some.injEq]
      split
      · next hlt =>
          rw [Option.some.injEq, ← UInt32.toNat_inj, UInt32.toNat_ofNatLT]
      · next hlt =>
          have := w.toNat_lt
          constructor
          · intro h
            exact absurd h (by simp)
          · rintro rfl
            exact absurd this hlt

/-- A field is read as a number exactly if it writes that number. -/
theorem readWord?_trim_eq_some_iff : readWord? (trim field) = some w ↔ WritesNumber field w := by
  rw [readWord?_eq_some_iff, readNatural?_eq_some_iff]
  constructor
  · rintro ⟨sign, ds, htrim, hsign, hread⟩
    obtain ⟨hne, hds, hvalue⟩ := readDigits?_eq_some_iff.1 hread
    obtain ⟨before, after, hfield, hbefore, hafter⟩ := exists_around_trim field
    rw [hfield, htrim]
    exact .intro hbefore hsign hne hds (by rw [← digitsValue_eq_ofDigits, hvalue]) hafter
  · rintro ⟨hbefore, hsign, hne, hds, hvalue, hafter⟩
    rename_i before sign ds after
    have hblank : ∀ c ∈ sign ++ ds, isBlank c = false := by
      intro c hc
      rcases List.mem_append.1 hc with hc | hc
      · rcases hsign with rfl | rfl
        · exact absurd hc (by simp)
        · rw [List.mem_singleton.1 hc]
          decide
      · exact isBlank_of_isDigit (hds c hc)
    have htrim := trim_around hbefore (by simp [hne]) hblank hafter
    refine ⟨sign, ds, htrim, hsign, readDigits?_eq_some_iff.2 ⟨hne, hds, ?_⟩⟩
    rw [digitsValue_eq_ofDigits, hvalue]

/-! ## Fields between commas -/

/-- The fields of a text are the texts without the separator that give the text when they are put
    together with separators between them. -/
theorem fields_eq_iff {sep : Char} {fs : List (List Char)} :
    fields sep cs = fs ↔ fs ≠ [] ∧ [sep].intercalate fs = cs ∧ ∀ f ∈ fs, sep ∉ f := by
  constructor
  · rintro rfl
    refine ⟨fields_ne_nil sep cs, ?_⟩
    induction cs with
    | nil => simp [fields]
    | cons c cs ih =>
        obtain ⟨f, fs, hfs⟩ := List.exists_cons_of_ne_nil (fields_ne_nil sep cs)
        rw [hfs] at ih
        rw [fields]
        split
        · next hc =>
            rw [hfs, List.intercalate_cons_cons, ih.1, hc]
            exact ⟨rfl, by simpa using ih.2⟩
        · next hc =>
            rw [hfs]
            refine ⟨?_, ?_⟩
            · rw [← ih.1]
              cases fs with
              | nil => simp
              | cons f' fs => simp [List.intercalate_cons_cons]
            · simpa [Ne.symm hc] using ih.2
  · rintro ⟨hne, rfl, hfs⟩
    induction fs with
    | nil => exact absurd rfl hne
    | cons f fs ih =>
        have hf := hfs f List.mem_cons_self
        cases fs with
        | nil => simpa using fields_of_not_mem hf
        | cons f' fs =>
            rw [List.intercalate_cons_cons, List.append_assoc, List.singleton_append,
              fields_append_sep hf,
              ih (by simp) fun g hg => hfs g (List.mem_cons_of_mem f hg)]

/-- A text writes numbers: between its commas stand fields that write them, in order. -/
def WritesNumbers (cs : List Char) (ws : List UInt32) : Prop :=
  ∃ fs : List (List Char), fs ≠ [] ∧ [','].intercalate fs = cs ∧ (∀ f ∈ fs, ',' ∉ f) ∧
    List.Forall₂ WritesNumber fs ws

theorem mapM_readWord?_eq_some_iff {fs : List (List Char)} {ws : List UInt32} :
    fs.mapM (fun field => readWord? (trim field)) = some ws ↔ List.Forall₂ WritesNumber fs ws := by
  induction fs generalizing ws with
  | nil =>
      rw [List.mapM_nil, Option.pure_def, Option.some.injEq, List.forall₂_nil_left_iff, eq_comm]
  | cons f fs ih =>
      simp only [List.mapM_cons, Option.bind_eq_bind, Option.bind_eq_some_iff,
        readWord?_trim_eq_some_iff, ih, Option.pure_def, Option.some.injEq]
      constructor
      · rintro ⟨w, hw, ws', hws, rfl⟩
        exact .cons hw hws
      · rintro (_ | ⟨hw, hws⟩)
        exact ⟨_, hw, _, hws, rfl⟩

/-- Numbers are read off a text exactly if it writes them. -/
theorem readWords?_eq_some_iff {ws : List UInt32} :
    readWords? cs = some ws ↔ WritesNumbers cs ws := by
  rw [readWords?, mapM_readWord?_eq_some_iff]
  constructor
  · intro h
    obtain ⟨hne, hjoin, hcommas⟩ := fields_eq_iff.1 (Eq.refl (fields ',' cs))
    exact ⟨fields ',' cs, hne, hjoin, hcommas, h⟩
  · rintro ⟨fs, hne, hjoin, hcommas, h⟩
    rwa [fields_eq_iff.2 ⟨hne, hjoin, hcommas⟩]

end Text

/-! ## Coordinates -/

open Text (WritesNumbers)

namespace ChipCoord

variable {s : String} {c : ChipCoord}

theorem parse_eq_ok_iff : parse s = .ok c ↔ WritesNumbers s.toList [c.x, c.y] := by
  rw [← Text.readWords?_eq_some_iff, parse]
  split
  · next x y hwords => rw [hwords]; cases c; simp
  · next hother => exact ⟨fun h => absurd h (by simp), fun h => absurd h (hother c.x c.y)⟩

/-- A text that is no coordinate is named in the error. -/
theorem parse_eq_error_iff :
    parse s = .error ⟨s, 2⟩ ↔ ∀ c : ChipCoord, ¬ WritesNumbers s.toList [c.x, c.y] := by
  constructor
  · intro h c hc
    rw [parse_eq_ok_iff.2 hc] at h
    exact absurd h (by simp)
  · intro h
    rw [parse]
    split
    · next x y hwords => exact absurd (Text.readWords?_eq_some_iff.1 hwords) (h ⟨x, y⟩)
    · rfl

theorem parse_text (c : ChipCoord) : parse c.text = .ok c := by
  have hread := c.ofText?_text
  rw [ofText?] at hread
  cases hparse : parse c.text with
  | error e => rw [hparse] at hread; exact absurd hread (by simp [Except.toOption])
  | ok c' => rw [hparse] at hread; rw [Option.some.inj hread]

theorem text_injective : Function.Injective text := by
  intro c c' h
  have hparse := parse_text c
  rw [h, parse_text c'] at hparse
  exact (Except.ok.inj hparse).symm

end ChipCoord

namespace Location

variable {s : String} {l : Location}

theorem parse_eq_ok_iff :
    parse s = .ok l ↔ WritesNumbers s.toList [l.chip.x, l.chip.y, l.core] := by
  rw [← Text.readWords?_eq_some_iff, parse]
  split
  · next x y core hwords => rw [hwords]; obtain ⟨⟨_, _⟩, _⟩ := l; simp [and_assoc]
  · next hother =>
      exact ⟨fun h => absurd h (by simp), fun h => absurd h (hother l.chip.x l.chip.y l.core)⟩

theorem parse_eq_error_iff : parse s = .error ⟨s, 3⟩ ↔
    ∀ l : Location, ¬ WritesNumbers s.toList [l.chip.x, l.chip.y, l.core] := by
  constructor
  · intro h l hl
    rw [parse_eq_ok_iff.2 hl] at h
    exact absurd h (by simp)
  · intro h
    rw [parse]
    split
    · next x y core hwords => exact absurd (Text.readWords?_eq_some_iff.1 hwords) (h ⟨⟨x, y⟩, core⟩)
    · rfl

theorem parse_text (l : Location) : parse l.text = .ok l := by
  have hread := l.ofText?_text
  rw [ofText?] at hread
  cases hparse : parse l.text with
  | error e => rw [hparse] at hread; exact absurd hread (by simp [Except.toOption])
  | ok l' => rw [hparse] at hread; rw [Option.some.inj hread]

theorem text_injective : Function.Injective text := by
  intro l l' h
  have hparse := parse_text l
  rw [h, parse_text l'] at hparse
  exact (Except.ok.inj hparse).symm

end Location

/-- **A text is read as a coordinate exactly if it is one.** Reading gives a coordinate exactly if
    the text has two fields between commas (a location: three) that write its numbers, and names the
    text in its error exactly if there are no such numbers. Every coordinate is read back from its
    own text, so no two of them have the same text. -/
theorem coordinates_of_text :
    ((∀ s c, ChipCoord.parse s = .ok c ↔ WritesNumbers s.toList [c.x, c.y]) ∧
      (∀ s, ChipCoord.parse s = .error ⟨s, 2⟩ ↔
        ∀ c : ChipCoord, ¬ WritesNumbers s.toList [c.x, c.y]) ∧
      (∀ c, ChipCoord.parse c.text = .ok c) ∧ Function.Injective ChipCoord.text) ∧
    (∀ s l, Location.parse s = .ok l ↔ WritesNumbers s.toList [l.chip.x, l.chip.y, l.core]) ∧
      (∀ s, Location.parse s = .error ⟨s, 3⟩ ↔
        ∀ l : Location, ¬ WritesNumbers s.toList [l.chip.x, l.chip.y, l.core]) ∧
      (∀ l, Location.parse l.text = .ok l) ∧ Function.Injective Location.text :=
  ⟨⟨fun _ _ => ChipCoord.parse_eq_ok_iff, fun _ => ChipCoord.parse_eq_error_iff,
      ChipCoord.parse_text, ChipCoord.text_injective⟩,
    fun _ _ => Location.parse_eq_ok_iff, fun _ => Location.parse_eq_error_iff,
    Location.parse_text, Location.text_injective⟩

/-- Blanks, a sign and zeros at the front are no part of a number; a blank between two digits and a
    fourth field are refused. -/
example : ChipCoord.parse " +3,\t007 " = .ok ⟨3, 7⟩ ∧
    ChipCoord.parse "1 2,3" = .error ⟨"1 2,3", 2⟩ ∧
    Location.parse "1,2,3,4" = .error ⟨"1,2,3,4", 3⟩ := by decide +kernel

end SpikeMesh
