import Mathlib.Algebra.Group.Nat.Defs
import SpikeMesh.Graph.Model

set_option autoImplicit false

/-! # Reading items off bytes

An encoding is readable if an item can be read off the front of a string of bytes, whatever
follows it. Encodings of one width are readable if they tell items apart; a list of readable items
is, once it is known where the list ends. -/

namespace SpikeMesh

variable {α : Type} {P : α → Prop} {encode : α → List UInt8}

/-- Of the items with a property, one can be read off the front of a string of bytes. -/
def Readable (P : α → Prop) (encode : α → List UInt8) : Prop :=
  ∀ a b s t, P a → P b → encode a ++ s = encode b ++ t → a = b ∧ s = t

theorem readable_of_width (width : Nat) (hwidth : ∀ a, (encode a).length = width)
    (hinj : ∀ a b, encode a = encode b → a = b) : Readable P encode := by
  intro a b s t _ _ h
  obtain ⟨hab, hst⟩ := List.append_inj h ((hwidth a).trans (hwidth b).symm)
  exact ⟨hinj a b hab, hst⟩

/-! ## Lists -/

theorem length_flatMap_of_width {width : Nat} (hwidth : ∀ a, (encode a).length = width)
    (items : List α) : (items.flatMap encode).length = width * items.length := by
  induction items with
  | nil => rfl
  | cons a rest ih =>
      rw [List.flatMap_cons, List.length_append, ih, hwidth, List.length_cons, Nat.mul_succ,
        Nat.add_comm]

theorem Readable.flatMap_inj (h : Readable P encode) {as bs : List α} {s t : List UInt8}
    (has : ∀ a ∈ as, P a) (hbs : ∀ b ∈ bs, P b) (hlength : as.length = bs.length)
    (heq : as.flatMap encode ++ s = bs.flatMap encode ++ t) : as = bs ∧ s = t := by
  induction as generalizing bs with
  | nil =>
      obtain rfl := List.length_eq_zero_iff.1 hlength.symm
      exact ⟨rfl, heq⟩
  | cons a as ih =>
      obtain ⟨b, bs, rfl⟩ := List.exists_cons_of_length_eq_add_one hlength.symm
      simp only [List.flatMap_cons, List.append_assoc] at heq
      obtain ⟨rfl, hrest⟩ :=
        h a b _ _ (has a List.mem_cons_self) (hbs b List.mem_cons_self) heq
      obtain ⟨rfl, hst⟩ := ih (fun a' ha' => has a' (List.mem_cons_of_mem _ ha'))
        (fun b' hb' => hbs b' (List.mem_cons_of_mem _ hb')) (Nat.succ.inj hlength) hrest
      exact ⟨rfl, hst⟩

/-- Items of one width need nothing to end them. -/
theorem flatMap_inj_of_width (width : Nat) (hpos : 0 < width)
    (hwidth : ∀ a, (encode a).length = width) (h : Readable (fun _ => True) encode)
    {as bs : List α} (heq : as.flatMap encode = bs.flatMap encode) : as = bs := by
  have hsame := congrArg List.length heq
  rw [length_flatMap_of_width hwidth, length_flatMap_of_width hwidth] at hsame
  exact (h.flatMap_inj (s := []) (t := []) (fun _ _ => trivial) (fun _ _ => trivial)
    (Nat.eq_of_mul_eq_mul_left hpos hsame) (by rw [heq])).1

/-- An encoding starts with a byte other than a mark. -/
def Unmarked (mark : UInt8) (bytes : List UInt8) : Prop := ∃ b rest, bytes = b :: rest ∧ b ≠ mark

/-- It is known where two lists that are followed by a mark end: they are equally long, or none of
    their items can be taken for the mark. -/
def EndsKnown (mark : UInt8) (encode : α → List UInt8) (as bs : List α) : Prop :=
  as.length = bs.length ∨ ∀ a, a ∈ as ∨ a ∈ bs → Unmarked mark (encode a)

theorem Readable.flatMap_mark_inj (h : Readable P encode) {mark : UInt8} {as bs : List α}
    {s t : List UInt8} (has : ∀ a ∈ as, P a) (hbs : ∀ b ∈ bs, P b)
    (hends : EndsKnown mark encode as bs)
    (heq : as.flatMap encode ++ mark :: s = bs.flatMap encode ++ mark :: t) :
    as = bs ∧ s = t := by
  rcases hends with hlength | hmarks
  · obtain ⟨hab, hst⟩ := h.flatMap_inj has hbs hlength heq
    exact ⟨hab, List.tail_eq_of_cons_eq hst⟩
  · induction as generalizing bs with
    | nil =>
        cases bs with
        | nil => exact ⟨rfl, List.tail_eq_of_cons_eq heq⟩
        | cons b bs =>
            obtain ⟨first, rest, hb, hne⟩ := hmarks b (Or.inr List.mem_cons_self)
            rw [List.flatMap_cons, hb] at heq
            exact absurd (List.head_eq_of_cons_eq heq).symm hne
    | cons a as ih =>
        cases bs with
        | nil =>
            obtain ⟨first, rest, ha, hne⟩ := hmarks a (Or.inl List.mem_cons_self)
            rw [List.flatMap_cons, ha] at heq
            exact absurd (List.head_eq_of_cons_eq heq) hne
        | cons b bs =>
            simp only [List.flatMap_cons, List.append_assoc] at heq
            obtain ⟨rfl, hrest⟩ :=
              h a b _ _ (has a List.mem_cons_self) (hbs b List.mem_cons_self) heq
            obtain ⟨rfl, hst⟩ := ih (fun a' ha' => has a' (List.mem_cons_of_mem _ ha'))
              (fun b' hb' => hbs b' (List.mem_cons_of_mem _ hb')) hrest
              (fun c hc => hmarks c (hc.imp (List.mem_cons_of_mem _) (List.mem_cons_of_mem _)))
            exact ⟨rfl, hst⟩

/-- A string of bytes is read up to the first zero, if it has none of its own. -/
theorem append_zero_inj {as bs s t : List UInt8} (has : 0 ∉ as) (hbs : 0 ∉ bs)
    (h : as ++ 0 :: s = bs ++ 0 :: t) : as = bs ∧ s = t := by
  have hunmarked : ∀ bytes : List UInt8, 0 ∉ bytes → ∀ b ∈ bytes, Unmarked 0 [b] :=
    fun bytes hzero b hb => ⟨b, [], rfl, fun hb0 => hzero (hb0 ▸ hb)⟩
  have hbyte : Readable (fun _ => True) fun b : UInt8 => [b] :=
    readable_of_width 1 (fun _ => rfl) (by simp)
  have hends : EndsKnown 0 (fun b : UInt8 => [b]) as bs := by
    refine Or.inr ?_
    rintro b (hb | hb)
    · exact hunmarked as has b hb
    · exact hunmarked bs hbs b hb
  exact hbyte.flatMap_mark_inj (fun _ _ => trivial) (fun _ _ => trivial) hends
    (by simpa only [List.flatMap_singleton'] using h)

/-! ## Numbers -/

theorem toNat_byte (n : UInt32) {shift : UInt32} {k : Nat} (hk : shift.toNat = k) (h : k < 32) :
    (n >>> shift).toUInt8.toNat = n.toNat / 2 ^ k % 2 ^ 8 := by
  rw [UInt32.toNat_toUInt8, UInt32.toNat_shiftRight, hk, Nat.mod_eq_of_lt h,
    Nat.shiftRight_eq_div_pow]

theorem littleEndian32_inj {m n : UInt32} (h : littleEndian32 m = littleEndian32 n) : m = n := by
  simp only [littleEndian32, List.cons.injEq, ← UInt8.toNat_inj] at h
  obtain ⟨h0, h1, h2, h3, -⟩ := h
  rw [UInt32.toNat_toUInt8, UInt32.toNat_toUInt8] at h0
  have hbyte : ∀ {shift : UInt32} (k : Nat), shift.toNat = k → k < 32 →
      (m >>> shift).toUInt8.toNat = (n >>> shift).toUInt8.toNat →
      m.toNat / 2 ^ k % 2 ^ 8 = n.toNat / 2 ^ k % 2 ^ 8 := by
    intro shift k hk hlt heq
    rwa [toNat_byte m hk hlt, toNat_byte n hk hlt] at heq
  have h1 := hbyte 8 rfl (by decide) h1
  have h2 := hbyte 16 rfl (by decide) h2
  have h3 := hbyte 24 rfl (by decide) h3
  have hm := m.toNat_lt
  have hn := n.toNat_lt
  exact UInt32.toNat_inj.1 (by omega)

theorem readable_littleEndian32 : Readable (fun _ => True) littleEndian32 :=
  readable_of_width 4 (fun _ => rfl) fun _ _ => littleEndian32_inj

/-- A number is read off its bytes. -/
theorem littleEndian32_append_inj {m n : UInt32} {s t : List UInt8}
    (h : littleEndian32 m ++ s = littleEndian32 n ++ t) : m = n ∧ s = t :=
  readable_littleEndian32 m n s t trivial trivial h

end SpikeMesh
