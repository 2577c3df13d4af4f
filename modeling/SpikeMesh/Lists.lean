set_option autoImplicit false

/-! # Lists

The sum of a number over the items of a list, with its value on the ways in which lists are built;
lists that grow by an item only if it is new; and the first of the items with the least key. -/

namespace SpikeMesh

/-! ## Totals -/

section Totals

variable {α : Type}

/-- The sum of a number over the items of a list. -/
def total (f : α → Nat) (items : List α) : Nat := items.foldr (fun a sum => f a + sum) 0

@[simp]
theorem total_nil (f : α → Nat) : total f [] = 0 := rfl

@[simp]
theorem total_cons (f : α → Nat) (a : α) (rest : List α) :
    total f (a :: rest) = f a + total f rest := rfl

@[simp]
theorem total_append (f : α → Nat) (front back : List α) :
    total f (front ++ back) = total f front + total f back := by
  induction front with
  | nil => simp
  | cons a front ih => simp [ih, Nat.add_assoc]

theorem total_map {β : Type} (f : β → Nat) (g : α → β) (items : List α) :
    total f (items.map g) = total (fun a => f (g a)) items :=
  List.foldr_map ..

/-- Items that are picked by one of two tests are picked by the first, up to those that the second
    picks. -/
theorem total_filter_le_add {f : α → Nat} {items : List α} {picked first second : α → Bool}
    (h : ∀ a ∈ items, picked a = true → first a = true ∨ second a = true) :
    total f (items.filter picked)
      ≤ total f (items.filter first) + total f (items.filter second) := by
  induction items with
  | nil => simp
  | cons a rest ih =>
      have hrest := ih (fun b hb => h b (List.mem_cons_of_mem a hb))
      have ha := h a List.mem_cons_self
      simp only [List.filter_cons]
      split <;> split <;> split <;> simp_all <;> omega

/-- The total grows with the items that are picked. -/
theorem total_filter_le {f : α → Nat} {items : List α} {fewer picked : α → Bool}
    (h : ∀ a ∈ items, fewer a = true → picked a = true) :
    total f (items.filter fewer) ≤ total f (items.filter picked) := by
  have hmore : total f (items.filter fewer) ≤
      total f (items.filter picked) + total f (items.filter fun _ => false) :=
    total_filter_le_add fun a ha hpick => .inl (h a ha hpick)
  have hnone : items.filter (fun _ => false) = [] := List.filter_eq_nil_iff.2 (by simp)
  rwa [hnone, total_nil, Nat.add_zero] at hmore

/-- If an item is no longer picked, and no other one is picked that was not before, then the total
    is less by what the item adds. -/
theorem total_filter_add_le {f : α → Nat} {items : List α} {fewer picked : α → Bool}
    (h : ∀ a ∈ items, fewer a = true → picked a = true) {a : α} (ha : a ∈ items)
    (hpicked : picked a = true) (hfewer : fewer a = false) :
    total f (items.filter fewer) + f a ≤ total f (items.filter picked) := by
  induction items with
  | nil => simp at ha
  | cons b rest ih =>
      have hrest := fun c hc => h c (List.mem_cons_of_mem b hc)
      have hb := h b List.mem_cons_self
      rcases List.mem_cons.1 ha with rfl | ha
      · have hmono := total_filter_le (f := f) hrest
        rw [List.filter_cons_of_pos hpicked, List.filter_cons_of_neg (by simp [hfewer]), total_cons]
        omega
      · have hless := ih hrest ha
        cases hpick : fewer b with
        | true =>
            rw [List.filter_cons_of_pos hpick, List.filter_cons_of_pos (hb hpick), total_cons,
              total_cons]
            omega
        | false =>
            rw [List.filter_cons_of_neg (by simp [hpick]), List.filter_cons]
            split
            · rw [total_cons]
              omega
            · exact hless

variable {β : Type} {n n' : α → Nat} {items : List α}

theorem exists_pos_of_total_pos (h : 0 < total n items) : ∃ a ∈ items, 0 < n a := by
  induction items with
  | nil => simp at h
  | cons a rest ih =>
      rw [total_cons] at h
      by_cases ha : 0 < n a
      · exact ⟨a, List.mem_cons_self, ha⟩
      · obtain ⟨b, hb, hpos⟩ := ih (by omega)
        exact ⟨b, List.mem_cons_of_mem a hb, hpos⟩

theorem le_total_of_mem {a : α} (h : a ∈ items) : n a ≤ total n items := by
  induction items with
  | nil => simp at h
  | cons b rest ih =>
      rw [total_cons]
      rcases List.mem_cons.1 h with rfl | h
      · exact Nat.le_add_right ..
      · exact Nat.le_trans (ih h) (Nat.le_add_left ..)

theorem total_congr (h : ∀ a ∈ items, n a = n' a) : total n items = total n' items := by
  induction items with
  | nil => rfl
  | cons a rest ih =>
      rw [total_cons, total_cons, h a List.mem_cons_self,
        ih (fun b hb => h b (List.mem_cons_of_mem a hb))]

/-- One less at the item with a key, and the same at all others, is one less in total. -/
theorem total_add_one (key : α → β) (h : items.Pairwise (fun a b => key a ≠ key b)) {a : α}
    (ha : a ∈ items) (hless : n a + 1 = n' a) (hsame : ∀ b, key b ≠ key a → n b = n' b) :
    total n items + 1 = total n' items := by
  induction items with
  | nil => simp at ha
  | cons b rest ih =>
      rw [List.pairwise_cons] at h
      rw [total_cons, total_cons]
      rcases List.mem_cons.1 ha with rfl | ha
      · rw [total_congr fun b hb => hsame b (h.1 b hb).symm]
        omega
      · rw [hsame b (h.1 a ha), ← ih h.2 ha]
        omega

end Totals

/-! ## New items -/

section New

variable {α : Type} [DecidableEq α]

/-- The items of a list and one more, if it is new. -/
def addNew (items : List α) (a : α) : List α :=
  if a ∈ items then items else items ++ [a]

theorem mem_addNew {items : List α} {a b : α} :
    b ∈ addNew items a ↔ b ∈ items ∨ b = a := by
  unfold addNew
  split
  · next h => exact ⟨Or.inl, fun hb => hb.elim id fun heq => heq ▸ h⟩
  · rw [List.mem_append, List.mem_singleton]

theorem nodup_addNew {items : List α} {a : α} (h : items.Nodup) :
    (addNew items a).Nodup := by
  unfold addNew
  split
  · exact h
  · next hnew =>
      refine List.nodup_append.2 ⟨h, List.nodup_cons.2 ⟨List.not_mem_nil, List.nodup_nil⟩, ?_⟩
      rintro b hb c hc rfl
      exact hnew (List.mem_singleton.1 hc ▸ hb)

end New

/-! ## Least items -/

/-- The first of the items whose key is the least. -/
def firstLeast? {α κ : Type} [Ord κ] (key : α → κ) : List α → Option α
  | [] => none
  | a :: rest =>
    some (rest.foldl (fun best b => if (compare (key best) (key b)).isLE then best else b) a)

end SpikeMesh
