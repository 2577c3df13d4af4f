import Mathlib.Data.List.Count
import Mathlib.Data.List.Forall2
import Mathlib.Data.List.Pairwise
import SpikeMesh.Lists
import Std.Data.ExtTreeMap
import Std.Data.ExtTreeSet

set_option autoImplicit false

/-! # Lists, ordered maps and sets

Partners in two related lists, items that are told apart by a key, and items that repeat; what a
scan of an ordered list passes, and the least and the largest of some items; look-ups in maps that
are built entry by entry, and the entries of a map that have one key. The keys are those of a lawful
order, so that equal keys are one key. -/

namespace SpikeMesh

/-! ## Related lists -/

section Related

variable {α β : Type} {R : α → β → Prop} {as : List α} {bs : List β}

/-- An item of the first list has a partner in the second. -/
theorem exists_partner_right (h : List.Forall₂ R as bs) {a : α} (ha : a ∈ as) :
    ∃ b ∈ bs, R a b := by
  induction h with
  | nil => simp at ha
  | @cons a' b as bs hab _ ih =>
      rcases List.mem_cons.1 ha with rfl | ha
      · exact ⟨b, List.mem_cons_self, hab⟩
      · obtain ⟨b', hb', hr⟩ := ih ha
        exact ⟨b', List.mem_cons_of_mem _ hb', hr⟩

/-- An item of the second list has a partner in the first. -/
theorem exists_partner_left (h : List.Forall₂ R as bs) {b : β} (hb : b ∈ bs) :
    ∃ a ∈ as, R a b :=
  exists_partner_right (R := flip R) h.flip hb

/-- Items are related in pairs if their partners in another list are. -/
theorem pairwise_of_sublistForall₂ {S : β → β → Prop} {T : α → α → Prop}
    (hT : ∀ a a' b b', R a b → R a' b' → S b b' → T a a')
    (h : List.SublistForall₂ R as bs) (hS : bs.Pairwise S) : as.Pairwise T := by
  obtain ⟨partners, hpartners, hsub⟩ := List.sublistForall₂_iff.1 h
  have hS := hS.sublist hsub
  clear h hsub
  induction hpartners with
  | nil => exact List.Pairwise.nil
  | cons hab hrest ih =>
      rw [List.pairwise_cons] at hS ⊢
      refine ⟨fun a' ha' => ?_, ih hS.2⟩
      obtain ⟨b', hb', hab'⟩ := exists_partner_right hrest ha'
      exact hT _ _ _ _ hab hab' (hS.1 b' hb')

/-- An item of a list that is related to a part of another has a partner there. -/
theorem exists_partner_of_sublistForall₂ (h : List.SublistForall₂ R as bs) {a : α} (ha : a ∈ as) :
    ∃ b ∈ bs, R a b := by
  obtain ⟨partners, hpartners, hsub⟩ := List.sublistForall₂_iff.1 h
  obtain ⟨b, hb, hab⟩ := exists_partner_right hpartners ha
  exact ⟨b, hsub.subset hb, hab⟩

end Related

/-- Items that are told apart by a key are equal if their keys are. -/
theorem eq_of_pairwise_ne {α β : Type} (key : α → β) {items : List α}
    (h : items.Pairwise (fun a b => key a ≠ key b)) {a b : α} (ha : a ∈ items) (hb : b ∈ items)
    (hkey : key a = key b) : a = b := by
  have : Std.Symm (fun a b => key a ≠ key b) := ⟨fun _ _ hne => hne.symm⟩
  by_contra hne
  exact h.forall ha hb hne hkey

/-- Among items that are told apart by a key, one item has its key. -/
theorem filter_key_eq_singleton {α β : Type} [DecidableEq β] (key : α → β) {items : List α}
    (h : items.Pairwise (fun a b => key a ≠ key b)) {a : α} (ha : a ∈ items) :
    items.filter (fun b => key b = key a) = [a] := by
  induction items with
  | nil => simp at ha
  | cons x rest ih =>
      rw [List.pairwise_cons] at h
      rcases List.mem_cons.1 ha with rfl | hrest
      · have hnone : rest.filter (fun b => key b = key a) = [] := by
          rw [List.filter_eq_nil_iff]
          intro b hb
          simpa using (h.1 b hb).symm
        rw [List.filter_cons_of_pos (by simp), hnone]
      · rw [List.filter_cons_of_neg (by simpa using h.1 a hrest)]
        exact ih h.2 hrest

/-- Of items made for keys that are told apart, those labelled with a key are the ones made for
    it. -/
theorem filter_flatMap_of_key {α β γ : Type} [DecidableEq γ] (key : α → γ) (label : β → γ)
    (make : α → List β) {items : List α} (hkeys : items.Pairwise (fun a b => key a ≠ key b))
    (hlabel : ∀ a ∈ items, ∀ b ∈ make a, label b = key a) {a : α} (ha : a ∈ items) :
    (items.flatMap make).filter (fun b => label b = key a) = make a := by
  have hmake : ∀ rest ⊆ items, (rest.flatMap make).filter (fun b => label b = key a)
      = (rest.filter fun x => key x = key a).flatMap make := by
    intro rest hrest
    induction rest with
    | nil => rfl
    | cons x rest ih =>
        obtain ⟨hx, hrest⟩ := List.cons_subset.1 hrest
        rw [List.flatMap_cons, List.filter_append, ih hrest]
        by_cases hkey : key x = key a
        · have hall : (make x).filter (fun b => label b = key a) = make x := by
            refine List.filter_eq_self.2 ?_
            intro b hb
            simpa [hkey] using hlabel x hx b hb
          rw [hall, List.filter_cons_of_pos (by simpa using hkey), List.flatMap_cons]
        · have hnone : (make x).filter (fun b => label b = key a) = [] := by
            refine List.filter_eq_nil_iff.2 ?_
            intro b hb
            simpa [hlabel x hx b hb] using hkey
          rw [hnone, List.filter_cons_of_neg (by simpa using hkey), List.nil_append]
  rw [hmake items (List.Subset.refl items), filter_key_eq_singleton key hkeys ha,
    List.flatMap_singleton]

/-- Items that each make for something are no more than what they make for. -/
theorem length_le_length_flatMap {α β : Type} {f : α → List β} {items : List α}
    (h : ∀ a ∈ items, 1 ≤ (f a).length) : items.length ≤ (items.flatMap f).length := by
  induction items with
  | nil => exact Nat.zero_le _
  | cons a rest ih =>
      have ha := h a List.mem_cons_self
      have hrest := ih (fun b hb => h b (List.mem_cons_of_mem a hb))
      rw [List.flatMap_cons, List.length_append, List.length_cons]
      omega

/-- No item is left twice when repetitions are erased. -/
theorem nodup_eraseDups {α : Type} [BEq α] [LawfulBEq α] (items : List α) :
    items.eraseDups.Nodup := by
  cases items with
  | nil => exact List.nodup_nil
  | cons a rest =>
      rw [List.eraseDups_cons, List.nodup_cons]
      exact ⟨by simp, nodup_eraseDups _⟩
termination_by items.length
decreasing_by
  rw [List.length_cons]
  exact Nat.lt_succ_of_le (List.length_filter_le _ _)

theorem two_le_count {α : Type} [DecidableEq α] {done rest : List α} {a : α} (h : a ∈ done) :
    2 ≤ (done ++ a :: rest).count a := by
  have hcount := List.one_le_count_iff.2 h
  rw [List.count_append, List.count_cons_self]
  omega

/-- What every item is read back from is read back in a row. -/
theorem mapM_map_eq_some {α β : Type} {f : β → Option α} {g : α → β} (h : ∀ a, f (g a) = some a)
    (items : List α) : (items.map g).mapM f = some items := by
  induction items with
  | nil => rfl
  | cons a rest ih => simp [List.mapM_cons, h, ih]

/-! ## Ordered lists -/

/-- Where whatever comes before an item with a property has it too, the items up to the first
    without the property are all that have it. -/
theorem mem_takeWhile_iff {α : Type} {p : α → Bool} {items : List α}
    (h : items.Pairwise fun a b => p b = true → p a = true) {a : α} :
    a ∈ items.takeWhile p ↔ a ∈ items ∧ p a = true := by
  induction items with
  | nil => simp
  | cons x rest ih =>
      rw [List.pairwise_cons] at h
      by_cases hx : p x = true
      · rw [List.takeWhile_cons_of_pos hx, List.mem_cons, List.mem_cons, ih h.2]
        constructor
        · rintro (rfl | ⟨ha, hp⟩)
          · exact ⟨.inl rfl, hx⟩
          · exact ⟨.inr ha, hp⟩
        · rintro ⟨rfl | ha, hp⟩
          · exact .inl rfl
          · exact .inr ⟨ha, hp⟩
      · rw [List.takeWhile_cons_of_neg hx]
        refine ⟨fun ha => absurd ha (by simp), ?_⟩
        rintro ⟨ha, hp⟩
        rcases List.mem_cons.1 ha with rfl | ha
        · exact absurd hp hx
        · exact absurd (h.1 a ha hp) hx

/-- Likewise the items from there on are all that do not have it. -/
theorem mem_dropWhile_iff {α : Type} {p : α → Bool} {items : List α}
    (h : items.Pairwise fun a b => p b = true → p a = true) {a : α} :
    a ∈ items.dropWhile p ↔ a ∈ items ∧ p a = false := by
  induction items with
  | nil => simp
  | cons x rest ih =>
      rw [List.pairwise_cons] at h
      by_cases hx : p x = true
      · rw [List.dropWhile_cons_of_pos hx, ih h.2, List.mem_cons]
        constructor
        · rintro ⟨ha, hp⟩
          exact ⟨.inr ha, hp⟩
        · rintro ⟨rfl | ha, hp⟩
          · exact absurd hx (by simp [hp])
          · exact ⟨ha, hp⟩
      · rw [List.dropWhile_cons_of_neg hx]
        refine ⟨fun ha => ⟨ha, ?_⟩, fun ha => ha.1⟩
        rw [Bool.eq_false_iff]
        rcases List.mem_cons.1 ha with rfl | ha
        · exact hx
        · exact fun hp => hx (h.1 a ha hp)

/-- Items that were sorted by a key are in the order of their keys. -/
theorem pairwise_mergeSort_isLE {α γ : Type} [Ord α] [Std.TransOrd α] (key : γ → α)
    (items : List γ) :
    (items.mergeSort fun a b => (compare (key a) (key b)).isLE).Pairwise
      fun a b => (compare (key a) (key b)).isLE = true := by
  refine List.pairwise_mergeSort (fun _ _ _ => Std.TransCmp.isLE_trans) ?_ items
  intro a b
  rw [Std.OrientedOrd.eq_swap (a := key b)]
  cases compare (key a) (key b) <;> rfl

section Least

variable {α κ : Type} [Ord κ] {key : α → κ} {items : List α} {a : α}

theorem firstLeast?_eq_none_iff : firstLeast? key items = none ↔ items = [] := by
  cases items <;> simp [firstLeast?]

theorem firstLeast?_eq_some [Std.TransOrd κ] (h : firstLeast? key items = some a) :
    a ∈ items ∧ ∀ b ∈ items, (compare (key a) (key b)).isLE = true := by
  -- a scan that has a best item so far ends with one that is as good as all
  have hscan : ∀ (rest : List α) (best : α),
      let least := rest.foldl
        (fun best b => if (compare (key best) (key b)).isLE then best else b) best
      least ∈ best :: rest ∧ ∀ b ∈ best :: rest, (compare (key least) (key b)).isLE = true := by
    intro rest
    induction rest with
    | nil =>
        intro best
        exact ⟨List.mem_singleton_self best, fun b hb =>
          List.mem_singleton.1 hb ▸ Std.ReflCmp.isLE_rfl⟩
    | cons b rest ih =>
        intro best
        rw [List.foldl_cons]
        split
        · next hle =>
            obtain ⟨hmem, hleast⟩ := ih best
            obtain ⟨hbest, hrest⟩ := List.forall_mem_cons.1 hleast
            refine ⟨by grind, List.forall_mem_cons.2 ⟨hbest, List.forall_mem_cons.2 ⟨?_, hrest⟩⟩⟩
            exact Std.TransCmp.isLE_trans hbest hle
        · next hgt =>
            obtain ⟨hmem, hleast⟩ := ih b
            refine ⟨List.mem_cons_of_mem best hmem, List.forall_mem_cons.2 ⟨?_, hleast⟩⟩
            refine Std.TransCmp.isLE_trans (hleast b List.mem_cons_self) ?_
            rw [Std.OrientedOrd.eq_swap (a := key b)]
            cases hcompare : compare (key best) (key b) <;> simp [hcompare] at hgt ⊢
  cases items with
  | nil => exact absurd h (by simp [firstLeast?])
  | cons first rest =>
      obtain rfl := Option.some.inj h
      exact hscan rest first

end Least

/-! ## Largest words -/

theorem le_max_iff {n a b : UInt64} : n ≤ max a b ↔ n ≤ a ∨ n ≤ b := by
  show n ≤ (if a ≤ b then b else a) ↔ _
  split
  · next h => exact ⟨.inr, fun hn => hn.elim (fun hn => UInt64.le_trans hn h) id⟩
  · next h =>
      have h := UInt64.le_of_lt (UInt64.not_le.1 h)
      exact ⟨.inl, fun hn => hn.elim id fun hn => UInt64.le_trans hn h⟩

theorem le_foldl_max_iff {n start : UInt64} {amounts : List UInt64} :
    n ≤ amounts.foldl max start ↔ n ≤ start ∨ ∃ a ∈ amounts, n ≤ a := by
  induction amounts generalizing start with
  | nil => simp
  | cons a rest ih => simp only [List.foldl_cons, ih, le_max_iff, or_assoc, List.mem_cons,
      exists_eq_or_imp]

/-- The largest amount of some items is enough if that of one of them is. -/
theorem le_largest_iff {α : Type} {items : List α} {a : α} (ha : a ∈ items) (amount : α → UInt64)
    {n : UInt64} :
    n ≤ (items.map amount).foldl max 0 ↔ ∃ a ∈ items, n ≤ amount a := by
  rw [le_foldl_max_iff]
  constructor
  · rintro (hzero | ⟨x, hx, hn⟩)
    · exact ⟨a, ha, UInt64.le_trans hzero UInt64.zero_le⟩
    · obtain ⟨a, ha, rfl⟩ := List.mem_map.1 hx
      exact ⟨a, ha, hn⟩
  · rintro ⟨a, ha, hn⟩
    exact .inr ⟨amount a, List.mem_map_of_mem ha, hn⟩

variable {α β : Type} [Ord α] [Std.TransOrd α] [Std.LawfulEqOrd α]

/-! ## Maps -/

/-- A look-up after an insertion. -/
theorem getElem?_insert_of_lawful [DecidableEq α] (m : Std.ExtTreeMap α β) (k a : α) (v : β) :
    (m.insert k v)[a]? = if k = a then some v else m[a]? := by
  rw [Std.ExtTreeMap.getElem?_insert]
  by_cases h : k = a
  · rw [if_pos h, if_pos (Std.LawfulEqCmp.compare_eq_iff_eq.2 h)]
  · rw [if_neg h, if_neg (fun he => h (Std.LawfulEqCmp.compare_eq_iff_eq.1 he))]

/-- A look-up after a removal. -/
theorem getElem?_erase_of_lawful [DecidableEq α] (m : Std.ExtTreeMap α β) (k a : α) :
    (m.erase k)[a]? = if k = a then none else m[a]? := by
  rw [Std.ExtTreeMap.getElem?_erase]
  by_cases h : k = a
  · rw [if_pos h, if_pos (Std.LawfulEqCmp.compare_eq_iff_eq.2 h)]
  · rw [if_neg h, if_neg (fun he => h (Std.LawfulEqCmp.compare_eq_iff_eq.1 he))]

/-- A look-up after a change at one key. -/
theorem getElem?_modify_of_lawful [DecidableEq α] (m : Std.ExtTreeMap α β) (k a : α)
    (f : β → β) : (m.modify k f)[a]? = if k = a then m[a]?.map f else m[a]? := by
  rw [Std.ExtTreeMap.getElem?_modify]
  by_cases h : k = a
  · rw [if_pos h, if_pos (Std.LawfulEqCmp.compare_eq_iff_eq.2 h), h]
  · rw [if_neg h, if_neg (fun he => h (Std.LawfulEqCmp.compare_eq_iff_eq.1 he))]

/-- No two entries of a map have the same key. -/
theorem toList_pairwise_fst_ne (m : Std.ExtTreeMap α β) :
    m.toList.Pairwise (fun a b => a.1 ≠ b.1) := by
  refine m.distinct_keys_toList.imp ?_
  intro a b h he
  exact h (Std.LawfulEqCmp.compare_eq_iff_eq.2 he)

/-- The entries of a map with one key are what a look-up finds. -/
theorem toList_filter_fst [DecidableEq α] (m : Std.ExtTreeMap α β) (k : α) :
    m.toList.filter (fun e => e.1 = k) = (m[k]?.toList).map (fun v => (k, v)) := by
  cases h : m[k]? with
  | none =>
      rw [Option.toList_none, List.map_nil, List.filter_eq_nil_iff]
      rintro ⟨a, v⟩ he hk
      have hak : a = k := by simpa using hk
      rw [hak, Std.ExtTreeMap.mem_toList_iff_getElem?_eq_some, h] at he
      exact absurd he (by simp)
  | some v =>
      exact filter_key_eq_singleton Prod.fst (toList_pairwise_fst_ne m)
        (Std.ExtTreeMap.mem_toList_iff_getElem?_eq_some.2 h)

/-- In a map filled from a list of entries with distinct keys every entry is found. -/
theorem getElem?_foldl_insert_of_mem {γ : Type} (key : γ → α) (value : γ → β) (entries : List γ)
    (hd : entries.Pairwise (fun a b => key a ≠ key b)) {e : γ} (he : e ∈ entries)
    (m : Std.ExtTreeMap α β) :
    (entries.foldl (fun m e => m.insert (key e) (value e)) m)[key e]? = some (value e) := by
  classical
  have hkeep : ∀ (rest : List γ) (m : Std.ExtTreeMap α β), (∀ x ∈ rest, key e ≠ key x) →
      (rest.foldl (fun m e => m.insert (key e) (value e)) m)[key e]? = m[key e]? := by
    intro rest
    induction rest with
    | nil => intro m _; rfl
    | cons x rest ih =>
        intro m hx
        rw [List.foldl_cons, ih _ (fun y hy => hx y (List.mem_cons_of_mem _ hy)),
          getElem?_insert_of_lawful, if_neg (hx x List.mem_cons_self).symm]
  induction entries generalizing m with
  | nil => simp at he
  | cons x rest ih =>
      rw [List.pairwise_cons] at hd
      rw [List.foldl_cons]
      rcases List.mem_cons.1 he with rfl | hrest
      · rw [hkeep rest _ hd.1, getElem?_insert_of_lawful, if_pos rfl]
      · exact ih hd.2 hrest _

/-- What a map holds that is filled from a list of entries with distinct keys. -/
theorem getElem?_foldl_insert_eq_some_iff {γ : Type} (key : γ → α) (value : γ → β)
    (entries : List γ) (hd : entries.Pairwise (fun a b => key a ≠ key b)) (k : α) (v : β) :
    (entries.foldl (fun m e => m.insert (key e) (value e))
      (∅ : Std.ExtTreeMap α β))[k]? = some v ↔ ∃ e ∈ entries, key e = k ∧ value e = v := by
  classical
  constructor
  · have hfrom : ∀ (entries : List γ) (m : Std.ExtTreeMap α β),
        (entries.foldl (fun m e => m.insert (key e) (value e)) m)[k]? = some v →
          (∃ e ∈ entries, key e = k ∧ value e = v) ∨ m[k]? = some v := by
      intro entries
      induction entries with
      | nil => intro m h; exact .inr h
      | cons x rest ih =>
          intro m h
          rcases ih _ h with ⟨e, he, hke⟩ | h
          · exact .inl ⟨e, List.mem_cons_of_mem x he, hke⟩
          · rw [getElem?_insert_of_lawful] at h
            by_cases hx : key x = k
            · rw [if_pos hx] at h
              exact .inl ⟨x, List.mem_cons_self, hx, Option.some.inj h⟩
            · rw [if_neg hx] at h
              exact .inr h
    intro h
    rcases hfrom entries ∅ h with he | h
    · exact he
    · exact absurd h (by simp)
  · rintro ⟨e, he, rfl, rfl⟩
    exact getElem?_foldl_insert_of_mem key value entries hd he ∅

/-- A map is the one that is filled from its entries, whatever their order. -/
theorem foldl_insert_of_perm {m : Std.ExtTreeMap α β} {entries : List (α × β)}
    (h : entries.Perm m.toList) : entries.foldl (fun m e => m.insert e.1 e.2) ∅ = m := by
  have hd : entries.Pairwise fun a b => a.1 ≠ b.1 :=
    (h.pairwise_iff fun hne => hne.symm).2 (toList_pairwise_fst_ne m)
  refine Std.ExtTreeMap.ext_getElem? ?_
  intro k
  refine Option.ext ?_
  intro v
  rw [getElem?_foldl_insert_eq_some_iff Prod.fst Prod.snd _ hd,
    ← Std.ExtTreeMap.mem_toList_iff_getElem?_eq_some]
  constructor
  · rintro ⟨e, he, rfl, rfl⟩
    exact h.mem_iff.1 he
  · intro he
    exact ⟨(k, v), h.mem_iff.2 he, rfl, rfl⟩

theorem foldl_insert_toList (m : Std.ExtTreeMap α β) :
    m.toList.foldl (fun m e => m.insert e.1 e.2) ∅ = m :=
  foldl_insert_of_perm (.refl _)

/-- A look-up after removals. -/
theorem getElem?_foldl_erase [DecidableEq α] (keys : List α) (m : Std.ExtTreeMap α β) (k : α) :
    (keys.foldl (fun m key => m.erase key) m)[k]? = if k ∈ keys then none else m[k]? := by
  induction keys generalizing m with
  | nil => simp
  | cons x rest ih =>
      rw [List.foldl_cons, ih, getElem?_erase_of_lawful]
      by_cases hrest : k ∈ rest
      · rw [if_pos hrest, if_pos (List.mem_cons_of_mem x hrest)]
      · rw [if_neg hrest]
        by_cases hx : x = k
        · rw [if_pos hx, if_pos (by simp [hx])]
        · rw [if_neg hx, if_neg (by simp [hrest, Ne.symm hx])]

/-! ## Sets -/

/-- The members of a set to which items of a list were added. -/
theorem mem_foldl_insert {γ : Type} (key : γ → α) (items : List γ) (s : Std.ExtTreeSet α)
    (a : α) :
    a ∈ items.foldl (fun s x => s.insert (key x)) s ↔ (∃ x ∈ items, key x = a) ∨ a ∈ s := by
  induction items generalizing s with
  | nil => simp
  | cons x rest ih =>
      rw [List.foldl_cons, ih, Std.ExtTreeSet.mem_insert, Std.LawfulEqCmp.compare_eq_iff_eq]
      simp only [List.mem_cons, exists_eq_or_imp]
      exact or_left_comm.trans or_assoc.symm |>.trans (by rw [or_assoc])

/-- A set is the one to which its items are added. -/
theorem foldl_insert_toList_set (s : Std.ExtTreeSet α) :
    s.toList.foldl (fun s a => s.insert a) ∅ = s := by
  refine Std.ExtTreeSet.ext_mem ?_
  intro a
  refine (mem_foldl_insert (fun a => a) s.toList ∅ a).trans ?_
  simp

/-- Items with distinct keys that are new to a set make it larger by their number. -/
theorem size_foldl_insert {γ : Type} (key : γ → α) (items : List γ)
    (hd : items.Pairwise (fun a b => key a ≠ key b)) (s : Std.ExtTreeSet α)
    (hnew : ∀ x ∈ items, key x ∉ s) :
    (items.foldl (fun s x => s.insert (key x)) s).size = s.size + items.length := by
  induction items generalizing s with
  | nil => rfl
  | cons x rest ih =>
      rw [List.pairwise_cons] at hd
      have hrest : ∀ y ∈ rest, key y ∉ s.insert (key x) := by
        intro y hy hmem
        rw [Std.ExtTreeSet.mem_insert, Std.LawfulEqCmp.compare_eq_iff_eq] at hmem
        rcases hmem with heq | hmem
        · exact hd.1 y hy heq
        · exact hnew y (List.mem_cons_of_mem x hy) hmem
      rw [List.foldl_cons, ih hd.2 _ hrest, Std.ExtTreeSet.size_insert,
        if_neg (hnew x List.mem_cons_self ∘ Std.ExtTreeSet.mem_iff_contains.2), List.length_cons]
      omega

theorem size_pos_iff {s : Std.ExtTreeSet α} : 0 < s.size ↔ ∃ a, a ∈ s := by
  rw [← Std.ExtTreeSet.length_toList, List.length_pos_iff_exists_mem]
  simp only [Std.ExtTreeSet.mem_toList]

theorem size_erase_add_one {s : Std.ExtTreeSet α} {a : α} (h : a ∈ s) :
    (s.erase a).size + 1 = s.size := by
  have hpos := size_pos_iff.2 ⟨a, h⟩
  rw [Std.ExtTreeSet.size_erase, if_pos (Std.ExtTreeSet.mem_iff_contains.1 h)]
  omega

/-- The items of a set are listed once each. -/
theorem nodup_toList (s : Std.ExtTreeSet α) : s.toList.Nodup := by
  refine s.distinct_toList.imp ?_
  intro a b h he
  exact h (Std.LawfulEqCmp.compare_eq_iff_eq.2 he)

end SpikeMesh
