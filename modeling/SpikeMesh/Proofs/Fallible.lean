import Mathlib.Data.List.Forall2

set_option autoImplicit false

/-! # Computations that may fail

How a computation that succeeds is taken apart: into the parts of a sequence, and into the steps
of a fold or a map over a list. What all errors of the parts have in common, the errors of the
whole have too. Two computations whose parts correspond fail with the same error. -/

namespace SpikeMesh

variable {ε α β : Type}

/-- A sequence succeeds if both parts do. -/
theorem bind_eq_ok_iff {x : Except ε α} {f : α → Except ε β} {b : β} :
    x >>= f = .ok b ↔ ∃ a, x = .ok a ∧ f a = .ok b := by
  cases x with
  | error e => simp [bind, Except.bind]
  | ok a => simp [bind, Except.bind]

/-- A sequence fails if the first part does, or the second one after it. -/
theorem bind_eq_error_iff {x : Except ε α} {f : α → Except ε β} {e : ε} :
    x >>= f = .error e ↔ x = .error e ∨ ∃ a, x = .ok a ∧ f a = .error e := by
  cases x with
  | error e' => simp [bind, Except.bind]
  | ok a => simp [bind, Except.bind]

theorem ok_bind (a : α) (f : α → Except ε β) : (Except.ok a >>= f) = f a := rfl

theorem error_bind (e : ε) (f : α → Except ε β) : (Except.error e >>= f) = .error e := rfl

theorem pure_eq_ok (a : α) : (pure a : Except ε α) = .ok a := rfl

theorem throw_eq_error (e : ε) : (throw e : Except ε α) = .error e := rfl

/-- A computation that is found to succeed has a value. -/
theorem exists_eq_ok_of_isOk {x : Except ε α} (h : x.isOk = true) : ∃ a, x = .ok a := by
  cases x with
  | error e => exact absurd h (by simp [Except.isOk, Except.toBool])
  | ok a => exact ⟨a, rfl⟩

theorem exists_mapM_eq_ok {f : α → Except ε β} {items : List α}
    (h : ∀ a ∈ items, ∃ b, f a = .ok b) : ∃ bs, items.mapM f = .ok bs := by
  induction items with
  | nil => exact ⟨[], rfl⟩
  | cons a rest ih =>
      obtain ⟨b, hb⟩ := h a List.mem_cons_self
      obtain ⟨bs, hbs⟩ := ih (fun a' ha' => h a' (List.mem_cons_of_mem a ha'))
      exact ⟨b :: bs, by rw [List.mapM_cons, hb, ok_bind, hbs, ok_bind, pure_eq_ok]⟩

theorem mapM_eq_ok_map {f : α → Except ε β} {g : α → β} {items : List α}
    (h : ∀ a ∈ items, f a = .ok (g a)) : items.mapM f = .ok (items.map g) := by
  induction items with
  | nil => rfl
  | cons a rest ih =>
      rw [List.mapM_cons, h a List.mem_cons_self, ok_bind,
        ih (fun a' ha' => h a' (List.mem_cons_of_mem a ha')), ok_bind, pure_eq_ok, List.map_cons]

/-- An action for each of some items succeeds if it does for every item. -/
theorem forM_eq_ok_iff {f : α → Except ε PUnit} {items : List α} :
    items.forM f = .ok () ↔ ∀ a ∈ items, f a = .ok () := by
  induction items with
  | nil => simp [pure_eq_ok]
  | cons a rest ih =>
      show (f a >>= fun _ => rest.forM f) = .ok () ↔ _
      rw [bind_eq_ok_iff, List.forall_mem_cons, ← ih]
      exact ⟨fun ⟨_, ha, hrest⟩ => ⟨ha, hrest⟩, fun ⟨ha, hrest⟩ => ⟨(), ha, hrest⟩⟩

/-- What holds of the start of a fold for no items, and goes on to hold for one more of the items
    with every step that succeeds, holds of the result for all items. -/
theorem foldlM_ok_induction_prefix {step : β → α → Except ε β} (P : List α → β → Prop)
    {items : List α} {start result : β}
    (hstep : ∀ done a b b', done ++ [a] <+: items → P done b → step b a = .ok b' →
      P (done ++ [a]) b')
    (hstart : P [] start) (h : items.foldlM step start = .ok result) : P items result := by
  have hfrom : ∀ (rest done : List α) (b : β), done ++ rest = items → P done b →
      rest.foldlM step b = .ok result → P (done ++ rest) result := by
    intro rest
    induction rest with
    | nil =>
        intro done b _ hb hr
        have hr : b = result := by simpa [pure, Except.pure] using hr
        rw [List.append_nil, ← hr]
        exact hb
    | cons a rest ih =>
        intro done b hitems hb hr
        rw [List.foldlM_cons] at hr
        obtain ⟨b', hb', hr⟩ := bind_eq_ok_iff.1 hr
        have hsplit : done ++ [a] ++ rest = items := by
          rw [List.append_assoc, List.singleton_append, hitems]
        have := ih (done ++ [a]) b' hsplit (hstep done a b b' ⟨rest, hsplit⟩ hb hb') hr
        rwa [List.append_assoc, List.singleton_append] at this
  have := hfrom items [] start rfl hstart h
  rwa [List.nil_append] at this

/-- What holds of the start of a fold for no items, and goes on to hold for one more item with
    every step that succeeds, holds of the result for all items. -/
theorem foldlM_ok_induction {step : β → α → Except ε β} (P : List α → β → Prop)
    (hstep : ∀ done a b b', P done b → step b a = .ok b' → P (done ++ [a]) b')
    {items : List α} {start result : β} (hstart : P [] start)
    (h : items.foldlM step start = .ok result) : P items result :=
  foldlM_ok_induction_prefix P (fun done a b b' _ => hstep done a b b') hstart h

/-- A fold of which each step takes an item away succeeds if all items are there and no two are the
    same, for what is taken away item by item must not be gone already. -/
theorem foldlM_remove_eq_ok_iff {step : β → α → Except ε β} {left : List α → β}
    (Present : α → Prop) (h : ∀ gone a b, step (left gone) a = .ok b ↔
      Present a ∧ a ∉ gone ∧ b = left (gone ++ [a]))
    (items gone : List α) {b : β} : items.foldlM step (left gone) = .ok b ↔
      (∀ a ∈ items, Present a ∧ a ∉ gone) ∧ items.Nodup ∧ b = left (gone ++ items) := by
  induction items generalizing gone with
  | nil => simp [pure_eq_ok, eq_comm]
  | cons a rest ih =>
      rw [List.foldlM_cons, bind_eq_ok_iff]
      constructor
      · rintro ⟨b', hb', hrest⟩
        obtain ⟨hpresent, hgone, rfl⟩ := (h gone a b').1 hb'
        obtain ⟨hall, hnodup, rfl⟩ := (ih _).1 hrest
        refine ⟨?_, ?_, by simp⟩
        · rw [List.forall_mem_cons]
          exact ⟨⟨hpresent, hgone⟩, fun x hx =>
            ⟨(hall x hx).1, fun hmem => (hall x hx).2 (List.mem_append_left _ hmem)⟩⟩
        · exact List.nodup_cons.2 ⟨fun ha => (hall a ha).2 (by simp), hnodup⟩
      · rintro ⟨hall, hnodup, rfl⟩
        rw [List.forall_mem_cons] at hall
        rw [List.nodup_cons] at hnodup
        refine ⟨left (gone ++ [a]), (h gone a _).2 ⟨hall.1.1, hall.1.2, rfl⟩,
          (ih _).2 ⟨?_, hnodup.2, ?_⟩⟩
        · intro x hx
          refine ⟨(hall.2 x hx).1, ?_⟩
          simp only [List.mem_append, List.mem_singleton, not_or]
          exact ⟨(hall.2 x hx).2, fun heq => hnodup.1 (heq ▸ hx)⟩
        · rw [List.append_assoc, List.singleton_append]

/-- Items that are checked one after the other fail at the first of which the check does. -/
theorem foldlM_eq_error_iff {γ : Type} (check : α → Except ε γ) (add : β → α → γ → β)
    {e : ε} (items : List α) (start : β) :
    items.foldlM (fun b a => do return add b a (← check a)) start = .error e ↔
      ∃ front a rest, items = front ++ a :: rest ∧ (∀ x ∈ front, ∃ c, check x = .ok c) ∧
        check a = .error e := by
  induction items generalizing start with
  | nil => simp [pure_eq_ok]
  | cons x items ih =>
      rw [List.foldlM_cons]
      cases hx : check x with
      | error e' =>
          simp only [error_bind, Except.error.injEq]
          constructor
          · intro h
            exact ⟨[], x, items, rfl, by simp, by rw [hx, h]⟩
          · intro h
            obtain ⟨front, a, rest, hsplit, hfront, ha⟩ := h
            cases front with
            | nil =>
                obtain ⟨rfl, -⟩ := List.cons.inj hsplit
                exact Except.error.inj (hx.symm.trans ha)
            | cons y front =>
                obtain ⟨rfl, -⟩ := List.cons.inj hsplit
                obtain ⟨c, hc⟩ := hfront x List.mem_cons_self
                exact absurd (hx.symm.trans hc) (by simp)
      | ok c =>
          simp only [ok_bind, pure_eq_ok]
          refine (ih _).trans ?_
          constructor
          · intro h
            obtain ⟨front, a, rest, hsplit, hfront, ha⟩ := h
            refine ⟨x :: front, a, rest, by rw [hsplit, List.cons_append], ?_, ha⟩
            rw [List.forall_mem_cons]
            exact ⟨⟨c, hx⟩, hfront⟩
          · intro h
            obtain ⟨front, a, rest, hsplit, hfront, ha⟩ := h
            cases front with
            | nil =>
                obtain ⟨rfl, -⟩ := List.cons.inj hsplit
                exact absurd (hx.symm.trans ha) (by simp)
            | cons y front =>
                obtain ⟨rfl, hitems⟩ := List.cons.inj hsplit
                exact ⟨front, a, rest, hitems, fun y hy => hfront y (List.mem_cons_of_mem x hy), ha⟩

/-- A fold fails at one of its items, from what the items before it led to. -/
theorem foldlM_eq_error_iff_exists {step : β → α → Except ε β} {items : List α} {start : β}
    {e : ε} : items.foldlM step start = .error e ↔ ∃ done a rest b, items = done ++ a :: rest ∧
      done.foldlM step start = .ok b ∧ step b a = .error e := by
  constructor
  · intro h
    induction items generalizing start with
    | nil => exact absurd h (by simp [pure_eq_ok])
    | cons x items ih =>
        rw [List.foldlM_cons] at h
        cases hx : step start x with
        | error e' =>
            rw [hx, error_bind] at h
            exact ⟨[], x, items, start, rfl, rfl, hx.trans h⟩
        | ok b =>
            rw [hx, ok_bind] at h
            obtain ⟨done, a, rest, b', hsplit, hdone, ha⟩ := ih h
            refine ⟨x :: done, a, rest, b', by rw [hsplit, List.cons_append], ?_, ha⟩
            rw [List.foldlM_cons, hx, ok_bind, hdone]
  · rintro ⟨done, a, rest, b, rfl, hdone, ha⟩
    rw [List.foldlM_append, hdone, ok_bind, List.foldlM_cons, ha, error_bind]

/-! ## Errors -/

/-- All errors with which a computation may fail have a property. -/
def FailsWith (P : ε → Prop) (x : Except ε α) : Prop := ∀ e, x = .error e → P e

section FailsWith

variable {P : ε → Prop}

theorem failsWith_ok (a : α) : FailsWith P (.ok a : Except ε α) :=
  fun e h => absurd h (by simp)

theorem failsWith_error {e : ε} (h : P e) : FailsWith P (.error e : Except ε α) :=
  fun _ he => Except.error.inj he ▸ h

theorem FailsWith.bind {x : Except ε α} {f : α → Except ε β} (hx : FailsWith P x)
    (hf : ∀ a, FailsWith P (f a)) : FailsWith P (x >>= f) := by
  cases x with
  | error e => exact failsWith_error (hx e rfl)
  | ok a => exact hf a

theorem failsWith_foldlM {step : β → α → Except ε β} {items : List α}
    (h : ∀ b, ∀ a ∈ items, FailsWith P (step b a)) (start : β) :
    FailsWith P (items.foldlM step start) := by
  induction items generalizing start with
  | nil => exact failsWith_ok start
  | cons a rest ih =>
      rw [List.foldlM_cons]
      exact (h start a List.mem_cons_self).bind
        (ih fun b a' ha' => h b a' (List.mem_cons_of_mem a ha'))

theorem failsWith_forM {f : α → Except ε PUnit} {items : List α}
    (h : ∀ a ∈ items, FailsWith P (f a)) : FailsWith P (items.forM f) := by
  induction items with
  | nil => exact failsWith_ok _
  | cons a rest ih =>
      show FailsWith P (f a >>= fun _ => rest.forM f)
      exact (h a List.mem_cons_self).bind fun _ =>
        ih fun a' ha' => h a' (List.mem_cons_of_mem a ha')

theorem failsWith_mapM {f : α → Except ε β} {items : List α}
    (h : ∀ a ∈ items, FailsWith P (f a)) : FailsWith P (items.mapM f) := by
  induction items with
  | nil => exact failsWith_ok []
  | cons a rest ih =>
      rw [List.mapM_cons]
      refine (h a List.mem_cons_self).bind fun _ => ?_
      exact (ih fun a' ha' => h a' (List.mem_cons_of_mem a ha')).bind fun _ => failsWith_ok _

end FailsWith

/-! ## Two computations side by side -/

/-- Both computations fail with the same error, or both succeed, with related values. -/
def Corresponds (R : α → β → Prop) : Except ε α → Except ε β → Prop
  | .ok a, .ok b => R a b
  | .error e, .error e' => e = e'
  | _, _ => False

section Corresponds

variable {α' β' : Type} {R : α → β → Prop} {S : α' → β' → Prop}

theorem corresponds_error (e : ε) : Corresponds R (.error e) (.error e) := rfl

theorem Corresponds.error_iff {x : Except ε α} {y : Except ε β} (h : Corresponds R x y) (e : ε) :
    x = .error e ↔ y = .error e := by
  cases x with
  | error _ =>
      cases y with
      | error _ => rw [show _ = _ from h]; simp
      | ok _ => exact h.elim
  | ok _ =>
      cases y with
      | error _ => exact h.elim
      | ok _ => simp

/-- Computations that correspond by equality are equal. -/
theorem Corresponds.eq {x y : Except ε α} (h : Corresponds Eq x y) : x = y := by
  cases x with
  | error _ =>
      cases y with
      | error _ => rw [show _ = _ from h]
      | ok _ => exact h.elim
  | ok _ =>
      cases y with
      | error _ => exact h.elim
      | ok _ => rw [show _ = _ from h]

theorem Corresponds.bind {x : Except ε α} {y : Except ε β} (h : Corresponds R x y)
    {f : α → Except ε α'} {g : β → Except ε β'} (hfg : ∀ a b, R a b → Corresponds S (f a) (g b)) :
    Corresponds S (x >>= f) (y >>= g) := by
  cases x with
  | error _ =>
      cases y with
      | error _ => exact h
      | ok _ => exact h.elim
  | ok a =>
      cases y with
      | error _ => exact h.elim
      | ok b => exact hfg a b h

/-- Folds correspond whose steps do, over lists of partners. -/
theorem corresponds_foldlM {step : β → α → Except ε β} {step' : β' → α' → Except ε β'}
    {T : β → β' → Prop} {P : α → α' → Prop} {items : List α} {items' : List α'}
    (hitems : List.Forall₂ P items items')
    (hstep : ∀ b b' a a', T b b' → P a a' → Corresponds T (step b a) (step' b' a'))
    {start : β} {start' : β'} (hstart : T start start') :
    Corresponds T (items.foldlM step start) (items'.foldlM step' start') := by
  induction hitems generalizing start start' with
  | nil => exact hstart
  | @cons a a' rest rest' ha _ ih =>
      rw [List.foldlM_cons, List.foldlM_cons]
      exact (hstep start start' a a' hstart ha).bind fun _ _ hb => ih hb

end Corresponds

end SpikeMesh
