import SpikeMesh.Text.Reader

set_option autoImplicit false

/-! # What readers take

What each reader takes from the front of a text, and what it leaves. A reader that is used as
often as it gives a value goes through a chain of texts, each shorter than the one before
(`Reader.Repeats`), and so never gets near the limit of its repetition. -/

namespace SpikeMesh.Text.Reader

variable {α β : Type} {r : Reader α} {p : Char → Bool} {cs rest : List Char}

/-- The reader takes a value from the front of a text and leaves the rest. -/
def Takes (r : Reader α) (cs : List Char) (a : α) (rest : List Char) : Prop :=
  StateT.run r cs = some (a, rest)

/-- The reader fails on a text. -/
def Refuses (r : Reader α) (cs : List Char) : Prop := StateT.run r cs = none

/-! ## Readers one after the other -/

theorem takes_pure (a : α) (cs : List Char) : Takes (pure a) cs a cs := rfl

/-- A reader goes on where the one before it stopped. -/
theorem Takes.bind {a : α} {f : α → Reader β} {cs' : List Char} {b : β}
    (h : Takes r cs a cs') (hf : Takes (f a) cs' b rest) : Takes (r >>= f) cs b rest := by
  rw [Takes, StateT.run_bind, h]
  exact hf

theorem Refuses.bind {f : α → Reader β} (h : Refuses r cs) : Refuses (r >>= f) cs := by
  rw [Refuses, StateT.run_bind, h]
  rfl

theorem Takes.map {a : α} (f : α → β) (h : Takes r cs a rest) : Takes (f <$> r) cs (f a) rest := by
  rw [Takes, StateT.run_map, h]
  rfl

theorem Refuses.map (f : α → β) (h : Refuses r cs) : Refuses (f <$> r) cs := by
  rw [Refuses, StateT.run_map, h]
  rfl

theorem Takes.seqRight {a : α} {r' : Reader β} {cs' : List Char} {b : β} (h : Takes r cs a cs')
    (h' : Takes r' cs' b rest) : Takes (r *> r') cs b rest :=
  h.bind h'

theorem Refuses.seqRight (r' : Reader β) (h : Refuses r cs) : Refuses (r *> r') cs :=
  h.bind

theorem Takes.discard {a : α} (h : Takes r cs a rest) : Takes (discard r) cs () rest :=
  h.map fun _ => ()

theorem Refuses.discard (h : Refuses r cs) : Refuses (discard r) cs :=
  h.map fun _ => ()

theorem Takes.optional {a : α} (h : Takes r cs a rest) :
    Takes (optional r) cs (some a) rest := by
  show (StateT.run (some <$> r) cs <|> some (none, cs)) = _
  rw [h.map some]
  rfl

theorem Refuses.optional (h : Refuses r cs) : Takes (optional r) cs none cs := by
  show (StateT.run (some <$> r) cs <|> some (none, cs)) = _
  rw [h.map some]
  rfl

/-! ## Characters -/

theorem takes_charIf {c : Char} (h : p c = true) (rest : List Char) :
    Takes (charIf p) (c :: rest) c rest := if_pos h

theorem refuses_charIf {c : Char} (h : p c = false) (rest : List Char) :
    Refuses (charIf p) (c :: rest) := if_neg (by simp [h])

theorem takes_char (c : Char) (rest : List Char) : Takes (char c) (c :: rest) c rest :=
  takes_charIf (by simp) rest

theorem refuses_char {c d : Char} (h : d ≠ c) (rest : List Char) :
    Refuses (char c) (d :: rest) :=
  refuses_charIf (by simp [h]) rest

theorem takes_text (s : String) (rest : List Char) :
    Takes (text s) (s.toList ++ rest) () rest := by
  show (if s.toList.isPrefixOf (s.toList ++ rest) then _ else _) = _
  rw [if_pos (by simp), List.drop_left]

theorem takes_peek? (cs : List Char) : Takes peek? cs cs.head? cs := rfl

/-- The text does not go on with a character of a class. -/
def Ends (p : Char → Bool) (rest : List Char) : Prop := ∀ c ∈ rest.head?, p c = false

theorem ends_nil (p : Char → Bool) : Ends p [] := fun c hc => absurd hc (by simp)

theorem ends_cons {c : Char} (h : p c = false) : Ends p (c :: rest) := by
  simpa [Ends] using h

theorem Ends.mono {q : Char → Bool} (h : Ends p rest) (hpq : ∀ c, q c = true → p c = true) :
    Ends q rest := by
  intro c hc
  rw [Bool.eq_false_iff]
  exact fun hq => Bool.eq_false_iff.1 (h c hc) (hpq c hq)

theorem Ends.refuses (h : Ends p rest) : Refuses (charIf p) rest := by
  cases rest with
  | nil => rfl
  | cons c rest => exact refuses_charIf (h c rfl) rest

theorem Ends.dropWhile (h : Ends p rest) : rest.dropWhile p = rest := by
  cases rest with
  | nil => rfl
  | cons c rest => rw [List.dropWhile_cons_of_neg (by simp [h c rfl])]

theorem Ends.takeWhile (h : Ends p rest) : rest.takeWhile p = [] := by
  cases rest with
  | nil => rfl
  | cons c rest => rw [List.takeWhile_cons_of_neg (by simp [h c rfl])]

/-- A run ends where the class does. -/
theorem takes_run (hcs : ∀ c ∈ cs, p c = true) (hrest : Ends p rest) :
    Takes (run p) (cs ++ rest) cs rest := by
  show some ((cs ++ rest).takeWhile p, (cs ++ rest).dropWhile p) = _
  rw [List.takeWhile_append_of_pos hcs, List.dropWhile_append_of_pos hcs, hrest.takeWhile,
    hrest.dropWhile, List.append_nil]

theorem takes_run1 (hne : cs ≠ []) (hcs : ∀ c ∈ cs, p c = true) (hrest : Ends p rest) :
    Takes (run1 p) (cs ++ rest) cs rest := by
  refine (takes_run hcs hrest).bind ?_
  rw [if_neg (by simpa using hne)]
  exact takes_pure cs rest

theorem takes_exactRun (hcs : ∀ c ∈ cs, p c = true) (rest : List Char) :
    Takes (exactRun cs.length p) (cs ++ rest) cs rest := by
  show (if ((cs ++ rest).take cs.length).length == cs.length
      && ((cs ++ rest).take cs.length).all p then _ else _) = _
  rw [List.take_left, List.drop_left, if_pos (by simpa using hcs)]

/-! ## Repetition -/

/-- A reader gives values one after the other, each from a shorter text, until it gives none. -/
inductive Repeats (r : Reader α) : List Char → List α → List Char → Prop
  | stop {cs : List Char} (h : Refuses r cs) : Repeats r cs [] cs
  | step {cs cs' rest : List Char} {a : α} {as : List α} (h : Takes r cs a cs')
      (hshort : cs'.length < cs.length) (hrest : Repeats r cs' as rest) :
      Repeats r cs (a :: as) rest

theorem Repeats.length_le {as : List α} (h : Repeats r cs as rest) : as.length ≤ cs.length := by
  induction h with
  | stop _ => exact Nat.zero_le _
  | step _ hshort _ ih => rw [List.length_cons]; omega

theorem Repeats.upTo {as : List α} (h : Repeats r cs as rest) {limit : Nat}
    (hlimit : as.length < limit) : Takes (upTo limit r) cs as rest := by
  induction h generalizing limit with
  | stop h =>
      obtain ⟨limit, rfl⟩ := Nat.exists_eq_add_one_of_ne_zero (Nat.ne_zero_of_lt hlimit)
      exact h.optional.bind (takes_pure _ _)
  | step h _ _ ih =>
      obtain ⟨limit, rfl⟩ := Nat.exists_eq_add_one_of_ne_zero (Nat.ne_zero_of_lt hlimit)
      exact h.optional.bind ((ih (Nat.lt_of_succ_lt_succ hlimit)).bind (takes_pure _ _))

/-- All values of a chain are given. -/
theorem Repeats.many {as : List α} (h : Repeats r cs as rest) : Takes (many r) cs as rest :=
  h.upTo (Nat.lt_succ_of_le h.length_le)

theorem readAll?_eq_some {a : α} (h : Takes r cs a []) : readAll? r cs = some a := by
  rw [Takes] at h
  simp [readAll?, h]

end SpikeMesh.Text.Reader
