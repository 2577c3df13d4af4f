import SpikeMesh.Proofs.Graph.Rules

set_option autoImplicit false

/-! # Searches of rows

A random row is an endless sequence of targets, one for each gap that is drawn, and only those
that are atoms count. A search draws them one by one, up to the first that lies at or above the
bound or beyond the last atom. Each target lies above the one before, also where the gap is
zero, so a search for a bound draws at most one target more than there are atoms below it
(`FixedProbability.firstTarget?_ends`): there is no sequence of gaps on which it runs on.

Together with the rules this says all there is to say about the test for traffic between two
slices (`Rule.connectivity_exact`). -/

namespace SpikeMesh

/-! ## Rows -/

namespace FixedProbability

variable {σ : Type}

/-- The targets of a row in the order in which they are drawn, where `next` is the first atom that
    is left open. Nothing ends the row: its targets may lie beyond the last atom. -/
def target (draw : σ → Nat × σ) : σ → Nat → Nat → Nat
  | state, next, 0 => next + (draw state).1
  | state, next, i + 1 => target draw (draw state).2 (next + (draw state).1 + 1) i

/-- A search of a row ends with the target numbered `i`. -/
structure SearchEnds (draw : σ → Nat × σ) (bound : Nat) (state : σ) (next i : Nat)
    (found : Option Nat) : Prop where
  /-- All targets before are atoms below the bound. -/
  before : ∀ j < i, target draw state next j < bound ∧ target draw state next j < UInt32.size
  /-- This one is not. -/
  ends : bound ≤ target draw state next i ∨ UInt32.size ≤ target draw state next i
  /-- It is what the search finds, if it is an atom. -/
  found_eq : found =
    if target draw state next i < UInt32.size then some (target draw state next i) else none

variable {draw : σ → Nat × σ}

/-- A target that is passed over comes before those that are drawn from there on. -/
theorem SearchEnds.skip {bound next i : Nat} {state : σ} {found : Option Nat}
    (hbound : next + (draw state).1 < bound) (hsize : next + (draw state).1 < UInt32.size)
    (h : SearchEnds draw bound (draw state).2 (next + (draw state).1 + 1) i found) :
    SearchEnds draw bound state next (i + 1) found := by
  refine ⟨?_, h.ends, h.found_eq⟩
  intro j hj
  cases j with
  | zero => exact ⟨hbound, hsize⟩
  | succ j => exact h.before j (Nat.lt_of_succ_lt_succ hj)

theorem searchEnds_here {bound next : Nat} {state : σ} {found : Option Nat}
    (hends : bound ≤ next + (draw state).1 ∨ UInt32.size ≤ next + (draw state).1)
    (hfound : found =
      if next + (draw state).1 < UInt32.size then some (next + (draw state).1) else none) :
    SearchEnds draw bound state next 0 found :=
  ⟨fun _ hj => absurd hj (Nat.not_lt_zero _), hends, hfound⟩

/-- A search ends, whatever gaps are drawn: from each target to the next at least one atom below
    the bound is used up. -/
theorem firstTarget?_ends (draw : σ → Nat × σ) (bound : Nat) (state : σ) (next : Nat) :
    ∃ i ≤ bound - next,
      SearchEnds draw bound state next i (firstTarget? draw bound state next) := by
  induction state, next using firstTarget?.induct draw bound with
  | case1 state next gap rest hdraw t hsize =>
      obtain ⟨rfl, rfl⟩ := Prod.mk.inj hdraw
      refine ⟨0, Nat.zero_le _, searchEnds_here (.inr hsize) ?_⟩
      rw [firstTarget?_step, if_pos hsize, if_neg (Nat.not_lt.2 hsize)]
  | case2 state next gap rest hdraw t hsize hbound =>
      obtain ⟨rfl, rfl⟩ := Prod.mk.inj hdraw
      refine ⟨0, Nat.zero_le _, searchEnds_here (.inl hbound) ?_⟩
      rw [firstTarget?_step, if_neg hsize, if_pos hbound, if_pos (Nat.not_le.1 hsize)]
  | case3 state next gap rest hdraw t hsize hbound ih =>
      obtain ⟨rfl, rfl⟩ := Prod.mk.inj hdraw
      obtain ⟨i, hi, hends⟩ := ih
      refine ⟨i + 1, by omega, ?_⟩
      rw [firstTarget?_step, if_neg hsize, if_neg hbound]
      exact hends.skip (Nat.not_le.1 hbound) (Nat.not_le.1 hsize)

/-- Gaps of zero link every atom, and a gap that leads beyond the last atom ends the search. -/
example : firstTarget? (fun _ => (0, ())) 3 () 0 = some 3 ∧
    firstTarget? (fun _ => (2 ^ 64 - 1, ())) 3 () 0 = none := by
  cbv

end FixedProbability

/-! ## Traffic between ranges -/

/-- A test for ranges says yes exactly if a test for atoms says yes of some pair from them. -/
def DecidesRanges (mayConnect : AtomRange → AtomRange → Bool) (connects : UInt32 → UInt32 → Bool) :
    Prop :=
  ∀ pre post : AtomRange, pre.lo ≤ pre.hi → post.lo ≤ post.hi →
    (mayConnect pre post = true ↔
      ∃ a b, pre.contains a = true ∧ post.contains b = true ∧ connects a b = true)

/-- **Ranges are tested exactly, and the tests end.** Every rule tells two ranges to be linked
    exactly if it links a pair of their atoms. A random rule does so whichever generator its rows
    are drawn from, and each search of a row ends, after at most as many targets as the bound says
    it can pass over, with the first target that lies at or above the bound, if there is one. -/
theorem Rule.connectivity_exact :
    (∀ rule : Rule, DecidesRanges rule.mayConnect rule.connects) ∧
      (∀ (σ : Type) (rule : FixedProbability) (draw : σ → Nat × σ) (start : UInt32 → σ),
        DecidesRanges (rule.mayConnectBy draw start) (rule.connectsBy draw start)) ∧
      ∀ (σ : Type) (draw : σ → Nat × σ) (bound : Nat) (state : σ), ∃ i ≤ bound,
        FixedProbability.SearchEnds draw bound state 0 i
          (FixedProbability.firstTarget? draw bound state 0) := by
  refine ⟨?_, ?_, ?_⟩
  · intro rule pre post hpre hpost
    exact rule.mayConnect_iff hpre hpost
  · intro σ rule draw start pre post hpre hpost
    exact rule.mayConnectBy_iff draw start hpre hpost
  · intro σ draw bound state
    exact FixedProbability.firstTarget?_ends draw bound state 0

end SpikeMesh
