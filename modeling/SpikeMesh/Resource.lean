import SpikeMesh.Text.Natural

set_option autoImplicit false

/-! # Resources

What it costs to run some atoms on one core, and what a core or chip offers. Amounts have 64
bits; sums and multiples stop at the largest amount. -/

namespace SpikeMesh

/-! ## Amounts -/

namespace Amount

/-- The largest amount. -/
def max : UInt64 := UInt64.ofNat (UInt64.size - 1)

/-- A number as an amount, the largest one if it is too large. -/
def clamp (n : Nat) : UInt64 := UInt64.ofNat (min n (UInt64.size - 1))

/-- The sum of two amounts. -/
def add (a b : UInt64) : UInt64 := clamp (a.toNat + b.toNat)

/-- An amount times a number. -/
def scale (a : UInt64) (n : Nat) : UInt64 := clamp (a.toNat * n)

/-- A clamped number is the number or the largest word, whichever is less. -/
theorem toNat_clamp (n : Nat) : (clamp n).toNat = min n (UInt64.size - 1) := by
  rw [clamp, UInt64.toNat_ofNat', Nat.mod_eq_of_lt]
  exact Nat.lt_of_le_of_lt (Nat.min_le_right ..) (by decide)

theorem toNat_add (a b : UInt64) : (add a b).toNat = min (a.toNat + b.toNat) (UInt64.size - 1) :=
  toNat_clamp _

theorem toNat_scale (a : UInt64) (n : Nat) :
    (scale a n).toNat = min (a.toNat * n) (UInt64.size - 1) :=
  toNat_clamp _

end Amount

/-! ## Costs -/

/-- The cost of running some atoms on one core, or the budget for it. Cycles and local memory
    belong to the core, shared memory to its chip. -/
structure Cost where
  cpuCycles : UInt64
  localMemory : UInt64
  sharedMemory : UInt64
deriving DecidableEq, Repr

/-- A scarce resource. -/
inductive Resource
  | cpuCycles
  | localMemory
  | sharedMemory
  | cores
deriving DecidableEq, Repr

/-- A resource of which more is requested than available. -/
structure Excess where
  resource : Resource
  requested : UInt64
  available : UInt64
deriving DecidableEq, Repr

/-- The resource in messages. -/
def Resource.description : Resource → String
  | .cpuCycles => "cpu cycles"
  | .localMemory => "local memory bytes"
  | .sharedMemory => "shared memory bytes"
  | .cores => "cores"

namespace Cost

/-- No cost. -/
def zero : Cost := ⟨0, 0, 0⟩

/-- The sum of two costs, resource by resource. -/
def add (a b : Cost) : Cost :=
  ⟨Amount.add a.cpuCycles b.cpuCycles, Amount.add a.localMemory b.localMemory,
    Amount.add a.sharedMemory b.sharedMemory⟩

instance : Add Cost := ⟨add⟩

/-- The cost of `n` times as much. -/
def scale (c : Cost) (n : Nat) : Cost :=
  ⟨Amount.scale c.cpuCycles n, Amount.scale c.localMemory n, Amount.scale c.sharedMemory n⟩

/-- The sum of costs, from the first to the last. -/
def sum (costs : List Cost) : Cost := costs.foldl (· + ·) zero

/-- The first resource of which the cost needs more than the budget has: cycles are looked at
    first, then local memory, then shared memory. -/
def firstExcess? (cost budget : Cost) : Option Excess :=
  if budget.cpuCycles < cost.cpuCycles then
    some ⟨.cpuCycles, cost.cpuCycles, budget.cpuCycles⟩
  else if budget.localMemory < cost.localMemory then
    some ⟨.localMemory, cost.localMemory, budget.localMemory⟩
  else if budget.sharedMemory < cost.sharedMemory then
    some ⟨.sharedMemory, cost.sharedMemory, budget.sharedMemory⟩
  else none

/-- Whether every resource stays within the budget. -/
def fits (cost budget : Cost) : Bool := (cost.firstExcess? budget).isNone

/-- A cost fits a budget when none of its resources exceeds the budget's. -/
theorem fits_iff {cost budget : Cost} :
    cost.fits budget = true ↔
      cost.cpuCycles ≤ budget.cpuCycles ∧ cost.localMemory ≤ budget.localMemory ∧
        cost.sharedMemory ≤ budget.sharedMemory := by
  unfold fits firstExcess?
  repeat' split
  all_goals simp_all [← UInt64.not_lt]

/-- An excess is one: more is requested than available. -/
theorem available_lt_requested {cost budget : Cost} {e : Excess}
    (h : cost.firstExcess? budget = some e) : e.available < e.requested := by
  unfold firstExcess? at h
  repeat' split at h
  all_goals simp_all
  all_goals (subst h; assumption)

/-- The cost in messages. -/
def description (c : Cost) : String :=
  Text.natural c.cpuCycles.toNat ++ " cycles, " ++ Text.natural c.localMemory.toNat
    ++ " B local, " ++ Text.natural c.sharedMemory.toNat ++ " B shared"

end Cost

end SpikeMesh
