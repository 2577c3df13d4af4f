import SpikeMesh.Decimal.NumberText
import SpikeMesh.Graph.AtomRange
import SpikeMesh.Graph.Error
import SpikeMesh.Random.ChaCha
import Std.Data.ExtTreeSet

set_option autoImplicit false

/-! # Connectivity rules

Which atoms of a source unit are linked to which atoms of a target unit. Besides deciding a
pair, a rule tells whether two ranges of atoms hold a linked pair, which is what the compiler
needs in order to leave out traffic that no atom asks for.

A rule of any other kind is given by the pairs that it links (`Rule.predicate`), and the atoms of
two ranges are then asked one by one. A rule is never more cautious than that: one that answers for
ranges without a linked pair, or that sets bounds of its own to the units, is not modelled. -/

namespace SpikeMesh

/-- A source atom and a target atom. -/
structure AtomPair where
  pre : UInt32
  post : UInt32
deriving DecidableEq, Repr

namespace AtomPair

instance : Ord AtomPair := ⟨compareLex (compareOn pre) (compareOn post)⟩

instance : Std.TransOrd AtomPair :=
  inferInstanceAs (Std.TransCmp (compareLex (compareOn pre) (compareOn post)))

instance : Std.LawfulEqOrd AtomPair where
  eq_of_compare {a b} h := by
    have h : (compareOn pre a b).then (compareOn post a b) = .eq := h
    simp only [Ordering.then_eq_eq, compareOn, Std.LawfulEqCmp.compare_eq_iff_eq] at h
    cases a; cases b; simp_all

/-- The pairs of a set from a first one up to, but not including, a last one. -/
def between (linked : Std.ExtTreeSet AtomPair) (first last : AtomPair) : List AtomPair :=
  (linked.toList.dropWhile fun p => (compare p first).isLT).takeWhile fun p =>
    (compare p last).isLT

end AtomPair

/-! ## Random rows -/

/-- Each pair is linked with one probability, independently of the others. The targets of a
    source atom come from a random stream of its own, so the same question always has the same
    answer. -/
structure FixedProbability where
  probability : Float
  seed : UInt64

namespace FixedProbability

/-- The rule for a probability between 0 and 1. -/
def ofProbability (p : Float) (seed : UInt64) : Except GraphError FixedProbability :=
  if 0.0 ≤ p && p ≤ 1.0 then .ok ⟨p, seed⟩
  else .error (.invalidRule ("probability " ++ Decimal.message p ++ " is outside 0..=1"))

/-- The first target at or above `bound` in a row. A row is drawn gap by gap: `next` is the
    first atom that the draws so far leave open, and the next target lies as many atoms above
    it as the next gap says. -/
def firstTarget? {σ : Type} (draw : σ → Nat × σ) (bound : Nat) (state : σ) (next : Nat) :
    Option Nat :=
  match draw state with
  | (gap, rest) =>
    let target := next + gap
    if UInt32.size ≤ target then none
    else if bound ≤ target then some target
    else firstTarget? draw bound rest (target + 1)
termination_by bound - next
decreasing_by omega

/-- The next gap of a row: the number of failures before a success, from a uniform draw. -/
def drawGap (logFailure : Float) (s : Random.Stream) : Nat × Random.Stream :=
  let (u, s) := s.nextUnit
  ((Decimal.toWord64 (Float.log (1.0 - u) / logFailure)).toNat, s)

/-- The random stream of a source atom. -/
def stream (rule : FixedProbability) (pre : UInt32) : Random.Stream :=
  Random.Stream.ofSeed (rule.seed ^^^ (pre.toUInt64 <<< 32))

/-- The first target of a source atom at or above a bound. -/
def firstTargetOf? (rule : FixedProbability) (pre : UInt32) (bound : UInt32) : Option Nat :=
  firstTarget? (drawGap (Float.log (1.0 - rule.probability))) bound.toNat (rule.stream pre) 0

end FixedProbability

/-! ## Rules -/

/-- A connectivity rule. -/
inductive Rule
  /-- Every source atom is linked to every target atom. -/
  | allToAll
  /-- Source atom `i` is linked to target atom `i`. -/
  | oneToOne
  /-- The linked pairs are listed. -/
  | pairs (linked : Std.ExtTreeSet AtomPair)
  | fixedProbability (rule : FixedProbability)
  /-- The linked pairs are decided one by one. -/
  | predicate (linked : UInt32 → UInt32 → Bool)

namespace Rule

/-- The rule that links the listed pairs. -/
def ofPairs (ps : List (UInt32 × UInt32)) : Rule :=
  .pairs (ps.foldl (fun s p => s.insert ⟨p.1, p.2⟩) ∅)

/-- Whether a source atom is linked to a target atom. -/
def connects : Rule → UInt32 → UInt32 → Bool
  | allToAll, _, _ => true
  | oneToOne, pre, post => pre == post
  | pairs linked, pre, post => linked.contains ⟨pre, post⟩
  | fixedProbability r, pre, post =>
    if r.probability ≤ 0.0 then false
    else if 1.0 ≤ r.probability then true
    else r.firstTargetOf? pre post == some post.toNat
  | predicate linked, pre, post => linked pre post

/-- Whether some atom of the first range is linked to some atom of the second. -/
def mayConnect : Rule → AtomRange → AtomRange → Bool
  | allToAll, pre, post => !pre.isEmpty && !post.isEmpty
  | oneToOne, pre, post => (pre.intersect? post).isSome
  | pairs linked, pre, post =>
    -- the pairs of the source atoms of a range stand next to each other
    (AtomPair.between linked ⟨pre.lo, 0⟩ ⟨pre.hi, 0⟩).any fun p => post.contains p.post
  | fixedProbability r, pre, post =>
    if pre.isEmpty || post.isEmpty || r.probability ≤ 0.0 then false
    else if 1.0 ≤ r.probability then true
    else pre.any fun a =>
      match r.firstTargetOf? a post.lo with
      | some b => b < post.hi.toNat
      | none => false
  | predicate linked, pre, post => pre.any fun a => post.any fun b => linked a b

/-- Check the rule against the sizes of the units that it joins: listed pairs must name atoms
    that exist. -/
def validate (rule : Rule) (preAtoms postAtoms : UInt32) : Except GraphError Unit :=
  match rule with
  | pairs linked =>
    match linked.toList.find? fun p => preAtoms ≤ p.pre || postAtoms ≤ p.post with
    | some p => .error (.invalidRule ("pair (" ++ Text.natural p.pre.toNat ++ ", "
        ++ Text.natural p.post.toNat ++ ") lies outside units of "
        ++ Text.natural preAtoms.toNat ++ " and " ++ Text.natural postAtoms.toNat
        ++ " atoms"))
    | none => .ok ()
  | _ => .ok ()

end Rule

end SpikeMesh
