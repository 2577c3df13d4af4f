import SpikeMesh.Fabric.Basic
import Std.Data.ExtTreeSet

set_option autoImplicit false

/-! # Shortest paths

The cheapest paths from one chip to all chips that can be reached from it over existing links
to existing chips. The chips that were reached wait in a queue for their links to be followed,
the cheapest first, of equally cheap ones the first in order; the links of a chip are followed in
their order, and a chip keeps the first of equally cheap ways to it. So there is one tree of
paths, the same each time. -/

namespace SpikeMesh

/-- What it costs to send a packet over a link. -/
def RouterKind.linkCost : RouterKind → Link → Nat
  | shortestPath, _ => 1
  | linkSpeed, link => max 1 (1024 / max 1 link.speed.toNat)

/-- The cost of the cheapest way found to a chip, and the last hop of this way: the chip before
    it and the link taken there. The source has no hop. -/
structure PathLabel where
  distance : Nat
  hop : Option (ChipCoord × Direction)

/-- A chip whose links are to be followed, with the cost of the way that was found to it. -/
structure Waiting where
  cost : Nat
  chip : ChipCoord
deriving DecidableEq, Repr

namespace Waiting

instance : Ord Waiting := ⟨compareLex (compareOn cost) (compareOn chip)⟩

instance : Std.TransOrd Waiting :=
  inferInstanceAs (Std.TransCmp (compareLex (compareOn cost) (compareOn chip)))

instance : Std.LawfulEqOrd Waiting where
  eq_of_compare {a b} h := by
    have h : (compareOn cost a b).then (compareOn chip a b) = .eq := h
    simp only [Ordering.then_eq_eq, compareOn, Std.LawfulEqCmp.compare_eq_iff_eq] at h
    cases a; cases b; simp_all

end Waiting

/-- A search for cheapest paths: the labels of the chips reached so far, and the queue. A chip to
    which a cheaper way is found is put in the queue once more, and what is in the queue for it
    already stays there, out of date. -/
structure PathSearch where
  labels : Std.ExtTreeMap ChipCoord PathLabel
  queue : Std.ExtTreeSet Waiting

namespace PathSearch

/-- The search that has reached the source only. -/
def start (source : ChipCoord) : PathSearch :=
  ⟨(∅ : Std.ExtTreeMap ChipCoord PathLabel).insert source ⟨0, none⟩,
    (∅ : Std.ExtTreeSet Waiting).insert ⟨0, source⟩⟩

/-- The cost of the way found to a chip. -/
def distance? (s : PathSearch) (c : ChipCoord) : Option Nat :=
  (s.labels[c]?).map PathLabel.distance

/-- Whether a cheaper way to a chip was found after it was put in the queue. -/
def isStale (s : PathSearch) (e : Waiting) : Bool :=
  match s.distance? e.chip with
  | some known => known < e.cost
  | none => false

/-- Whether a way of a cost is cheaper than the one found so far. -/
def improves (s : PathSearch) (c : ChipCoord) (cost : Nat) : Bool :=
  match s.distance? c with
  | some known => cost < known
  | none => true

/-- Follow a link from a chip to which there is a way of some cost. -/
def relax (f : Fabric) (kind : RouterKind) (e : Waiting) (s : PathSearch) (d : Direction)
    (link : Link) : PathSearch :=
  let cost := e.cost + kind.linkCost link
  if f.contains link.destination && s.improves link.destination cost then
    ⟨s.labels.insert link.destination ⟨cost, some (e.chip, d)⟩,
      s.queue.insert ⟨cost, link.destination⟩⟩
  else s

/-- Follow all links of a chip, unless what is known of it is out of date. -/
def visit (f : Fabric) (kind : RouterKind) (e : Waiting) (s : PathSearch) : PathSearch :=
  if s.isStale e then s
  else match f.chip? e.chip with
    | none => s
    | some chip => chip.router.links.toList.foldl (fun s link => s.relax f kind e link.1 link.2) s

/-- The search without an entry of the queue. -/
def take (s : PathSearch) (e : Waiting) : PathSearch := { s with queue := s.queue.erase e }

/-- Take the first chip from the queue and visit it. -/
def step (f : Fabric) (kind : RouterKind) (s : PathSearch) : PathSearch :=
  match s.queue.toList.head? with
  | none => s
  | some e => (s.take e).visit f kind e

/-- The whole search from a chip. The chip itself is put in the queue, and at most one more for each
    link, so after as many steps the queue is empty. -/
def run (f : Fabric) (kind : RouterKind) (source : ChipCoord) : PathSearch :=
  Nat.repeat (step f kind) (f.linkCount + 1) (start source)

end PathSearch

/-- The cheapest paths from a chip. -/
structure ShortestPathTree where
  source : ChipCoord
  labels : Std.ExtTreeMap ChipCoord PathLabel

namespace ShortestPathTree

/-- The cheapest paths over a fabric from a chip. -/
def compute (f : Fabric) (source : ChipCoord) (kind : RouterKind) : ShortestPathTree :=
  ⟨source, (PathSearch.run f kind source).labels⟩

/-- The cost of the cheapest path to a chip, if it can be reached. -/
def distance? (t : ShortestPathTree) (c : ChipCoord) : Option Nat :=
  (t.labels[c]?).map PathLabel.distance

/-- The hops from the source to a chip, before the hops that are known already. -/
def hopsTo (t : ShortestPathTree) : Nat → ChipCoord → List (ChipCoord × Direction) →
    Option (List (ChipCoord × Direction))
  | 0, _, _ => none
  | fuel + 1, c, hops =>
    if c = t.source then some hops
    else match t.labels[c]? with
      | some ⟨_, some (before, d)⟩ => hopsTo t fuel before ((before, d) :: hops)
      | _ => none

/-- The path to a chip: the chips passed and the link taken from each, in the order of travel.
    A path passes no chip twice, so it has fewer hops than chips were reached. -/
def pathTo? (t : ShortestPathTree) (c : ChipCoord) : Option (List (ChipCoord × Direction)) :=
  if t.labels.contains c then t.hopsTo t.labels.size c [] else none

end ShortestPathTree

end SpikeMesh
