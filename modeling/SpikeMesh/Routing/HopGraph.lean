import SpikeMesh.Coord
import SpikeMesh.Lists
import Std.Data.ExtTreeSet

set_option autoImplicit false

/-! # Cycles of hops

The hops of a packet from chip to chip, as a directed graph in which chips and hops stand in the
order in which they were added, and the search for a cycle in it. A chip that hops to itself is a
cycle. Otherwise a cycle lies within a strongly connected component of more than one chip: the
components come from a function that is a parameter here, and from the least chip of the component
that holds the least one a way back is searched, breadth first, within the component. -/

namespace SpikeMesh

/-- Chips and the hops between them. -/
structure HopGraph where
  chips : List ChipCoord
  hops : List (ChipCoord × ChipCoord)
  nodup_chips : chips.Nodup
  nodup_hops : hops.Nodup
  ends_mem : ∀ hop ∈ hops, hop.1 ∈ chips ∧ hop.2 ∈ chips

namespace HopGraph

/-- One chip without hops. -/
def singleton (c : ChipCoord) : HopGraph where
  chips := [c]
  hops := []
  nodup_chips := List.nodup_cons.2 ⟨List.not_mem_nil, List.nodup_nil⟩
  nodup_hops := List.nodup_nil
  ends_mem _ h := absurd h List.not_mem_nil

/-- The graph with one more hop, and with the chips between which it leads. -/
def addHop (g : HopGraph) (a b : ChipCoord) : HopGraph where
  chips := addNew (addNew g.chips a) b
  hops := addNew g.hops (a, b)
  nodup_chips := nodup_addNew (nodup_addNew g.nodup_chips)
  nodup_hops := nodup_addNew g.nodup_hops
  ends_mem := by
    intro hop hhop
    simp only [mem_addNew]
    rcases mem_addNew.1 hhop with hhop | rfl
    · obtain ⟨hfrom, hto⟩ := g.ends_mem hop hhop
      exact ⟨.inl (.inl hfrom), .inl (.inl hto)⟩
    · exact ⟨.inl (.inr rfl), .inr rfl⟩

/-- The chips to which hops lead from a chip. -/
def neighbours (g : HopGraph) (c : ChipCoord) : List ChipCoord :=
  (g.hops.filter fun hop => hop.1 = c).map Prod.snd

/-! ## Strongly connected components -/

/-- A search for what can be reached from a chip: the chips whose hops were followed and those
    that wait for it. -/
structure Reaching where
  done : List ChipCoord
  queue : List ChipCoord

/-- Follow the hops of the first chip that waits. -/
def Reaching.step (g : HopGraph) (s : Reaching) : Reaching :=
  match s.queue with
  | [] => s
  | c :: queue =>
    let fresh := (g.neighbours c).filter fun next => !(s.done ++ s.queue).contains next
    ⟨s.done ++ [c], queue ++ fresh⟩

/-- The chips that can be reached from a chip. Each is put in the queue once. -/
def reach (g : HopGraph) (c : ChipCoord) : List ChipCoord :=
  (Nat.repeat (Reaching.step g) g.chips.length ⟨[], [c]⟩).done

/-- The strongly connected components: for each chip the chips that it reaches and that reach it,
    without the repetitions. -/
def components (g : HopGraph) : List (List ChipCoord) :=
  let reached := g.chips.map fun c => (c, g.reach c)
  (reached.map fun (a, fromA) =>
    (reached.filter fun (b, fromB) => fromA.contains b && fromB.contains a).map
      Prod.fst).eraseDups

/-! ## Ways back -/

/-- The least of some chips. -/
def least? (chips : List ChipCoord) : Option ChipCoord :=
  (Std.ExtTreeSet.ofList chips).toList.head?

/-- A search for a way back to a chip: the chip from which each of the others was met first, and
    the chips whose hops are still to be followed. -/
structure WaySearch where
  parents : Std.ExtTreeMap ChipCoord ChipCoord
  queue : List ChipCoord

namespace WaySearch

/-- The chips on the way to a chip, from the one before it back to the start. -/
def before (s : WaySearch) : Nat → ChipCoord → List ChipCoord
  | 0, _ => []
  | fuel + 1, c =>
    match s.parents[c]? with
    | some previous => previous :: s.before fuel previous
    | none => []

/-- The way from the start to a chip and from there back to the start. No chip is passed twice, so
    there are no more chips before it than have a parent. -/
def wayBack (s : WaySearch) (start chip : ChipCoord) : List ChipCoord :=
  (start :: chip :: s.before s.parents.size chip).reverse

/-- Follow the hops of a chip within a component: a hop back to the start ends the search with the
    way found, the other chips that are new are put in the queue. -/
def follow (members : Std.ExtTreeSet ChipCoord) (start chip : ChipCoord) :
    List ChipCoord → WaySearch → Except (List ChipCoord) WaySearch
  | [], s => .ok s
  | next :: rest, s =>
    if !members.contains next then follow members start chip rest s
    else if next = start then .error (s.wayBack start chip)
    else if s.parents.contains next then follow members start chip rest s
    else follow members start chip rest ⟨s.parents.insert next chip, s.queue ++ [next]⟩

/-- Follow the hops of chips from the queue until a way back is found. -/
def run (g : HopGraph) (members : Std.ExtTreeSet ChipCoord) (start : ChipCoord) :
    Nat → WaySearch → Option (List ChipCoord)
  | 0, _ => none
  | fuel + 1, s =>
    match s.queue with
    | [] => none
    | chip :: queue =>
      match follow members start chip (g.neighbours chip) { s with queue } with
      | .error chips => some chips
      | .ok s => run g members start fuel s

end WaySearch

/-- A way from a chip back to itself within a component. Each member is put in the queue at most
    once. -/
def wayBack? (g : HopGraph) (members : Std.ExtTreeSet ChipCoord) (start : ChipCoord) :
    Option (List ChipCoord) :=
  WaySearch.run g members start members.size ⟨∅, [start]⟩

/-- Of the components of more than one chip the one that holds the least chip. -/
def circling? (g : HopGraph) (components : HopGraph → List (List ChipCoord)) :
    Option (List ChipCoord) :=
  firstLeast? least? ((components g).filter fun part => 1 < part.length)

/-- A cycle, which begins and ends at its least chip, if there is one. -/
def cycle? (g : HopGraph) (components : HopGraph → List (List ChipCoord)) :
    Option (List ChipCoord) :=
  match g.chips.find? fun c => g.hops.contains (c, c) with
  | some c => some [c, c]
  | none => do
    let component ← g.circling? components
    let members := Std.ExtTreeSet.ofList component
    let start ← members.toList.head?
    g.wayBack? members start

end HopGraph

end SpikeMesh
