import SpikeMesh.Coord
import SpikeMesh.Direction
import Std.Data.ExtTreeSet

set_option autoImplicit false

/-! # Multicast trees

The way of a connection's packets: on each chip that they pass, the links over which they go on
and the cores to which they are delivered. Paths to several targets share the chips at their
start. -/

namespace SpikeMesh

/-- What happens to the packets on one chip. -/
structure Branch where
  links : Std.ExtTreeSet Direction
  cores : Std.ExtTreeSet UInt32

/-- The branches by chip. -/
structure MulticastTree where
  branches : Std.ExtTreeMap ChipCoord Branch

namespace MulticastTree

/-- No chip is passed. -/
def empty : MulticastTree := ⟨∅⟩

/-- The branch of a chip; a chip that is not passed has an empty one. -/
def branch (t : MulticastTree) (c : ChipCoord) : Branch := t.branches.getD c ⟨∅, ∅⟩

/-- The tree in which packets leave a chip over one more link. -/
def addHop (t : MulticastTree) (c : ChipCoord) (d : Direction) : MulticastTree :=
  let b := t.branch c
  ⟨t.branches.insert c { b with links := b.links.insert d }⟩

/-- The tree in which packets are delivered to one more core. -/
def deliver (t : MulticastTree) (l : Location) : MulticastTree :=
  let b := t.branch l.chip
  ⟨t.branches.insert l.chip { b with cores := b.cores.insert l.core }⟩

/-- The tree with a path and the delivery at its end. -/
def addPath (t : MulticastTree) (hops : List (ChipCoord × Direction)) (l : Location) :
    MulticastTree :=
  (hops.foldl (fun t h => t.addHop h.1 h.2) t).deliver l

/-- The branches in the order of the chips. -/
def toList (t : MulticastTree) : List (ChipCoord × Branch) := t.branches.toList

end MulticastTree

end SpikeMesh
