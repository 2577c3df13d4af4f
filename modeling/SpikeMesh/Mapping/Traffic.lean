import SpikeMesh.Diagnostic
import SpikeMesh.Graph.Application
import SpikeMesh.Graph.Partitioned
import SpikeMesh.Lists

set_option autoImplicit false

/-! # Leaving out traffic that no atom asks for

A target slice stays only if the rule of its connection may link an atom of the source slice to
one of its own. A partitioned connection that has no target left is removed, and the others
are numbered anew in their order. -/

namespace SpikeMesh.PartitionedGraph

/-- Whether a slice may receive anything from a source slice under a rule. -/
def receives (p : PartitionedGraph) (rule : Rule) (source : Slice) (target : SliceId) : Bool :=
  match p.slice? target with
  | some t => rule.mayConnect source.atoms t.atoms
  | none => false

/-- The targets of a partitioned connection that may receive something. A connection that the
    graph does not know, or whose source is missing, has none. -/
def liveTargets (p : PartitionedGraph) (g : ApplicationGraph) (pc : PartitionedConnection) :
    List SliceId :=
  match g.connection? pc.connection, p.slice? pc.source with
  | some c, some source => pc.targets.filter (p.receives c.rule source)
  | _, _ => []

/-- The number of targets that a known connection with a known source loses. -/
def lostTargets (p : PartitionedGraph) (g : ApplicationGraph) (pc : PartitionedConnection) :
    Nat :=
  match g.connection? pc.connection, p.slice? pc.source with
  | some c, some source => pc.targets.countP fun t => !p.receives c.rule source t
  | _, _ => 0

/-- The connections with only the targets that may receive something. -/
def liveConnections (p : PartitionedGraph) (g : ApplicationGraph) :
    Array PartitionedConnection :=
  p.connections.map fun pc => { pc with targets := p.liveTargets g pc }

/-- The graph with only the traffic that may occur. -/
def prune (p : PartitionedGraph) (g : ApplicationGraph) : PartitionedGraph :=
  PartitionedGraph.retain { p with connections := p.liveConnections g }
    fun pc => !pc.targets.isEmpty

/-- The number of partitioned connections that pruning removes. -/
def prunedCount (p : PartitionedGraph) (g : ApplicationGraph) : Nat :=
  p.connections.size - (p.prune g).connections.size

/-- The finding that some targets were left out, if any were. -/
def pruneNote? (p : PartitionedGraph) (g : ApplicationGraph) : Option Diagnostic :=
  let lost := total (p.lostTargets g) p.connections.toList
  if 0 < lost then
    some (.note .connectionsPruned ("pruned " ++ Text.natural lost
      ++ " unreachable slice targets; " ++ Text.natural (p.prunedCount g)
      ++ " partitioned connections removed") none)
  else none

end SpikeMesh.PartitionedGraph
