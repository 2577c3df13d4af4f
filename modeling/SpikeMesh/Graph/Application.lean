import SpikeMesh.Fabric.VirtualChip
import SpikeMesh.Graph.Model
import SpikeMesh.Graph.Rule
import SpikeMesh.Lists

set_option autoImplicit false

/-! # Application graphs

What is to be compiled: units of atoms, and connections between them. Units and connections are
numbered in the order in which they are declared, and every stage goes through them in this
order. -/

namespace SpikeMesh

/-- A request that packets of a unit be forwarded to a host. -/
structure NotificationTagRequest where
  /-- The tag asked for; any free one if none. -/
  tag : Option UInt32
  host : String
  port : UInt16
deriving DecidableEq, Repr

/-- A request that traffic on a port be delivered to the one core of a unit. -/
structure ReverseTagRequest where
  /-- The tag asked for; any free one if none. -/
  tag : Option UInt32
  port : UInt16
deriving DecidableEq, Repr

/-- A unit of the application. -/
structure GraphUnit where
  label : String
  atoms : UInt32
  model : UnitModel
  notificationTag : Option NotificationTagRequest := none
  reverseTag : Option ReverseTagRequest := none
  /-- The core to which the unit is pinned. -/
  location : Option Location := none
  /-- The virtual chip on which the unit must be placed. -/
  virtualChip : Option VirtualChipSpec := none
  maxAtomsPerCore : Option UInt32 := none
  recordSpikes : Bool := false

/-- A directed connection between units. -/
structure Connection where
  label : String
  source : UnitId
  target : UnitId
  rule : Rule

/-- Units and connections in the order of their declaration. -/
structure ApplicationGraph where
  units : List GraphUnit
  connections : List Connection

namespace ApplicationGraph

/-- The graph without units. -/
def empty : ApplicationGraph := ⟨[], []⟩

/-- The unit with an id. -/
def unit? (g : ApplicationGraph) (id : UnitId) : Option GraphUnit := g.units[id.index]?

/-- The connection with an id. -/
def connection? (g : ApplicationGraph) (id : ConnectionId) : Option Connection :=
  g.connections[id.index]?

/-- The units with their ids. -/
def numberedUnits (g : ApplicationGraph) : List (UnitId × GraphUnit) :=
  g.units.zipIdx.map fun e => (Id.ofIndex e.2, e.1)

/-- The connections with their ids. -/
def numberedConnections (g : ApplicationGraph) : List (ConnectionId × Connection) :=
  g.connections.zipIdx.map fun e => (Id.ofIndex e.2, e.1)

/-- The unit with a label, and its id. -/
def unitLabelled? (g : ApplicationGraph) (label : String) : Option (UnitId × GraphUnit) :=
  g.numberedUnits.find? fun e => e.2.label == label

/-- Add a unit with at least one atom and a label of its own. -/
def addUnit (g : ApplicationGraph) (u : GraphUnit) :
    Except GraphError (UnitId × ApplicationGraph) :=
  if u.atoms == 0 then .error (.emptyUnit u.label)
  else if (g.unitLabelled? u.label).isSome then .error (.duplicateLabel u.label)
  else .ok (Id.ofIndex g.units.length, { g with units := g.units ++ [u] })

/-- The unit with an id, which a connection names. -/
def endpoint (g : ApplicationGraph) (label : String) (id : UnitId) :
    Except GraphError GraphUnit :=
  match g.unit? id with
  | some u => .ok u
  | none => .error (.unknownUnit label id)

/-- Add a connection between units of the graph whose rule fits their sizes. -/
def addConnection (g : ApplicationGraph) (c : Connection) :
    Except GraphError (ConnectionId × ApplicationGraph) := do
  let source ← g.endpoint c.label c.source
  let target ← g.endpoint c.label c.target
  c.rule.validate source.atoms target.atoms
  return (Id.ofIndex g.connections.length, { g with connections := g.connections ++ [c] })

/-- Whether some unit records spikes. -/
def recordsSpikes (g : ApplicationGraph) : Bool := g.units.any fun u => u.recordSpikes

/-- The number of atoms of all units. -/
def totalAtoms (g : ApplicationGraph) : Nat := total (fun u => u.atoms.toNat) g.units

end ApplicationGraph

end SpikeMesh
