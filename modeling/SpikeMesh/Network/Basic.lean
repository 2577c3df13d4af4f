import SpikeMesh.Graph.Application

set_option autoImplicit false

/-! # Network files

A network file lists units and the connections between them by label. Every unit has a linear
model. The graph is built in the order of the file, and the first thing that is wrong with it
is the error. -/

namespace SpikeMesh

/-- A unit of a network file. -/
structure UnitEntry where
  label : String
  atoms : UInt32
  image : String
  fixed : Cost
  perAtom : Cost
  stateBytes : Option UInt32
  maxAtomsPerCore : Option UInt32
  location : Option Location
  virtualChip : Option VirtualChipSpec
  record : Bool
  notificationTag : Option NotificationTagRequest
  reverseTag : Option ReverseTagRequest
deriving DecidableEq, Repr

/-- The rule of a connection of a network file. -/
inductive RuleEntry
  | allToAll
  | oneToOne
  | fromList (pairs : List (UInt32 × UInt32))
  | fixedProbability (probability : Float) (seed : UInt64)

/-- A connection of a network file. -/
structure ConnectionEntry where
  /-- The label; made from the labels of the units if none is given. -/
  label : Option String
  source : String
  target : String
  rule : RuleEntry

/-- The units and connections of a network file in their order. -/
structure NetworkFile where
  units : List UnitEntry
  connections : List ConnectionEntry

/-- Why no graph can be built from a network file. -/
inductive NetworkError
  | graph (cause : GraphError)
  | duplicateConnection (label : String)
  | unknownUnit (connection unit : String)
deriving DecidableEq, Repr

/-- The text of the error. -/
def NetworkError.message : NetworkError → String
  | graph cause => cause.message
  | duplicateConnection label => "duplicate connection label '" ++ label ++ "'"
  | unknownUnit connection unit =>
    "connection '" ++ connection ++ "' names unknown unit '" ++ unit ++ "'"

/-- A result for which a graph error is one of the network. -/
def NetworkError.ofGraph {α : Type} : Except GraphError α → Except NetworkError α
  | .ok a => .ok a
  | .error e => .error (.graph e)

/-- The unit as part of a graph. -/
def UnitEntry.toUnit (u : UnitEntry) : GraphUnit where
  label := u.label
  atoms := u.atoms
  model := .linear ⟨u.image, u.fixed, u.perAtom, u.stateBytes.getD 4⟩
  notificationTag := u.notificationTag
  reverseTag := u.reverseTag
  location := u.location
  virtualChip := u.virtualChip
  maxAtomsPerCore := u.maxAtomsPerCore
  recordSpikes := u.record

/-- The rule as part of a graph. -/
def RuleEntry.toRule : RuleEntry → Except GraphError Rule
  | allToAll => .ok .allToAll
  | oneToOne => .ok .oneToOne
  | fromList pairs => .ok (.ofPairs pairs)
  | fixedProbability p seed => (FixedProbability.ofProbability p seed).map .fixedProbability

namespace ConnectionEntry

/-- The label under which the connection is known. -/
def fullLabel (c : ConnectionEntry) : String := c.label.getD (c.source ++ "->" ++ c.target)

/-- The unit of a graph that the connection names. -/
def resolve (c : ConnectionEntry) (g : ApplicationGraph) (name : String) :
    Except NetworkError UnitId :=
  match g.unitLabelled? name with
  | some (id, _) => .ok id
  | none => .error (.unknownUnit c.fullLabel name)

/-- The connection as part of a graph. -/
def toConnection (c : ConnectionEntry) (g : ApplicationGraph) :
    Except NetworkError Connection := do
  let source ← c.resolve g c.source
  let target ← c.resolve g c.target
  let rule ← NetworkError.ofGraph c.rule.toRule
  return ⟨c.fullLabel, source, target, rule⟩

end ConnectionEntry

namespace NetworkFile

/-- The graph with one more unit. -/
def addUnit (g : ApplicationGraph) (u : UnitEntry) : Except NetworkError ApplicationGraph :=
  (NetworkError.ofGraph (g.addUnit u.toUnit)).map Prod.snd

/-- The graph with one more connection, whose label must be new. -/
def addConnection (g : ApplicationGraph) (c : ConnectionEntry) :
    Except NetworkError ApplicationGraph :=
  if g.connections.any fun other => other.label == c.fullLabel then
    .error (.duplicateConnection c.fullLabel)
  else do
    let connection ← c.toConnection g
    (NetworkError.ofGraph (g.addConnection connection)).map Prod.snd

/-- The graph that a network file describes. -/
def toGraph (n : NetworkFile) : Except NetworkError ApplicationGraph := do
  let g ← n.units.foldlM addUnit .empty
  n.connections.foldlM addConnection g

end NetworkFile

end SpikeMesh
