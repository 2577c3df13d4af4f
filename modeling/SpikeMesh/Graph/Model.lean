import SpikeMesh.Graph.AtomRange
import SpikeMesh.Graph.Error
import SpikeMesh.Resource

set_option autoImplicit false

/-! # Unit models

What the compiler knows of a unit's computation: what some of its atoms cost, the bytes of
their initial state, and the executable that runs them. A composed model is made of components
whose named parameters all atoms share; each parameter belongs to one component.

A model of any other kind is given by these answers (`CustomModel`), with what is asked of them:
more atoms cost no less. The components of a composed model are parameter blocks; others are not
modelled. -/

namespace SpikeMesh

/-- The bytes of a 32-bit number, lowest first. -/
def littleEndian32 (n : UInt32) : List UInt8 :=
  [n.toUInt8, (n >>> 8).toUInt8, (n >>> 16).toUInt8, (n >>> 24).toUInt8]

/-- The bytes of a 64-bit number, lowest first. -/
def littleEndian64 (n : UInt64) : List UInt8 :=
  littleEndian32 n.toUInt32 ++ littleEndian32 (n >>> 32).toUInt32

/-- A fixed cost and a cost per atom. -/
def linearCost (fixed perAtom : Cost) (atoms : UInt32) : Cost :=
  fixed + perAtom.scale atoms.toNat

/-! ## Linear models -/

/-- A model with a fixed cost and a cost per atom. -/
structure LinearModel where
  image : String
  fixed : Cost
  perAtom : Cost
  /-- The bytes of state of an atom; never less than four are written. -/
  stateBytes : UInt32 := 4

/-- The number of each atom in four bytes, followed by zeros. -/
def LinearModel.state (m : LinearModel) (atoms : AtomRange) : List UInt8 :=
  atoms.atoms.flatMap fun atom =>
    littleEndian32 atom ++ List.replicate (m.stateBytes.toNat - 4) 0

/-! ## Composed models -/

/-- A component with named parameters. -/
structure ParameterBlock where
  name : String
  fixed : Cost
  perAtom : Cost
  parameters : Std.ExtTreeMap String Float

namespace ParameterBlock

/-- Whether the component declares a parameter. -/
def declares (b : ParameterBlock) (parameter : String) : Bool :=
  b.parameters.contains parameter

/-- The names of all parameters in their order. -/
def names (b : ParameterBlock) : List String := b.parameters.toList.map Prod.fst

/-- The values of all parameters in the order of their names, for each atom. There is one `Float`
    that is not a number, so the sign and the payload of such a value are not kept. -/
def state (b : ParameterBlock) (atoms : AtomRange) : List UInt8 :=
  let values := b.parameters.toList.flatMap fun e => littleEndian64 e.2.toBits
  atoms.atoms.flatMap fun _ => values

/-- The component with a new value of a parameter, if it declares the parameter. -/
def set? (b : ParameterBlock) (parameter : String) (value : Float) : Option ParameterBlock :=
  if b.declares parameter then some { b with parameters := b.parameters.insert parameter value }
  else none

end ParameterBlock

/-- A model made of components. -/
structure ComposedModel where
  name : String
  image : String
  components : List ParameterBlock
  /-- The position of the component that declares a parameter, found once for all parameters. -/
  owners : Std.ExtTreeMap String Nat

namespace ComposedModel

/-- The component to which the owners of parameters point. -/
def ownerAmong? (components : List ParameterBlock) (owners : Std.ExtTreeMap String Nat)
    (parameter : String) : Option ParameterBlock :=
  owners[parameter]? >>= fun i => components[i]?

/-- The owners with those of one more parameter of the component at a position. A parameter that has
    an owner already is an error. -/
def addOwner (components : List ParameterBlock) (b : ParameterBlock) (position : Nat)
    (owners : Std.ExtTreeMap String Nat) (parameter : String) :
    Except GraphError (Std.ExtTreeMap String Nat) :=
  match ownerAmong? components owners parameter with
  | some first => .error (.duplicateParameter parameter first.name b.name)
  | none => .ok (owners.insert parameter position)

/-- The owners of all parameters: those of the components in their order, and of each component in
    the order of their names. -/
def indexOwners (components : List ParameterBlock) :
    Except GraphError (Std.ExtTreeMap String Nat) :=
  components.zipIdx.foldlM
    (fun owners e => e.1.names.foldlM (addOwner components e.1 e.2) owners) ∅

/-- A model of one or more components, no two of which declare the same parameter. -/
def ofComponents (name image : String) (components : List ParameterBlock) :
    Except GraphError ComposedModel :=
  if components.isEmpty then .error (.emptyModel name)
  else do return ⟨name, image, components, ← indexOwners components⟩

/-- The component that declares a parameter. -/
def owner (m : ComposedModel) (parameter : String) : Except GraphError ParameterBlock :=
  match ownerAmong? m.components m.owners parameter with
  | some b => .ok b
  | none => .error (.unknownParameter parameter)

/-- The value of a parameter. -/
def parameter (m : ComposedModel) (name : String) : Except GraphError Float := do
  match (← m.owner name).parameters[name]? with
  | some value => .ok value
  | none => .error (.unknownParameter name)

/-- The model with a new value of a parameter. -/
def setParameter (m : ComposedModel) (name : String) (value : Float) :
    Except GraphError ComposedModel :=
  match m.owners[name]? with
  | none => .error (.unknownParameter name)
  | some i =>
    match m.components[i]? >>= fun b => b.set? name value with
    | some b => .ok { m with components := m.components.set i b }
    | none => .error (.unknownParameter name)

/-- The sum of the costs of the components. -/
def cost (m : ComposedModel) (atoms : UInt32) : Cost :=
  Cost.sum (m.components.map fun b => linearCost b.fixed b.perAtom atoms)

/-- The states of the components, one after the other. -/
def state (m : ComposedModel) (atoms : AtomRange) : List UInt8 :=
  m.components.flatMap fun b => b.state atoms

end ComposedModel

/-! ## Models -/

/-- A model that is known by its answers only. The state of some ranges of atoms may fail to be
    written. -/
structure CustomModel where
  image : String
  cost : UInt32 → Cost
  state : AtomRange → Except GraphError (List UInt8)
  cost_fits : ∀ m n, m ≤ n → (cost m).fits (cost n) = true

/-- A unit model. -/
inductive UnitModel
  | linear (m : LinearModel)
  | composed (m : ComposedModel)
  /-- A linear model whose state cannot be written. -/
  | stateless (m : LinearModel) (reason : String)
  | custom (m : CustomModel)

namespace UnitModel

/-- The cost of some number of atoms on one core. -/
def cost : UnitModel → UInt32 → Cost
  | linear m, n | stateless m _, n => linearCost m.fixed m.perAtom n
  | composed m, n => m.cost n
  | custom m, n => m.cost n

/-- The bytes of the initial state of some atoms. -/
def state : UnitModel → AtomRange → Except GraphError (List UInt8)
  | linear m, atoms => .ok (m.state atoms)
  | composed m, atoms => .ok (m.state atoms)
  | stateless _ reason, atoms => .error (.stateSerialization atoms.lo atoms.hi reason)
  | custom m, atoms => m.state atoms

/-- The name of the executable. -/
def image : UnitModel → String
  | linear m | stateless m _ => m.image
  | composed m => m.image
  | custom m => m.image

end UnitModel

end SpikeMesh
