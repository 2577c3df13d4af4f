import SpikeMesh.Error
import SpikeMesh.Id

set_option autoImplicit false

/-! # Errors of graphs and models

Why a unit, a connection or a model is refused. -/

namespace SpikeMesh

/-- Why something is no part of a network. -/
inductive GraphError
  /-- Two units have one label. -/
  | duplicateLabel (label : String)
  | emptyUnit (label : String)
  /-- A connection names a unit that is not in the graph. -/
  | unknownUnit (connection : String) (unit : UnitId)
  /-- Two components of a model declare one parameter. -/
  | duplicateParameter (name first second : String)
  | unknownParameter (name : String)
  /-- A composed model has no components. -/
  | emptyModel (name : String)
  /-- A connectivity rule makes no sense for the units that it joins. -/
  | invalidRule (reason : String)
  /-- The initial state of some atoms cannot be written. -/
  | stateSerialization (lo hi : UInt32) (reason : String)
deriving DecidableEq, Repr

namespace GraphError

/-- The text of the error. -/
def message : GraphError → String
  | duplicateLabel label => "a unit labelled '" ++ label ++ "' already exists"
  | emptyUnit label => "unit '" ++ label ++ "' has no atoms"
  | unknownUnit connection unit =>
    "connection '" ++ connection ++ "' refers to unknown unit " ++ Text.natural unit.index
  | duplicateParameter name first second =>
    "parameter '" ++ name ++ "' is declared by both '" ++ first ++ "' and '" ++ second ++ "'"
  | unknownParameter name => "unknown parameter '" ++ name ++ "'"
  | emptyModel name => "model '" ++ name ++ "' has no components"
  | invalidRule reason => "invalid connectivity rule: " ++ reason
  | stateSerialization lo hi reason =>
    "cannot serialize state of atoms " ++ Text.natural lo.toNat ++ ".."
      ++ Text.natural hi.toNat ++ ": " ++ reason

/-- The failure of a stage for the same reason. -/
def toPipelineError (e : GraphError) : PipelineError := .invalidGraph e.message

end GraphError

end SpikeMesh
