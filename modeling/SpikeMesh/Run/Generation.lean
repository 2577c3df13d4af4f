import SpikeMesh.Board.Basic
import SpikeMesh.Lists

set_option autoImplicit false

/-! # Generating the data of slices

The data of every placed slice is generated and written to its core. The slices may be dealt
with in any order; all are attempted, also after a failure, and the outcome is told in the
order of the slices. -/

namespace SpikeMesh

/-- Why a slice got no data. -/
inductive GenerationFailure
  /-- The data could not be generated. -/
  | generate (reason : String)
  /-- The board did not take the data. -/
  | board (cause : BoardError)
deriving DecidableEq, Repr

/-- The failure in messages. -/
def GenerationFailure.message : GenerationFailure → String
  | generate reason => reason
  | board cause => cause.message

/-- What a completed generation wrote. -/
structure GenerationReport where
  /-- The number of slices. -/
  jobs : Nat
  /-- The number of bytes of all states. -/
  stateBytes : Nat
deriving DecidableEq, Repr

/-- The data of a placed slice. -/
def Mapping.loadJob (m : Mapping) (g : ApplicationGraph) (s : SliceId) (l : Location) :
    Except GenerationFailure LoadJob :=
  match m.partitioned.slice? s with
  | none => .error (.generate ("slice " ++ Text.natural s.index ++ " is missing"))
  | some slice =>
    match g.unit? slice.unit with
    | none => .error (.generate ("unit " ++ Text.natural slice.unit.index ++ " is missing"))
    | some u =>
      match u.model.state slice.atoms with
      | .ok state => .ok ⟨s, l, u.model.image, state⟩
      | .error e => .error (.generate e.message)

/-- What came of one slice: the bytes written, or the failure. -/
structure GenerationOutcome where
  slice : SliceId
  location : Location
  result : Except GenerationFailure Nat

namespace Board

/-- Generate the data of a slice and write it to its core. -/
def generate (b : Board) (m : Mapping) (g : ApplicationGraph) (s : SliceId) (l : Location) :
    Except GenerationFailure Nat × Board :=
  match m.loadJob g s l with
  | .error e => (.error e, b)
  | .ok job =>
    match b.submit (.loadData job) with
    | (.ok (), after) => (.ok job.state.length, after)
    | (.error e, after) => (.error (.board e), after)

/-- Deal with slices one after the other, whatever comes of each. -/
def generateEach (b : Board) (m : Mapping) (g : ApplicationGraph) :
    List (SliceId × Location) → List GenerationOutcome × Board
  | [] => ([], b)
  | (s, l) :: rest =>
    let (result, after) := b.generate m g s l
    let (outcomes, last) := after.generateEach m g rest
    (⟨s, l, result⟩ :: outcomes, last)

end Board

/-! ## The outcome of all slices -/

namespace GenerationOutcome

/-- The bytes written for a slice. -/
def bytes (o : GenerationOutcome) : Nat :=
  match o.result with
  | .ok n => n
  | .error _ => 0

/-- The slices that failed, with their locations and failures. -/
def failures (outcomes : List GenerationOutcome) : List (Location × GenerationFailure) :=
  outcomes.filterMap fun o =>
    match o.result with
    | .ok _ => none
    | .error e => some (o.location, e)

/-- The failures of the board, if all are. -/
def boardFailures? (failures : List (Location × GenerationFailure)) : Option (List BoardError) :=
  failures.mapM fun e =>
    match e.2 with
    | .board cause => some cause
    | .generate _ => none

/-- The report on outcomes in the order of the slices. If the board alone is to blame, its
    first failure is the error, since the same call may succeed later. -/
def report (outcomes : List GenerationOutcome) : Except PipelineError GenerationReport :=
  match failures outcomes with
  | [] => .ok ⟨outcomes.length, total bytes outcomes⟩
  | (l, first) :: rest =>
    match boardFailures? ((l, first) :: rest) with
    | some (cause :: _) => .error (.boardFailure BoardOperation.loadData.text cause)
    | _ =>
      .error (.dataGenerationFailed (rest.length + 1) outcomes.length
        ("core " ++ l.description ++ ": " ++ first.message))

/-- Outcomes in the order of the slices. -/
def inOrder (outcomes : List GenerationOutcome) : List GenerationOutcome :=
  outcomes.mergeSort fun a b => (compare a.slice b.slice).isLE

end GenerationOutcome

namespace Board

/-- Generate the data of slices in some order, and report on them in theirs. -/
def generateIn (b : Board) (m : Mapping) (g : ApplicationGraph)
    (order : List (SliceId × Location)) : Except PipelineError GenerationReport × Board :=
  let (outcomes, after) := b.generateEach m g order
  (GenerationOutcome.report (GenerationOutcome.inOrder outcomes), after)

/-- Generate the data of all slices placed on the mesh itself. -/
def generateAll (b : Board) (m : Mapping) (g : ApplicationGraph) (f : Fabric) :
    Except PipelineError GenerationReport × Board :=
  b.generateIn m g (m.realPlacements f)

end Board

end SpikeMesh
