import SpikeMesh.Coord
import SpikeMesh.Direction
import SpikeMesh.Resource
import SpikeMesh.Text.Hex

set_option autoImplicit false

/-! # Errors

Why a graph cannot be compiled or run. Compilation is deterministic, so only a failure of the
board is worth trying again with the same inputs. -/

namespace SpikeMesh

/-- The two pools of communication tags. -/
inductive TagKind
  /-- Tags of packets that go out to hosts. -/
  | notification
  /-- Tags of traffic that comes in to one core. -/
  | reverse
deriving DecidableEq, Repr

/-- The pool in messages and as a key. -/
def TagKind.text : TagKind → String
  | .notification => "notification"
  | .reverse => "reverse"

/-- Why the board did not do what it was asked. -/
inductive BoardError
  | timeout (operation : String) (milliseconds : UInt64)
  /-- Reading or writing failed, with the reason given by the transport. -/
  | transport (reason : String)
  | rejected (reason : String)
deriving DecidableEq, Repr

namespace BoardError

/-- The text of the error. -/
def message : BoardError → String
  | timeout operation ms =>
    operation ++ " timed out after " ++ Text.natural ms.toNat ++ "ms"
  | transport reason => "I/O error: " ++ reason
  | rejected reason => "request rejected: " ++ reason

/-- Whether the board did not answer in time. -/
def isTimeout : BoardError → Bool
  | timeout _ _ => true
  | _ => false

end BoardError

/-- A fatal failure of a stage. -/
inductive PipelineError
  /-- A unit, a slice or a pinned placement does not fit. -/
  | resourceExceeded (subject : String) (resource : Resource) (requested available : UInt64)
  /-- There are more routing keys than the key width allows. -/
  | keySpaceExhausted (widthBits : UInt8) (requested capacity : UInt64)
  /-- A chip needs more routing entries than its router holds. -/
  | tableCapacityExceeded (chip : ChipCoord) (entries capacity overflow : Nat)
  /-- No path leads from the source of a connection to one of its targets. -/
  | routeUnreachable (key : UInt32) (source target : ChipCoord)
  /-- A packet would come back to a chip it has passed; the chips in the order of travel. -/
  | routingCycle (key : UInt32) (chips : List ChipCoord)
  /-- Run length and time step do not go together. -/
  | invalidTiming (reason : String)
  /-- A tag asked for by number is taken. -/
  | tagConflict (pool : TagKind) (tag : UInt32) (subject : String)
  | tagPoolExhausted (pool : TagKind) (max : UInt32)
  /-- A unit with a reverse tag was split over several cores. -/
  | multiCoreReverseTag (unit : String) (slices : Nat)
  /-- Two entries of one routing table match the same packet. -/
  | keyCollision (chip : ChipCoord) (first second : UInt32)
  /-- A routing entry uses a link that leads nowhere. -/
  | nonexistentLink (chip : ChipCoord) (direction : Direction) (key : UInt32)
  /-- A placement or virtual chip cannot be had as asked for. -/
  | invalidConstraint (subject reason : String)
  | invalidGraph (reason : String)
  /-- Some slices got no data; the first failure in the order of the slices. -/
  | dataGenerationFailed (failures total : Nat) (first : String)
  /-- The board failed in an operation. -/
  | boardFailure (operation : String) (cause : BoardError)
deriving DecidableEq, Repr

namespace PipelineError

/-- The text of the error. -/
def message : PipelineError → String
  | resourceExceeded subject resource requested available =>
    subject ++ " needs " ++ Text.natural requested.toNat ++ " " ++ resource.description
      ++ " but only " ++ Text.natural available.toNat ++ " are available"
  | keySpaceExhausted width requested capacity =>
    "routing key space of " ++ Text.natural width.toNat ++ " bits exhausted: "
      ++ Text.natural requested.toNat ++ " keys needed, " ++ Text.natural capacity.toNat
      ++ " available"
  | tableCapacityExceeded chip entries capacity overflow =>
    "routing table on chip " ++ chip.description ++ " needs " ++ Text.natural entries
      ++ " entries but holds " ++ Text.natural capacity ++ " (" ++ Text.natural overflow
      ++ " too many)"
  | routeUnreachable key source target =>
    "no route for key " ++ Text.hexWord key ++ " from chip " ++ source.description
      ++ " to chip " ++ target.description
  | routingCycle key chips =>
    "routing cycle for key " ++ Text.hexWord key ++ " through chips "
      ++ " -> ".intercalate (chips.map ChipCoord.description)
  | invalidTiming reason => "invalid timing configuration: " ++ reason
  | tagConflict pool tag subject =>
    pool.text ++ " tag " ++ Text.natural tag.toNat ++ " requested by " ++ subject
      ++ " is already allocated"
  | tagPoolExhausted pool max =>
    pool.text ++ " tag pool exhausted: tags are limited to " ++ Text.natural max.toNat
  | multiCoreReverseTag unit slices =>
    "unit '" ++ unit ++ "' requests a reverse tag but was partitioned into "
      ++ Text.natural slices
      ++ " slices; adjust its atoms-per-core so it maps to a single core"
  | keyCollision chip first second =>
    "routing keys " ++ Text.hexWord first ++ " and " ++ Text.hexWord second
      ++ " collide under their masks on chip " ++ chip.description
  | nonexistentLink chip direction key =>
    "entry for key " ++ Text.hexWord key ++ " on chip " ++ chip.description
      ++ " uses missing " ++ direction.description ++ " link"
  | invalidConstraint subject reason => "invalid constraint on " ++ subject ++ ": " ++ reason
  | invalidGraph reason => "invalid application graph: " ++ reason
  | dataGenerationFailed failures total first =>
    "data generation failed on " ++ Text.natural failures ++ " of " ++ Text.natural total
      ++ " placements; first failure: " ++ first
  | boardFailure operation cause => "remote " ++ operation ++ " failed: " ++ cause.message

/-- Whether the same call may succeed when tried again. -/
def isRetryable : PipelineError → Bool
  | boardFailure _ _ => true
  | _ => false

/-- Whether the board did not answer in time. -/
def isTimeout : PipelineError → Bool
  | boardFailure _ cause => cause.isTimeout
  | _ => false

/-- The failure of the board behind the error. -/
def cause? : PipelineError → Option BoardError
  | boardFailure _ cause => some cause
  | _ => none

end PipelineError

end SpikeMesh
