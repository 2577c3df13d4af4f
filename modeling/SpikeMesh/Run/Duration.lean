import SpikeMesh.Datum.Decode
import SpikeMesh.Decimal.NumberText
import SpikeMesh.Error

set_option autoImplicit false

/-! # Run lengths

How long an application runs: for some milliseconds of simulated time, or until it is stopped.
A bounded length must be a whole number of nanoseconds and of time steps; a remainder is an
error and never rounded away. -/

namespace SpikeMesh

/-- How long to run. -/
inductive RunLength
  | bounded (milliseconds : Float)
  | unbounded

/-- Why a length and a time step do not go together. -/
inductive TimingError
  | zeroStep
  | notDuration (milliseconds : Float)
  /-- The length is no whole number of nanoseconds. -/
  | fractionalNanosecond (milliseconds : Float)
  /-- The length is no whole number of time steps. -/
  | fractionalStep (milliseconds : Float) (timeStepUs : UInt64) (leftOver : Nat)

/-- The cause in words. -/
def TimingError.reason : TimingError → String
  | zeroStep => "the time step must be positive"
  | notDuration ms =>
    "run length " ++ Decimal.message ms ++ " ms is not a finite, non-negative duration"
  | fractionalNanosecond ms =>
    "run length " ++ Decimal.message ms ++ " ms is not a whole number of nanoseconds"
  | fractionalStep ms timeStepUs leftOver =>
    "run length " ++ Decimal.message ms ++ " ms is not a whole number of "
      ++ Decimal.message (Decimal.ofNatural timeStepUs.toNat / 1000.0) ++ " ms time steps ("
      ++ Text.natural leftOver ++ " ns left over)"

namespace RunLength

/-- Whether the run has no end. -/
def isUnbounded : RunLength → Bool
  | bounded _ => false
  | unbounded => true

/-- The length in messages. -/
def description : RunLength → String
  | bounded ms => Decimal.message ms ++ " ms"
  | unbounded => "unbounded"

def toDatum : RunLength → Datum
  | bounded ms => .table [("bounded", .float ms)]
  | unbounded => .text "unbounded"

def ofDatum? : Datum → Option RunLength
  | .text "unbounded" | .table [("unbounded", .null)] => some unbounded
  | .table [("bounded", ms)] => ms.toFloat?.map bounded
  | _ => none

end RunLength

/-! ## Whole nanoseconds -/

/-- How far from a whole number a number of nanoseconds may be in order to count as whole: the
    double nearest to a thousandth, as a multiple of `2 ^ -60`. -/
def wholeTolerance : Nat := 1152921504606847

/-- The whole number nearest to `m / d`, a half going up, if it is near enough. -/
def nearestWhole? (m d : Nat) : Option Nat :=
  let whole := (2 * m + d) / (2 * d)
  let distance := (m - whole * d) + (whole * d - m)
  if wholeTolerance * d < distance <<< 60 then none else some whole

/-- The number of nanoseconds that a non-negative double is near enough to. -/
def wholeNanoseconds? (exact : Float) : Option Nat :=
  match Decimal.Binary64.ofFloat exact with
  | .finite _ m e => if 0 ≤ e then some (m <<< e.toNat) else nearestWhole? m (1 <<< (-e).toNat)
  | .infinite _ | .notANumber => none

/-! ## Time steps -/

/-- The nanoseconds of a run; they must fit into 64 bits, where a length of `2 ^ 64` counts as
    the largest number. -/
def RunLength.nanoseconds (ms : Float) : Except TimingError Nat :=
  if !ms.isFinite || ms < 0.0 then .error (.notDuration ms)
  else match wholeNanoseconds? (ms * 1000000.0) with
  | none => .error (.fractionalNanosecond ms)
  | some ns =>
    if UInt64.size < ns then .error (.fractionalNanosecond ms)
    else .ok (Amount.clamp ns).toNat

/-- The number of time steps of a bounded run. -/
def RunLength.boundedSteps (ms : Float) (timeStepUs : UInt64) : Except TimingError UInt64 :=
  if timeStepUs == 0 then .error .zeroStep
  else do
    let ns ← nanoseconds ms
    let step := (Amount.scale timeStepUs 1000).toNat
    if ns % step == 0 then return UInt64.ofNat (ns / step)
    else throw (.fractionalStep ms timeStepUs (ns % step))

/-- The number of time steps of a run, none for a run without an end. -/
def RunLength.timeSteps (length : RunLength) (timeStepUs : UInt64) :
    Except PipelineError (Option UInt64) :=
  match length with
  | unbounded => .ok none
  | bounded ms =>
    match boundedSteps ms timeStepUs with
    | .ok steps => .ok (some steps)
    | .error e => .error (.invalidTiming e.reason)

end SpikeMesh
