import SpikeMesh.Board.Text
import SpikeMesh.Json.Writer
import SpikeMesh.Run.Simulator
import SpikeMesh.Lists

set_option autoImplicit false

/-! # Reports

What the commands print: a machine, a mapping, the summary of a run and the times of its
stages. -/

namespace SpikeMesh.CommandLine

/-! ## Layout -/

/-- A text with blanks after it up to a width. -/
def padRight (width : Nat) (s : String) : String :=
  s ++ String.ofList (List.replicate (width - s.length) ' ')

/-- A text with blanks before it up to a width. -/
def padLeft (width : Nat) (s : String) : String :=
  String.ofList (List.replicate (width - s.length) ' ') ++ s

/-! ## Times -/

/-- The microseconds that each stage took. -/
abbrev StageClock := String → Nat

/-- Microseconds as milliseconds with three places. -/
def millisecondsText (us : Nat) : String :=
  Text.natural (us / 1000) ++ "." ++ Text.paddedDigits 3 (us % 1000)

/-- The line of a stage with its time. -/
def timeLine (stage : String) (us : Nat) : String :=
  "  " ++ padLeft 12 stage ++ " " ++ padLeft 10 (millisecondsText us) ++ " ms"

/-- The times of stages, and their sum. -/
def timeLines (clock : StageClock) (stages : List String) : List String :=
  (stages.map fun s => timeLine s (clock s)) ++ [timeLine "total" (total clock stages)]

/-- The times of stages as data, in milliseconds. -/
def timesDatum (clock : StageClock) : Option (List String) → Datum
  | none => .null
  | some stages =>
    .sortedTable (stages.map fun s => (s, .float (Decimal.ofNatural (clock s) / 1000.0)))

/-! ## Machines -/

/-- The partitioner in reports. -/
def partitionerTitle : PartitionerKind → String
  | .monotoneSearch => "MonotoneSearch"

/-- The placer in reports. -/
def placerTitle : PlacerKind → String
  | .locality => "Locality"
  | .linear => "Linear"

/-- The router in reports. -/
def routerTitle : RouterKind → String
  | .shortestPath => "ShortestPath"
  | .linkSpeed => "LinkSpeed"

/-- The key allocator in reports. -/
def keyAllocatorTitle : KeyAllocatorKind → String
  | .sequential => "Sequential"
  | .atomBlock => "AtomBlock"

/-- The machine and the algorithms of a configuration. -/
def configLines (c : Config) (f : Fabric) : List String := [
  "   Machine " ++ Text.natural c.machine.width.toNat ++ "x"
    ++ Text.natural c.machine.height.toNat ++ " (" ++ Text.natural f.chips.size
    ++ " chip(s), " ++ Text.natural f.applicationCoreCount ++ " application core(s)"
    ++ (if c.machine.wrapAround then ", wrap-around" else "") ++ ")",
  "    Budget " ++ c.machine.coreBudget.description ++ " per core",
  "   Mapping " ++ partitionerTitle c.mapping.partitioner ++ " partitioner, "
    ++ placerTitle c.mapping.placer ++ " placer, " ++ routerTitle c.mapping.router
    ++ " router, " ++ keyAllocatorTitle c.mapping.keyAllocator ++ " keys ("
    ++ Text.natural c.keys.widthBits.toNat ++ " bits)"]

/-- The size of a network. -/
def networkLine (g : ApplicationGraph) : String :=
  "   Network " ++ Text.natural g.units.length ++ " unit(s), "
    ++ Text.natural g.connections.length ++ " connection(s), " ++ Text.natural g.totalAtoms
    ++ " atom(s)"

/-! ## Mappings -/

/-- The label of the unit to which a slice belongs. -/
def sliceLabel (g : ApplicationGraph) (m : Mapping) (s : SliceId) : String :=
  match m.unitOf? g s with
  | some u => u.label
  | none => Text.natural s.index

/-- Where a slice was placed. -/
def placementLine (g : ApplicationGraph) (m : Mapping) (s : Slice) : String :=
  let place := match m.placements.get? s.id with
    | some l => l.description
    | none => "-"
  "  " ++ padRight 20 (sliceLabel g m s.id) ++ " atoms " ++ padRight 12 s.atoms.description
    ++ " -> " ++ place

/-- The key of a partitioned connection. -/
def keyLine? (g : ApplicationGraph) (m : Mapping) (pc : PartitionedConnection) :
    Option String := do
  let key ← m.keys.get? pc.id
  let label := match g.connection? pc.connection with
    | some c => c.label
    | none => "?"
  return "  " ++ padRight 20 label ++ " from " ++ padRight 20 (sliceLabel g m pc.source)
    ++ " key " ++ Text.hexWord key.key ++ " mask " ++ Text.hexWord key.mask ++ " ("
    ++ Text.natural pc.targets.length ++ " target(s))"

/-- The size of a chip's routing table. -/
def tableLine (c : ChipCoord) (t : RoutingTable) : String :=
  "  chip " ++ c.description ++ ": " ++ Text.natural t.size ++ " entr(ies)"

/-- A notification tag. -/
def notificationLine (g : ApplicationGraph) (t : NotificationTag) : String :=
  let label := match g.unit? t.unit with
    | some u => u.label
    | none => "?"
  "  notification " ++ Text.natural t.tag.toNat ++ " for " ++ label ++ " -> " ++ t.host ++ ":"
    ++ Text.natural t.port.toNat

/-- A reverse tag. -/
def reverseLine (t : ReverseTag) : String :=
  "  reverse " ++ Text.natural t.tag.toNat ++ " port " ++ Text.natural t.port.toNat ++ " -> "
    ++ t.destination.description

/-- The tags of a mapping, if it has any. -/
def tagLines (g : ApplicationGraph) (tags : TagAllocations) : List String :=
  if tags.isEmpty then []
  else "tags:" :: (tags.notification.map (notificationLine g) ++ tags.reverse.map reverseLine)

/-- A mapping. -/
def mappingLines (g : ApplicationGraph) (m : Mapping) : List String :=
  ["placements:"] ++ m.partitioned.slices.toList.map (placementLine g m)
    ++ ["keys:"] ++ m.partitioned.connections.toList.filterMap (keyLine? g m)
    ++ ["routing tables:"]
    ++ (m.routingTables.toList.filter fun e => !e.2.isEmpty).map (fun e => tableLine e.1 e.2)
    ++ tagLines g m.tags
    ++ ["fingerprint: " ++ m.fingerprint.text]

/-! ## Runs -/

/-- A value that a core has reported. -/
def provenanceLine (item : ProvenanceItem) : String :=
  "  " ++ item.location.description ++ " " ++ padRight 24 item.image ++ " "
    ++ padRight 12 item.name ++ " " ++ Text.natural item.value.toNat

/-- The summary of a run. -/
def summaryLines (s : RunSummary) : List String :=
  let steps := match s.timeSteps with
    | some n => Text.natural n.toNat
    | none => "unbounded"
  ["time steps: " ++ steps,
    "slices: " ++ Text.natural s.slices,
    "chips used: " ++ Text.natural s.chipsUsed,
    "routing entries: " ++ Text.natural s.routingEntries,
    "images: " ++ Text.natural s.images,
    "fingerprint: " ++ s.fingerprint.text]
    ++ (if s.provenance.isEmpty then [] else "provenance:" :: s.provenance.map provenanceLine)

/-- A value that a core has reported as part of a summary, in the order of the names. -/
def provenanceDatum (item : ProvenanceItem) : Datum :=
  match item.toDatum with
  | .table entries => .sortedTable entries
  | d => d

/-- The summary of a run as data, in the order of the names. -/
def summaryDatum (clock : StageClock) (s : RunSummary) : Datum := .sortedTable [
  ("fingerprint", .text s.fingerprint.text),
  ("time_steps", .ofOption (fun n => .natural n.toNat) s.timeSteps),
  ("slices", .natural s.slices),
  ("chips_used", .natural s.chipsUsed),
  ("routing_entries", .natural s.routingEntries),
  ("images", .natural s.images),
  ("provenance", .ofList provenanceDatum s.provenance),
  ("mapping_timings_ms",
    timesDatum clock (s.mappingStages.map fun stages => stages.map Stage.text)),
  ("execution_timings_ms",
    timesDatum clock (s.executionStages.map fun stages => stages.map ExecutionStage.text))]

end SpikeMesh.CommandLine
