import SpikeMesh.Mapping.Occupancy
import SpikeMesh.Mapping.Placements
import SpikeMesh.Mapping.Slicing

set_option autoImplicit false

/-! # Placing slices

Virtual chips are attached first. Units pinned to a core are placed next, exactly there. All
other slices follow in their order: a slice of a unit with a virtual chip goes there, any other
one to the first real chip with room, where the chips that already hold slices with which it
exchanges packets may be tried first, those with most of them before the others. -/

namespace SpikeMesh

/-! ## Attaching virtual chips -/

/-- A fabric after the virtual chips of a graph were attached, up to the first that cannot
    be. -/
structure Attached where
  fabric : Fabric
  notes : List Diagnostic
  result : Except PipelineError Unit

/-- The finding that a virtual chip was attached. -/
def VirtualChipSpec.note (spec : VirtualChipSpec) : Diagnostic :=
  .note .virtualChipAdded ("virtual chip attached to chip " ++ spec.connectedTo.description)
    (some ("chip " ++ spec.coord.description))

/-- Attach virtual chips one after the other. -/
def Fabric.attachAll (f : Fabric) : List VirtualChipSpec → Attached
  | [] => ⟨f, [], .ok ()⟩
  | spec :: rest =>
    match f.addVirtualChip spec with
    | .error e => ⟨f, [], .error e⟩
    | .ok extended =>
      let after := extended.attachAll rest
      if f.contains spec.coord then after else { after with notes := spec.note :: after.notes }

/-- The virtual chips that the units of a graph ask for. -/
def ApplicationGraph.virtualChips (g : ApplicationGraph) : List VirtualChipSpec :=
  g.units.filterMap fun u => u.virtualChip

/-! ## Slices on cores -/

/-- What is left on the chips, and the slices placed so far. -/
structure PlacementState where
  occupancy : Occupancy
  placements : Placements

/-- The slice as the subject of messages. -/
def Slice.subject (s : Slice) (u : GraphUnit) : String :=
  "slice " ++ Text.natural s.index.toNat ++ " " ++ s.atoms.description ++ " of " ++ u.subject

namespace PlacementState

/-- Nothing is placed yet. -/
def start (f : Fabric) : PlacementState := ⟨.ofFabric f, .empty⟩

/-- The state after a slice was placed. -/
def assign (st : PlacementState) (s : Slice) (l : Location) : PlacementState :=
  ⟨st.occupancy.take l s.cost, st.placements.insert s.id l⟩

end PlacementState

/-! ## Pinned units -/

/-- Why a unit cannot be pinned to a core. -/
inductive PinError
  | split (slices : Nat)
  | otherChip (virtualChip : ChipCoord)
  | missingSlice (slice : SliceId)
  | noChip
  | noCore
  | monitor
  | occupied
deriving DecidableEq, Repr

/-- The cause in words, for a unit pinned to a location. -/
def PinError.reason (l : Location) : PinError → String
  | split n =>
    "pinned to " ++ l.description ++ " but partitioned into " ++ Text.natural n ++ " slices"
  | otherChip c =>
    "pinned to " ++ l.description ++ " but confined to virtual chip " ++ c.description
  | missingSlice s => "slice " ++ Text.natural s.index ++ " is missing"
  | noChip => "chip " ++ l.chip.description ++ " does not exist"
  | noCore => "core " ++ l.description ++ " does not exist"
  | monitor => "core " ++ l.description ++ " is the monitor core"
  | occupied => "core " ++ l.description ++ " is already occupied"

namespace PlacementState

/-- The one slice of a unit that may be pinned, and the budget that its core has left. -/
def pinnedSlice (st : PlacementState) (f : Fabric) (p : PartitionedGraph) (id : UnitId)
    (u : GraphUnit) (l : Location) : Except PinError (Slice × Cost) := do
  let sliceId ← match p.slicesOf id with
    | [s] => .ok s
    | ss => .error (.split ss.length)
  match u.virtualChip with
    | some spec => if spec.coord != l.chip then throw (.otherChip spec.coord)
    | none => pure ()
  let some slice := p.slice? sliceId | throw (.missingSlice sliceId)
  let some chip := f.chip? l.chip | throw .noChip
  let some core := chip.core? l.core | throw .noCore
  if core.isMonitor then throw .monitor
  let some room := st.occupancy.room? l.chip | throw .noChip
  if !room.freeCores.contains l.core then throw .occupied
  return (slice, { chip.coreBudget core with sharedMemory := room.sharedLeft })

/-- Place a unit exactly where it is pinned. -/
def pin (st : PlacementState) (f : Fabric) (p : PartitionedGraph) (id : UnitId)
    (u : GraphUnit) (l : Location) : Except PipelineError PlacementState :=
  match st.pinnedSlice f p id u l with
  | .error e => .error (.invalidConstraint u.subject (e.reason l))
  | .ok (slice, budget) =>
    match slice.cost.firstExcess? budget with
    | some e =>
      .error (.resourceExceeded (slice.subject u ++ " at " ++ l.description) e.resource
        e.requested e.available)
    | none => .ok (st.assign slice l)

/-- Place all pinned units. -/
def pinAll (st : PlacementState) (f : Fabric) (g : ApplicationGraph) (p : PartitionedGraph) :
    Except PipelineError PlacementState :=
  g.numberedUnits.foldlM
    (fun st (id, u) =>
      match u.location with
      | some l => st.pin f p id u l
      | none => .ok st)
    st

/-! ## All other slices -/

/-- The chips that hold neighbours of a slice, those with most of them first and otherwise in
    their order. -/
def preferredChips (st : PlacementState)
    (adjacency : Std.ExtTreeMap SliceId (Std.ExtTreeSet SliceId)) (s : SliceId) :
    List ChipCoord :=
  let chips := (adjacency.getD s ∅).toList.filterMap fun n =>
    (st.placements.get? n).map Location.chip
  let counts := chips.foldl
    (fun counts c => counts.insert c (counts.getD c 0 + 1))
    (∅ : Std.ExtTreeMap ChipCoord Nat)
  (counts.toList.mergeSort fun a b => b.2 ≤ a.2).map Prod.fst

/-- The chips on which a slice may be placed, in the order in which they are tried. -/
def candidates (st : PlacementState) (f : Fabric)
    (adjacency : Std.ExtTreeMap SliceId (Std.ExtTreeSet SliceId)) (u : GraphUnit)
    (s : Slice) : List Chip :=
  match u.virtualChip with
  | some spec => (f.chip? spec.coord).toList
  | none =>
    (st.preferredChips adjacency s.id).filterMap
      (fun c => (f.chip? c).filter fun chip => !chip.isVirtual) ++ f.realChips

/-- The first core of the candidates that can take a slice. -/
def findLocation? (st : PlacementState) (chips : List Chip) (s : Slice) : Option Location :=
  chips.findSome? fun chip =>
    (st.occupancy.findCore? chip s.cost).map fun core => ⟨chip.coord, core⟩

/-- Why none of the candidates can take a slice: no core is free, or no chip with a free core
    has the memory, or else no free core has the cycles or the local memory. -/
def shortage (st : PlacementState) (p : PartitionedGraph) (chips : List Chip) (s : Slice) :
    Excess :=
  let rooms := chips.filterMap fun chip =>
    (st.occupancy.room? chip.coord).map fun room => (chip, room)
  let bestShared := ((rooms.filter fun e => !e.2.freeCores.isEmpty).map
    fun e => e.2.sharedLeft).foldl max 0
  let cores := rooms.flatMap fun e => e.2.freeCores.toList.filterMap e.1.core?
  let bestCycles := (cores.map Core.cpuCycles).foldl max 0
  let bestLocal := (cores.map Core.localMemory).foldl max 0
  if rooms.all fun e => e.2.freeCores.isEmpty then
    let unplaced := p.slices.toList.countP fun s => (st.placements.get? s.id).isNone
    ⟨.cores, UInt64.ofNat unplaced, 0⟩
  else if bestShared < s.cost.sharedMemory then
    ⟨.sharedMemory, s.cost.sharedMemory, bestShared⟩
  else if bestCycles < s.cost.cpuCycles then ⟨.cpuCycles, s.cost.cpuCycles, bestCycles⟩
  else ⟨.localMemory, s.cost.localMemory, bestLocal⟩

/-- Place a slice, unless it is placed already. -/
def placeSlice (st : PlacementState) (f : Fabric) (g : ApplicationGraph)
    (p : PartitionedGraph) (adjacency : Std.ExtTreeMap SliceId (Std.ExtTreeSet SliceId))
    (s : Slice) : Except PipelineError PlacementState :=
  if (st.placements.get? s.id).isSome then .ok st
  else match g.unit? s.unit with
  | none =>
    .error (.invalidGraph ("slice " ++ Text.natural s.id.index ++ " belongs to unknown unit "
      ++ Text.natural s.unit.index))
  | some u =>
    let chips := st.candidates f adjacency u s
    match st.findLocation? chips s with
    | some l => .ok (st.assign s l)
    | none =>
      let e := st.shortage p chips s
      .error (.resourceExceeded (s.subject u) e.resource e.requested e.available)

end PlacementState

/-- Place all slices on a fabric to which the virtual chips are attached. -/
def Fabric.placeSlices (f : Fabric) (g : ApplicationGraph) (p : PartitionedGraph)
    (placer : PlacerKind) : Except PipelineError Placements := do
  let pinned ← (PlacementState.start f).pinAll f g p
  let adjacency := match placer with
    | .locality => p.adjacency
    | .linear => ∅
  let placed ← p.slices.toList.foldlM (fun st s => st.placeSlice f g p adjacency s) pinned
  return placed.placements

/-- The placements of all slices, with the fabric as it is afterwards. -/
structure Placed where
  fabric : Fabric
  notes : List Diagnostic
  result : Except PipelineError Placements

/-- Attach the virtual chips of a graph and place all slices. The chips stay attached when
    placing fails. -/
def Fabric.place (f : Fabric) (g : ApplicationGraph) (p : PartitionedGraph)
    (placer : PlacerKind) : Placed :=
  let attached := f.attachAll g.virtualChips
  { fabric := attached.fabric
    notes := attached.notes
    result := attached.result >>= fun _ => attached.fabric.placeSlices g p placer }

end SpikeMesh
