import SpikeMesh.Mapping.Basic
import SpikeMesh.Mapping.Place
import SpikeMesh.Mapping.Traffic
import SpikeMesh.Routing.Check

set_option autoImplicit false

/-! # Compiling a graph

The stages from a graph, a fabric and a configuration to a mapping. The first error ends the
compilation; what was found until then is reported all the same, and virtual chips that were
attached stay. -/

namespace SpikeMesh

/-- The outcome of a compilation: the fabric as it is left, what was found, and the mapping or
    the error. -/
structure Compilation where
  fabric : Fabric
  findings : List Diagnostic
  result : Except PipelineError Mapping

namespace Config

/-- The key allocator that the configuration selects. -/
def keyAllocator (c : Config) : KeyAllocator := ⟨c.mapping.keyAllocator, c.keys.widthBits⟩

/-- The stages that a compilation goes through. -/
def stages (c : Config) : List Stage :=
  [.partition, .edgeFilter, .place, .keys, .route]
    ++ (if c.mapping.validateRoutes then [.validate] else []) ++ [.tags]

end Config

/-- The error that there is nothing to compile for. -/
def noApplicationCores : PipelineError :=
  .invalidConstraint "fabric" "no application cores are available"

/-- The stages after placement: keys, routes, their check if asked for, and tags. -/
def finishMapping (config : Config) (allocator : KeyAllocator) (g : ApplicationGraph)
    (p : PartitionedGraph) (placements : Placements) (f : Fabric) :
    Except PipelineError Mapping := do
  let keys ← allocator.allocate p
  let job : RoutingJob := ⟨p, placements, keys, f⟩
  let tables ← job.route config.mapping.router
  if config.mapping.validateRoutes then job.validate tables
  let tags ← g.allocateTags p placements config.tags
  return ⟨p, placements, keys, tables, tags,
    if config.reports.timings then some config.stages else none⟩

/-- What is found while routes are compiled, if the compilation comes that far. -/
def routingFindings (config : Config) (allocator : KeyAllocator) (p : PartitionedGraph)
    (placements : Placements) (f : Fabric) : List Diagnostic :=
  match allocator.allocate p with
  | .ok keys => RoutingJob.routeWarnings ⟨p, placements, keys, f⟩ config.mapping.router
  | .error _ => []

/-- The stages from placement on. -/
def compileTraffic (config : Config) (allocator : KeyAllocator) (g : ApplicationGraph)
    (f : Fabric) (p : PartitionedGraph) : Compilation :=
  let placed := f.place g p config.mapping.placer
  match placed.result with
  | .error e => ⟨placed.fabric, placed.notes, .error e⟩
  | .ok placements =>
    { fabric := placed.fabric
      findings := placed.notes ++ routingFindings config allocator p placements placed.fabric
      result := finishMapping config allocator g p placements placed.fabric }

/-- Compile a graph with a key allocator of one's own. -/
def compileWith (config : Config) (allocator : KeyAllocator) (g : ApplicationGraph)
    (f : Fabric) : Compilation :=
  match f.partitionBudget? with
  | none => ⟨f, [], .error noApplicationCores⟩
  | some budget =>
    let ceilings := config.mapping.atomsPerCore
    let splits := ApplicationGraph.partitionNotes budget ceilings g.units
    match g.partition budget ceilings with
    | .error e => ⟨f, splits, .error e⟩
    | .ok p =>
      let rest := compileTraffic config allocator g f (p.prune g)
      { rest with findings := splits ++ (p.pruneNote? g).toList ++ rest.findings }

/-- Compile a graph for a fabric. -/
def compile (config : Config) (g : ApplicationGraph) (f : Fabric) : Compilation :=
  compileWith config config.keyAllocator g f

end SpikeMesh
