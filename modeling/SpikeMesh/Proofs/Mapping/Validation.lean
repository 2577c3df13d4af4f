import SpikeMesh.Proofs.Mapping.Delivery
import SpikeMesh.Proofs.Routing.Acceptance

set_option autoImplicit false

/-! # Checking routes changes nothing

The check of the compiled tables accepts the tables of every compilation, so a compilation that
asks for it has the outcome of one that does not, its times apart. The errors that only the check
raises are never seen. -/

namespace SpikeMesh

/-! ## The errors of the check -/

/-- Whether an error is raised by the check of tables only. -/
def PipelineError.isRouteFault : PipelineError → Bool
  | .keyCollision .. | .nonexistentLink .. | .routingCycle .. => true
  | _ => false

/-- A computation does not fail with an error that only the check of tables raises. -/
abbrev Faultless {α : Type} (x : Except PipelineError α) : Prop :=
  FailsWith (fun e => e.isRouteFault = false) x

section Stages

variable {g : ApplicationGraph} {p : PartitionedGraph} {f : Fabric} {placements : Placements}

theorem faultless_partition (budget : Cost) (atomsPerCore : Std.ExtTreeMap String UInt32) :
    Faultless (g.partition budget atomsPerCore) := by
  refine FailsWith.bind (failsWith_foldlM (fun p e _ => ?_) _) fun _ => failsWith_ok _
  refine FailsWith.bind ?_ fun _ => failsWith_ok _
  unfold GraphUnit.sliceSize
  split
  · exact failsWith_error rfl
  · exact failsWith_ok _

theorem faultless_addVirtualChip (spec : VirtualChipSpec) : Faultless (f.addVirtualChip spec) := by
  unfold Fabric.addVirtualChip
  simp only
  split
  · split
    · exact failsWith_ok _
    · exact failsWith_error rfl
  · split
    · exact failsWith_error rfl
    · exact failsWith_ok _

theorem faultless_attachAll (specs : List VirtualChipSpec) :
    Faultless (f.attachAll specs).result := by
  induction specs generalizing f with
  | nil => exact failsWith_ok _
  | cons spec rest ih =>
      rw [Fabric.attachAll]
      split
      · next e he => exact failsWith_error (faultless_addVirtualChip spec e he)
      · next extended _ =>
          simp only
          split
          · exact ih
          · exact ih

theorem faultless_pin (st : PlacementState) (id : UnitId) (u : GraphUnit) (l : Location) :
    Faultless (st.pin f p id u l) := by
  unfold PlacementState.pin
  split
  · exact failsWith_error rfl
  · split
    · exact failsWith_error rfl
    · exact failsWith_ok _

theorem faultless_placeSlice (st : PlacementState)
    (adjacency : Std.ExtTreeMap SliceId (Std.ExtTreeSet SliceId)) (s : Slice) :
    Faultless (st.placeSlice f g p adjacency s) := by
  unfold PlacementState.placeSlice
  split
  · exact failsWith_ok _
  · split
    · exact failsWith_error rfl
    · simp only
      split
      · exact failsWith_ok _
      · exact failsWith_error rfl

theorem faultless_place (placer : PlacerKind) : Faultless (f.place g p placer).result := by
  refine (faultless_attachAll _).bind fun _ => ?_
  refine FailsWith.bind (failsWith_foldlM (fun st e _ => ?_) _) fun _ => ?_
  · simp only
    split
    · exact faultless_pin st _ _ _
    · exact failsWith_ok _
  · refine FailsWith.bind (failsWith_foldlM (fun st s _ => ?_) _) fun _ => failsWith_ok _
    exact faultless_placeSlice st _ s

theorem faultless_blocksFrom (allocator : KeyAllocator) (free : Nat)
    (connections : List PartitionedConnection) :
    Faultless (allocator.blocksFrom p free connections) := by
  induction connections generalizing free with
  | nil => exact failsWith_ok _
  | cons pc rest ih =>
      rw [KeyAllocator.blocksFrom]
      simp only
      split
      · exact failsWith_error rfl
      · exact (ih _).bind fun _ => failsWith_ok _

theorem faultless_allocate (allocator : KeyAllocator) : Faultless (allocator.allocate p) := by
  unfold KeyAllocator.allocate
  split
  · unfold KeyAllocator.sequential
    split
    · exact failsWith_error rfl
    · exact failsWith_ok _
  · exact (faultless_blocksFrom allocator 0 _).bind fun _ => failsWith_ok _

theorem faultless_treeOf (job : RoutingJob) (paths : ShortestPathTree) (key : RoutingKey)
    (pc : PartitionedConnection) : Faultless (job.treeOf paths key pc) := by
  refine failsWith_foldlM (fun tree target _ => FailsWith.bind ?_ fun destination => ?_) _
  · unfold RoutingJob.targetOf
    split
    · exact failsWith_ok _
    · exact failsWith_error rfl
  · split
    · exact failsWith_ok _
    · exact failsWith_error rfl

theorem faultless_addConnection (job : RoutingJob) (kind : RouterKind)
    (state : RoutingJob.PathCache × RoutingTables) (pc : PartitionedConnection) :
    Faultless (job.addConnection kind state pc) := by
  refine FailsWith.bind ?_ fun source => FailsWith.bind ?_ fun key => ?_
  · unfold RoutingJob.sourceOf
    split
    · exact failsWith_ok _
    · exact failsWith_error rfl
  · unfold RoutingJob.keyOf
    split
    · exact failsWith_ok _
    · exact failsWith_error rfl
  · exact FailsWith.bind (faultless_treeOf _ _ _ _) fun _ => failsWith_ok _

theorem faultless_route (job : RoutingJob) (kind : RouterKind) : Faultless (job.route kind) := by
  refine FailsWith.bind ?_ fun tables => FailsWith.bind ?_ fun _ => failsWith_ok _
  · exact FailsWith.bind (failsWith_foldlM (fun state pc _ =>
      faultless_addConnection job kind state pc) _) fun _ => failsWith_ok _
  · unfold RoutingTables.checkCapacity
    split
    · next e he =>
        obtain ⟨entry, -, he⟩ := List.exists_of_findSome?_eq_some he
        unfold RoutingTables.overflow? at he
        simp only at he
        split at he
        · exact failsWith_error (Option.some.inj he ▸ rfl)
        · exact absurd he (by simp)
    · exact failsWith_ok _

theorem faultless_unitRequests (id : UnitId) (u : GraphUnit) :
    Faultless (unitRequests p placements id u) := by
  unfold unitRequests
  simp only
  split
  · exact failsWith_ok _
  · refine FailsWith.bind ?_ fun _ => failsWith_ok _
    unfold reverseDestination
    split
    · split
      · exact failsWith_ok _
      · exact failsWith_error rfl
    · exact failsWith_error rfl

theorem faultless_poolAllocate (pool : TagPool) (requested : Option UInt32) (subject : String) :
    Faultless (pool.allocate requested subject) := by
  cases requested with
  | some tag =>
      refine FailsWith.bind ?_ fun _ => failsWith_ok _
      unfold TagPool.explicitTag
      split
      · exact failsWith_error rfl
      · split
        · exact failsWith_error rfl
        · exact failsWith_ok _
  | none =>
      refine FailsWith.bind ?_ fun _ => failsWith_ok _
      unfold TagPool.automaticTag
      split
      · exact failsWith_error rfl
      · exact failsWith_ok _

theorem faultless_allocateTags (config : TagConfig) :
    Faultless (g.allocateTags p placements config) := by
  refine FailsWith.bind ?_ fun requests => FailsWith.bind ?_ fun _ => failsWith_ok _
  · refine FailsWith.bind (failsWith_mapM fun e _ => ?_) fun _ => failsWith_ok _
    exact faultless_unitRequests e.1 e.2
  · refine failsWith_foldlM (fun ledger r _ => ?_) _
    unfold TagLedger.serve
    split
    · exact FailsWith.bind (faultless_poolAllocate _ _ _) fun _ => failsWith_ok _
    · exact FailsWith.bind (faultless_poolAllocate _ _ _) fun _ => failsWith_ok _

end Stages

/-! ## Compilations with and without the check -/

/-- A mapping without its times. -/
def Mapping.untimed (m : Mapping) : Mapping := { m with timedStages := none }

/-- A compilation without the times of its mapping. -/
def Compilation.untimed (c : Compilation) : Compilation :=
  { c with result := c.result.map Mapping.untimed }

/-- The configuration that asks for the check of tables, or does not. -/
def Config.checking (config : Config) (on : Bool) : Config :=
  { config with mapping := { config.mapping with validateRoutes := on } }

/-- What a compilation routes, and the tables that it gets. -/
structure RoutedBy (config : Config) (allocator : KeyAllocator) (g : ApplicationGraph) (f : Fabric)
    (job : RoutingJob) (tables : RoutingTables) : Prop where
  partition_eq : ∃ budget p, f.partitionBudget? = some budget ∧
    g.partition budget config.mapping.atomsPerCore = .ok p ∧ job.partitioned = p.prune g
  place_eq : (f.place g job.partitioned config.mapping.placer).result = .ok job.placements
  fabric_eq : job.fabric = (f.place g job.partitioned config.mapping.placer).fabric
  keys_eq : allocator.allocate job.partitioned = .ok job.keys
  route_eq : job.route config.mapping.router = .ok tables

section Checking

variable {config : Config} {allocator : KeyAllocator} {g : ApplicationGraph} {f : Fabric}

/-- No packet belongs to two connections of what a compilation routes. -/
theorem RoutedBy.apart {job : RoutingJob} {tables : RoutingTables}
    (h : RoutedBy config allocator g f job tables) (hids : FewerThanIds config g f) :
    job.keys.Apart job.partitioned.connections.toList := by
  obtain ⟨budget, p, hbudget, hpartition, hp⟩ := h.partition_eq
  obtain ⟨-, hconnections⟩ := hids budget hbudget p (by rw [hpartition]; rfl)
  have hnumbered := (ApplicationGraph.partition_eq_ok hpartition).1.numbered
  have hdistinct := hnumbered.pairwise_prune_id g hconnections
  rw [← hp] at hdistinct
  exact (KeyAllocator.allocate_eq_ok hdistinct h.keys_eq).1

/-- The check accepts what a compilation routes. -/
theorem RoutedBy.validate_eq_ok {job : RoutingJob} {tables : RoutingTables}
    (h : RoutedBy config allocator g f job tables) (hids : FewerThanIds config g f) :
    job.validate tables = .ok () :=
  RoutingJob.validate_of_route (h.apart hids) h.route_eq

theorem finishMapping_checking {p : PartitionedGraph} {placements : Placements}
    (h : ∀ keys tables, allocator.allocate p = .ok keys →
      RoutingJob.route ⟨p, placements, keys, f⟩ config.mapping.router = .ok tables →
      RoutingJob.validate ⟨p, placements, keys, f⟩ tables = .ok ()) :
    (finishMapping (config.checking true) allocator g p placements f).map Mapping.untimed
      = (finishMapping (config.checking false) allocator g p placements f).map Mapping.untimed := by
  unfold finishMapping
  cases hkeys : allocator.allocate p with
  | error e => rfl
  | ok keys =>
      cases htables : RoutingJob.route ⟨p, placements, keys, f⟩ config.mapping.router with
      | error e => simp only [ok_bind, Config.checking, htables, error_bind]
      | ok tables =>
          simp only [ok_bind, Config.checking, htables, if_true, h keys tables hkeys htables]
          cases g.allocateTags p placements config.tags with
          | error e => rfl
          | ok tags => rfl

theorem compileWith_checking (allocator : KeyAllocator) (hids : FewerThanIds config g f) :
    (compileWith (config.checking true) allocator g f).untimed
      = (compileWith (config.checking false) allocator g f).untimed := by
  cases hbudget : f.partitionBudget? with
  | none => simp only [compileWith, hbudget]
  | some budget =>
      cases hpartition : g.partition budget config.mapping.atomsPerCore with
      | error e => simp only [compileWith, hbudget, Config.checking, hpartition]
      | ok p =>
          cases hplace : (f.place g (p.prune g) config.mapping.placer).result with
          | error e =>
              simp only [compileWith, hbudget, Config.checking, hpartition, compileTraffic, hplace]
          | ok placements =>
              have haccepted : ∀ keys tables, allocator.allocate (p.prune g) = .ok keys →
                  RoutingJob.route ⟨p.prune g, placements, keys,
                    (f.place g (p.prune g) config.mapping.placer).fabric⟩ config.mapping.router
                    = .ok tables →
                  RoutingJob.validate ⟨p.prune g, placements, keys,
                    (f.place g (p.prune g) config.mapping.placer).fabric⟩ tables = .ok () := by
                intro keys tables hkeys htables
                have hrouted : RoutedBy config allocator g f _ tables :=
                  ⟨⟨budget, p, hbudget, hpartition, rfl⟩, hplace, rfl, hkeys, htables⟩
                exact hrouted.validate_eq_ok hids
              have hfinish := finishMapping_checking (g := g) haccepted
              simp only [Config.checking] at hfinish
              simp only [compileWith, hbudget, Config.checking, hpartition, compileTraffic, hplace,
                Compilation.untimed, hfinish]
              rfl

theorem faultless_finishMapping {p : PartitionedGraph} {placements : Placements} :
    Faultless (finishMapping (config.checking false) allocator g p placements f) := by
  refine (faultless_allocate allocator).bind fun keys => ?_
  refine (faultless_route _ _).bind fun tables => ?_
  exact (faultless_allocateTags _).bind fun _ => failsWith_ok _

theorem faultless_compileWith :
    Faultless (compileWith (config.checking false) allocator g f).result := by
  unfold compileWith
  split
  · exact failsWith_error rfl
  · simp only
    split
    · next e he => exact failsWith_error (faultless_partition _ _ e he)
    · simp only [compileTraffic]
      split
      · next e he => exact failsWith_error (faultless_place _ e he)
      · exact faultless_finishMapping

/-- What a mapping routes is what its compilation routes. -/
theorem CompiledBy.routedBy {m : Mapping} {budget : Cost} {p : PartitionedGraph}
    (h : CompiledBy config allocator g f m budget p) : RoutedBy config allocator g f
      (m.routingJob (compileWith config allocator g f).fabric) m.routingTables :=
  ⟨⟨budget, p, h.budget_eq, h.partition_eq, h.prune_eq⟩, h.place_eq, h.fabric_eq, h.keys_eq,
    h.route_eq⟩

/-- **The check of tables accepts every compilation.** With the check and without it, a compilation
    leaves the same fabric and findings and has the same mapping, its times apart, or the same
    error. No error is one that only the check raises, and the check accepts whatever tables a
    compilation comes to. -/
theorem compileWith_checked (allocator : KeyAllocator) (hids : FewerThanIds config g f) :
    (compileWith (config.checking true) allocator g f).untimed
      = (compileWith (config.checking false) allocator g f).untimed ∧
    (∀ on e, (compileWith (config.checking on) allocator g f).result = .error e →
      e.isRouteFault = false) ∧
    ∀ job tables, RoutedBy config allocator g f job tables → job.validate tables = .ok () := by
  have hsame := compileWith_checking allocator hids
  refine ⟨hsame, ?_, fun job tables h => h.validate_eq_ok hids⟩
  intro on e he
  cases on with
  | false => exact faultless_compileWith e he
  | true =>
      -- the same error ends the compilation without the check
      have hresult := congrArg Compilation.result hsame
      simp only [Compilation.untimed, he, Except.map] at hresult
      split at hresult
      · next e' he' => exact Except.error.inj hresult ▸ faultless_compileWith e' he'
      · exact absurd hresult (by simp)

end Checking

theorem pairGraph_checked :
    FewerThanIds pairConfig pairGraph pairFabric ∧
    (compileWith (pairConfig.checking true) pairConfig.keyAllocator pairGraph pairFabric).untimed
      = (compileWith (pairConfig.checking false) pairConfig.keyAllocator pairGraph
        pairFabric).untimed ∧
    (∀ on e, (compileWith (pairConfig.checking on) pairConfig.keyAllocator pairGraph
      pairFabric).result = .error e → e.isRouteFault = false) ∧
    ∃ m, (compile pairConfig pairGraph pairFabric).result = .ok m ∧
      (m.routingJob (compile pairConfig pairGraph pairFabric).fabric).validate m.routingTables
        = .ok () := by
  have hids : FewerThanIds pairConfig pairGraph pairFabric := by decide +kernel
  obtain ⟨hsame, hfault, haccepted⟩ := compileWith_checked pairConfig.keyAllocator hids
  obtain ⟨m, h⟩ := exists_eq_ok_of_isOk
    (by decide +kernel : (compile pairConfig pairGraph pairFabric).result.isOk = true)
  obtain ⟨budget, p, hby⟩ := compileWith_eq_ok h
  exact ⟨hids, hsame, hfault, m, h, haccepted _ _ hby.routedBy⟩

end SpikeMesh
