import SpikeMesh.Mapping.Compile
import SpikeMesh.Proofs.Fallible

set_option autoImplicit false

/-! # The stages of a compilation

A compilation that succeeds went through all of its stages, and each stage worked on what the ones
before it had made. -/

namespace SpikeMesh

variable {config : Config} {allocator : KeyAllocator} {g : ApplicationGraph} {f : Fabric}
  {m : Mapping}

/-- The job of routing the traffic of a mapping over a fabric. -/
def Mapping.routingJob (m : Mapping) (f : Fabric) : RoutingJob :=
  ⟨m.partitioned, m.placements, m.keys, f⟩

/-- A mapping is what the stages make of a graph, which is cut for a budget, on a fabric. -/
structure CompiledBy (config : Config) (allocator : KeyAllocator) (g : ApplicationGraph)
    (f : Fabric) (m : Mapping) (budget : Cost) (p : PartitionedGraph) : Prop where
  budget_eq : f.partitionBudget? = some budget
  partition_eq : g.partition budget config.mapping.atomsPerCore = .ok p
  prune_eq : m.partitioned = p.prune g
  place_eq : (f.place g m.partitioned config.mapping.placer).result = .ok m.placements
  fabric_eq : (compileWith config allocator g f).fabric
    = (f.place g m.partitioned config.mapping.placer).fabric
  keys_eq : allocator.allocate m.partitioned = .ok m.keys
  route_eq : (m.routingJob (compileWith config allocator g f).fabric).route config.mapping.router
    = .ok m.routingTables
  tags_eq : g.allocateTags m.partitioned m.placements config.tags = .ok m.tags

/-- The stages after placement. -/
theorem finishMapping_eq_ok {p : PartitionedGraph} {placements : Placements}
    (h : finishMapping config allocator g p placements f = .ok m) :
    m.partitioned = p ∧ m.placements = placements ∧ allocator.allocate p = .ok m.keys ∧
      RoutingJob.route ⟨p, placements, m.keys, f⟩ config.mapping.router = .ok m.routingTables ∧
      g.allocateTags p placements config.tags = .ok m.tags := by
  unfold finishMapping at h
  obtain ⟨keys, hkeys, h⟩ := bind_eq_ok_iff.1 h
  simp only at h
  obtain ⟨tables, htables, h⟩ := bind_eq_ok_iff.1 h
  split at h
  · obtain ⟨-, -, h⟩ := bind_eq_ok_iff.1 h
    obtain ⟨tags, htags, h⟩ := bind_eq_ok_iff.1 h
    obtain rfl := Except.ok.inj h
    exact ⟨rfl, rfl, hkeys, htables, htags⟩
  · obtain ⟨tags, htags, h⟩ := bind_eq_ok_iff.1 h
    obtain rfl := Except.ok.inj h
    exact ⟨rfl, rfl, hkeys, htables, htags⟩

/-- **A mapping is made by all stages.** -/
theorem compileWith_eq_ok (h : (compileWith config allocator g f).result = .ok m) :
    ∃ budget p, CompiledBy config allocator g f m budget p := by
  cases hbudget : f.partitionBudget? with
  | none =>
      rw [compileWith, hbudget] at h
      exact absurd h (by simp)
  | some budget =>
      cases hpartition : g.partition budget config.mapping.atomsPerCore with
      | error e =>
          simp only [compileWith, hbudget, hpartition] at h
          exact absurd h (by simp)
      | ok p =>
          have hafter : (compileWith config allocator g f).fabric
              = (compileTraffic config allocator g f (p.prune g)).fabric := by
            simp only [compileWith, hbudget, hpartition]
          have hresult : (compileWith config allocator g f).result
              = (compileTraffic config allocator g f (p.prune g)).result := by
            simp only [compileWith, hbudget, hpartition]
          rw [hresult] at h
          cases hplace : (f.place g (p.prune g) config.mapping.placer).result with
          | error e =>
              simp only [compileTraffic, hplace] at h
              exact absurd h (by simp)
          | ok placements =>
              simp only [compileTraffic, hplace] at h hafter
              obtain ⟨hp, hplacements, hkeys, hroute, htags⟩ := finishMapping_eq_ok h
              refine ⟨budget, p, hbudget, hpartition, hp, ?_, ?_, ?_, ?_, ?_⟩
              · rw [hp, hplace, hplacements]
              · rw [hafter, hp]
              · rw [hp, hkeys]
              · rw [Mapping.routingJob, hp, hplacements, hafter, hroute]
              · rw [hp, hplacements, htags]

end SpikeMesh
