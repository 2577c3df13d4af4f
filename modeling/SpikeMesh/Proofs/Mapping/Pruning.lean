import SpikeMesh.Proofs.Mapping.Completeness
import SpikeMesh.Proofs.Mapping.Traffic

set_option autoImplicit false

/-! # What pruning leaves out

Pruning is a filter, of the targets of each partitioned connection and then of the connections, by
whether a slice may receive anything (`PartitionedGraph.MayReceive`). This depends on the slices
only, which stay, so a graph that was pruned stays as it is when it is pruned again. -/

namespace SpikeMesh.PartitionedGraph

variable {p : PartitionedGraph} {g : ApplicationGraph} {pc : PartitionedConnection}

/-- A slice may receive packets of a partitioned connection: the graph knows the connection, both
    slices exist, and the rule may link an atom of the source to an atom of the slice. -/
def MayReceive (p : PartitionedGraph) (g : ApplicationGraph) (pc : PartitionedConnection)
    (target : SliceId) : Prop :=
  ∃ c ∈ g.connection? pc.connection, ∃ s ∈ p.slice? pc.source, ∃ t ∈ p.slice? target,
    c.rule.mayConnect s.atoms t.atoms = true

instance (p : PartitionedGraph) (g : ApplicationGraph) (pc : PartitionedConnection) :
    DecidablePred (p.MayReceive g pc) := fun target =>
  inferInstanceAs (Decidable (∃ c ∈ g.connection? pc.connection, ∃ s ∈ p.slice? pc.source,
    ∃ t ∈ p.slice? target, c.rule.mayConnect s.atoms t.atoms = true))

theorem mayReceive_iff_receives {c : Connection} {s : Slice} {target : SliceId}
    (hc : g.connection? pc.connection = some c) (hs : p.slice? pc.source = some s) :
    p.MayReceive g pc target ↔ p.receives c.rule s target = true := by
  unfold MayReceive receives
  cases p.slice? target <;> simp [hc, hs]

/-- The live targets are those that may receive something. -/
theorem liveTargets_eq_filter (p : PartitionedGraph) (g : ApplicationGraph)
    (pc : PartitionedConnection) : p.liveTargets g pc = pc.targets.filter (p.MayReceive g pc) := by
  unfold liveTargets
  split
  · next c s hc hs =>
      refine List.filter_congr fun target _ => ?_
      rw [Bool.eq_iff_iff, decide_eq_true_iff]
      exact (mayReceive_iff_receives hc hs).symm
  · next hnone =>
      refine (List.filter_eq_nil_iff.2 fun target _ => ?_).symm
      rw [decide_eq_true_iff]
      rintro ⟨c, hc, s, hs, -⟩
      exact hnone c s hc hs

theorem isEmpty_liveTargets_eq_false_iff : (p.liveTargets g pc).isEmpty = false ↔
    ∃ target ∈ pc.targets, p.MayReceive g pc target := by
  rw [liveTargets_eq_filter, List.isEmpty_eq_false_iff, ne_eq, List.filter_eq_nil_iff]
  simp

/-- A connection loses a target if and only if it and its source are known and the target may not
    receive anything from it. -/
theorem lostTargets_pos_iff : 0 < p.lostTargets g pc ↔
    (g.connection? pc.connection).isSome ∧ (p.slice? pc.source).isSome ∧
      ∃ target ∈ pc.targets, ¬ p.MayReceive g pc target := by
  unfold lostTargets
  split
  · next c s hc hs =>
      simp only [List.countP_pos_iff, hc, hs, Option.isSome_some, true_and,
        mayReceive_iff_receives hc hs, Bool.not_eq_true', Bool.not_eq_true]
  · next hnone =>
      refine iff_of_false (Nat.lt_irrefl 0) ?_
      rintro ⟨hc, hs, -⟩
      obtain ⟨c, hc⟩ := Option.isSome_iff_exists.1 hc
      obtain ⟨s, hs⟩ := Option.isSome_iff_exists.1 hs
      exact hnone c s hc hs

/-! ## The connections that are left -/

/-- A graph has the slices of another one, and of its partitioned connections those with a target
    that may receive something, in their order and numbered from zero on, each with these targets
    in their order. -/
structure RestrictsTo (p : PartitionedGraph) (g : ApplicationGraph) (q : PartitionedGraph) :
    Prop where
  slices_eq : q.slices = p.slices
  byUnit_eq : q.byUnit = p.byUnit
  traffic_eq : q.traffic =
    (p.connections.toList.filter fun pc => ∃ target ∈ pc.targets, p.MayReceive g pc target).map
      fun pc => (pc.connection, pc.source, pc.targets.filter (p.MayReceive g pc))
  id_eq : ∀ (i : Nat) (pc : PartitionedConnection), q.connections.toList[i]? = some pc →
    pc.id.index = i

theorem traffic_prune_eq (p : PartitionedGraph) (g : ApplicationGraph) : (p.prune g).traffic =
    (p.connections.toList.filter fun pc => ∃ target ∈ pc.targets, p.MayReceive g pc target).map
      fun pc => (pc.connection, pc.source, pc.targets.filter (p.MayReceive g pc)) := by
  rw [traffic_prune, List.filter_map]
  simp only [liveTargets_eq_filter]
  refine congrArg _ (List.filter_congr fun pc _ => ?_)
  rw [Bool.eq_iff_iff, decide_eq_true_iff, ← isEmpty_liveTargets_eq_false_iff,
    liveTargets_eq_filter]
  simp

theorem size_prune (p : PartitionedGraph) (g : ApplicationGraph) : (p.prune g).connections.size =
    p.connections.toList.countP fun pc => ∃ target ∈ pc.targets, p.MayReceive g pc target := by
  have h := congrArg List.length (traffic_prune_eq p g)
  rwa [traffic, List.length_map, Array.length_toList, List.length_map,
    ← List.countP_eq_length_filter] at h

theorem restrictsTo_prune (g : ApplicationGraph) (h : p.connections.size < UInt32.size) :
    p.RestrictsTo g (p.prune g) where
  slices_eq := rfl
  byUnit_eq := rfl
  traffic_eq := traffic_prune_eq p g
  id_eq := by
    intro i pc hpc
    have hi : i < (p.prune g).connections.size := (List.getElem?_eq_some_iff.1 hpc).1
    rw [(renumber_spec _).2 i pc hpc]
    exact Id.index_ofIndex (Nat.lt_of_lt_of_le hi (Nat.le_of_lt (Nat.lt_of_le_of_lt
      (size_prune_le p g) h)))

/-- The number of removed connections is that of those without a target that may receive
    something. -/
theorem prunedCount_eq (p : PartitionedGraph) (g : ApplicationGraph) : p.prunedCount g =
    p.connections.toList.countP fun pc => ∀ target ∈ pc.targets, ¬ p.MayReceive g pc target := by
  have hsplit := List.length_eq_countP_add_countP
    (fun pc => decide (∃ target ∈ pc.targets, p.MayReceive g pc target)) (l := p.connections.toList)
  rw [Array.length_toList] at hsplit
  rw [prunedCount, size_prune, hsplit, Nat.add_sub_cancel_left]
  simp

/-! ## The note -/

/-- Some target of a known connection with a known source may not receive anything. -/
def LosesTargets (p : PartitionedGraph) (g : ApplicationGraph) : Prop :=
  ∃ pc ∈ p.connections.toList, (g.connection? pc.connection).isSome ∧
    (p.slice? pc.source).isSome ∧ ∃ target ∈ pc.targets, ¬ p.MayReceive g pc target

theorem losesTargets_iff :
    p.LosesTargets g ↔ 0 < total (p.lostTargets g) p.connections.toList := by
  constructor
  · rintro ⟨pc, hpc, hlost⟩
    exact Nat.lt_of_lt_of_le (lostTargets_pos_iff.2 hlost) (le_total_of_mem hpc)
  · intro h
    obtain ⟨pc, hpc, hlost⟩ := exists_pos_of_total_pos h
    exact ⟨pc, hpc, lostTargets_pos_iff.1 hlost⟩

/-- There is a note if and only if some target is lost. -/
theorem exists_pruneNote?_iff : (∃ note, p.pruneNote? g = some note ∧ note.severity = .note ∧
    note.code = .connectionsPruned) ↔ p.LosesTargets g := by
  rw [losesTargets_iff, pruneNote?]
  split
  · next hlost => exact iff_of_true ⟨_, rfl, rfl, rfl⟩ hlost
  · next hlost => exact iff_of_false (fun ⟨_, h, _⟩ => absurd h (by simp)) hlost

/-! ## Pruning again -/

/-- All targets of all connections may receive something, and no connection is without targets. -/
def Pruned (p : PartitionedGraph) (g : ApplicationGraph) : Prop :=
  ∀ pc ∈ p.connections.toList, pc.targets ≠ [] ∧ ∀ target ∈ pc.targets, p.MayReceive g pc target

theorem pruned_prune (p : PartitionedGraph) (g : ApplicationGraph) : (p.prune g).Pruned g := by
  intro pc hpc
  have htraffic : pc.traffic ∈ (p.prune g).traffic := List.mem_map_of_mem hpc
  rw [traffic_prune_eq] at htraffic
  obtain ⟨before, hbefore, heq⟩ := List.mem_map.1 htraffic
  obtain ⟨target, htarget, hmay⟩ := of_decide_eq_true (List.mem_filter.1 hbefore).2
  have hconnection : before.connection = pc.connection := congrArg (fun t => t.1) heq
  have hsource : before.source = pc.source := congrArg (fun t => t.2.1) heq
  have htargets : before.targets.filter (p.MayReceive g before) = pc.targets :=
    congrArg (fun t => t.2.2) heq
  -- the number of a connection and its list of targets have no part in what it may deliver
  have hsame : ∀ target, p.MayReceive g before target → (p.prune g).MayReceive g pc target := by
    intro target h
    unfold MayReceive at h ⊢
    rwa [hconnection, hsource] at h
  rw [← htargets]
  constructor
  · exact List.ne_nil_of_mem (List.mem_filter.2 ⟨htarget, decide_eq_true hmay⟩)
  · intro target htarget
    exact hsame target (of_decide_eq_true (List.mem_filter.1 htarget).2)

/-- Connections that are numbered in their order keep their numbers. -/
theorem renumber_eq_self {connections : Array PartitionedConnection}
    (hid : ∀ i pc, connections.toList[i]? = some pc → pc.id = Id.ofIndex i) :
    renumber connections = connections := by
  rw [renumber, ← Array.toList_inj, Array.toList_mapIdx]
  refine List.ext_getElem? fun i => ?_
  rw [List.getElem?_mapIdx]
  cases hpc : connections.toList[i]? with
  | none => rfl
  | some pc => rw [Option.map_some, ← hid i pc hpc]

theorem Pruned.prune_eq (h : p.Pruned g)
    (hid : ∀ i pc, p.connections.toList[i]? = some pc → pc.id = Id.ofIndex i) :
    p.prune g = p := by
  have htargets : ∀ pc ∈ p.connections.toList, p.liveTargets g pc = pc.targets := by
    intro pc hpc
    rw [liveTargets_eq_filter, List.filter_eq_self]
    exact fun target htarget => decide_eq_true ((h pc hpc).2 target htarget)
  have hlive : p.liveConnections g = p.connections := by
    rw [liveConnections, ← Array.toList_inj, Array.toList_map]
    refine (List.map_congr_left fun pc hpc => ?_).trans (List.map_id _)
    rw [htargets pc hpc, id]
  have hkeep : (p.connections.filter fun pc => !pc.targets.isEmpty) = p.connections := by
    rw [← Array.toList_inj, Array.toList_filter, List.filter_eq_self]
    intro pc hpc
    rw [Bool.not_eq_true', List.isEmpty_eq_false_iff]
    exact (h pc hpc).1
  rw [prune, retain, hlive, hkeep, renumber_eq_self hid]

theorem Pruned.prunedCount_eq_zero (h : p.Pruned g) : p.prunedCount g = 0 := by
  rw [prunedCount_eq, List.countP_eq_zero]
  intro pc hpc hnone
  obtain ⟨hne, hall⟩ := h pc hpc
  obtain ⟨target, htarget⟩ := List.exists_mem_of_ne_nil _ hne
  exact of_decide_eq_true hnone target htarget (hall target htarget)

theorem Pruned.pruneNote?_eq_none (h : p.Pruned g) : p.pruneNote? g = none := by
  have hnone : ¬ p.LosesTargets g := by
    rintro ⟨pc, hpc, -, -, target, htarget, hnot⟩
    exact hnot ((h pc hpc).2 target htarget)
  rw [losesTargets_iff] at hnone
  exact if_neg hnone

/-- **Pruning is an exact and idempotent restriction.** The slices stay, and of the connections
    those with a target that may receive something, with exactly these targets, in their order and
    numbered anew. The others are counted. A note is made if and only if some target of a known
    connection with a known source may not receive anything. Pruning again changes nothing. -/
theorem prune_restricts (p : PartitionedGraph) (g : ApplicationGraph)
    (h : p.connections.size < UInt32.size) :
    p.RestrictsTo g (p.prune g) ∧
    (p.prunedCount g = p.connections.toList.countP fun pc =>
      ∀ target ∈ pc.targets, ¬ p.MayReceive g pc target) ∧
    ((∃ note, p.pruneNote? g = some note ∧ note.severity = .note ∧
      note.code = .connectionsPruned) ↔ p.LosesTargets g) ∧
    (p.prune g).prune g = p.prune g ∧ (p.prune g).prunedCount g = 0 ∧
      (p.prune g).pruneNote? g = none := by
  have hpruned := pruned_prune p g
  exact ⟨restrictsTo_prune g h, prunedCount_eq p g, exists_pruneNote?_iff,
    hpruned.prune_eq (renumber_spec _).2, hpruned.prunedCount_eq_zero,
    hpruned.pruneNote?_eq_none⟩

/-- Two units whose atoms are linked one to one. -/
def twinGraph : ApplicationGraph where
  units :=
    let model : UnitModel := .linear ⟨"model", .zero, ⟨1, 1, 1⟩, 4⟩
    [{ label := "a", atoms := 3, model }, { label := "b", atoms := 3, model }]
  connections := [⟨"ab", ⟨0⟩, ⟨1⟩, .oneToOne⟩]

/-- Two slices of each of the units. Packets of the first one go to the last one, and packets of
    the second one to both slices of the other unit. -/
def twinSlices : PartitionedGraph :=
  let ranges : List AtomRange := [⟨0, 2⟩, ⟨2, 3⟩]
  let firstUnit := ranges.foldl (fun p r => p.addSlice ⟨0⟩ r .zero) empty
  let bothUnits := ranges.foldl (fun p r => p.addSlice ⟨1⟩ r .zero) firstUnit
  (bothUnits.addConnection ⟨0⟩ ⟨0⟩ [⟨3⟩]).addConnection ⟨0⟩ ⟨1⟩ [⟨2⟩, ⟨3⟩]

/-- Only one link between the second slices of the units is left. -/
theorem twinSlices_pruned : twinSlices.connections.size < UInt32.size ∧
    twinSlices.RestrictsTo twinGraph (twinSlices.prune twinGraph) ∧
    twinSlices.prunedCount twinGraph = 1 ∧ twinSlices.LosesTargets twinGraph ∧
    (twinSlices.prune twinGraph).prune twinGraph = twinSlices.prune twinGraph ∧
    (twinSlices.prune twinGraph).connections.toList = [⟨⟨0⟩, ⟨0⟩, ⟨1⟩, [⟨3⟩]⟩] := by
  have hsize : twinSlices.connections.size < UInt32.size := by decide
  obtain ⟨hrestricts, hcount, hnote, hagain, -⟩ := prune_restricts twinSlices twinGraph hsize
  refine ⟨hsize, hrestricts, ?_, ?_, hagain, ?_⟩
  · rw [hcount]; decide +kernel
  · rw [← hnote]; decide +kernel
  · decide +kernel

end SpikeMesh.PartitionedGraph
