import SpikeMesh.Mapping.Traffic
import SpikeMesh.Proofs.Mapping.Slices

set_option autoImplicit false

/-! # Traffic follows connections

Before pruning, each connection has one partitioned connection for every slice of its source, with
all slices of its target. Pruning keeps the targets that hold an atom to which the rule links an
atom of the source slice, and the partitioned connections that still have one. -/

namespace SpikeMesh

/-- What a partitioned connection carries, its number apart. -/
def PartitionedConnection.traffic (pc : PartitionedConnection) :
    ConnectionId × SliceId × List SliceId :=
  (pc.connection, pc.source, pc.targets)

namespace PartitionedGraph

variable {p : PartitionedGraph} {g : ApplicationGraph}

/-- What the partitioned connections carry. -/
def traffic (p : PartitionedGraph) : List (ConnectionId × SliceId × List SliceId) :=
  p.connections.toList.map PartitionedConnection.traffic

/-- The traffic of a connection between all slices of its units. -/
def trafficOf (p : PartitionedGraph) (id : ConnectionId) (c : Connection) :
    List (ConnectionId × SliceId × List SliceId) :=
  (p.slicesOf c.source).map fun s => (id, s, ascending (p.slicesOf c.target))

/-! ## Adding traffic -/

/-- Traffic was added to a graph, whose slices stay as they are. -/
structure Adds (p q : PartitionedGraph) (more : List (ConnectionId × SliceId × List SliceId)) :
    Prop where
  numbered : q.Numbered
  slices_eq : q.slices = p.slices
  byUnit_eq : q.byUnit = p.byUnit
  traffic_eq : q.traffic = p.traffic ++ more

theorem Adds.refl (h : p.Numbered) : p.Adds p [] := ⟨h, rfl, rfl, (List.append_nil _).symm⟩

theorem Adds.trans {q r : PartitionedGraph}
    {more more' : List (ConnectionId × SliceId × List SliceId)} (h : p.Adds q more)
    (h' : q.Adds r more') : p.Adds r (more ++ more') :=
  ⟨h'.numbered, h'.slices_eq.trans h.slices_eq, h'.byUnit_eq.trans h.byUnit_eq, by
    rw [h'.traffic_eq, h.traffic_eq, List.append_assoc]⟩

theorem Adds.slicesOf_eq {q : PartitionedGraph}
    {more : List (ConnectionId × SliceId × List SliceId)} (h : p.Adds q more) (u : UnitId) :
    q.slicesOf u = p.slicesOf u := by
  rw [slicesOf, slicesOf, h.byUnit_eq]

theorem adds_addConnection (h : p.Numbered) (id : ConnectionId) (source : SliceId)
    (targets : List SliceId) :
    p.Adds (p.addConnection id source targets) [(id, source, ascending targets)] where
  numbered := h.addConnection id source targets
  slices_eq := rfl
  byUnit_eq := rfl
  traffic_eq := by
    rw [traffic, toList_connections_addConnection, List.map_append]
    rfl

theorem adds_addTraffic (h : p.Numbered) (id : ConnectionId) (c : Connection) :
    p.Adds (p.addTraffic id c) (p.trafficOf id c) := by
  unfold addTraffic trafficOf
  -- the slices that are named stay those of the graph at the start
  generalize p.slicesOf c.source = sources
  generalize p.slicesOf c.target = targets
  induction sources generalizing p with
  | nil => exact .refl h
  | cons source rest ih =>
      have hone := adds_addConnection h id source targets
      exact hone.trans (ih hone.numbered)

theorem adds_foldl_addTraffic (h : p.Numbered) (connections : List (ConnectionId × Connection)) :
    p.Adds (connections.foldl (fun p (id, c) => p.addTraffic id c) p)
      (connections.flatMap fun e => p.trafficOf e.1 e.2) := by
  induction connections generalizing p with
  | nil => exact .refl h
  | cons e rest ih =>
      have hone := adds_addTraffic h e.1 e.2
      -- traffic that was added does not change between which slices more is added
      have hsame : ∀ e : ConnectionId × Connection,
          (p.addTraffic e.1 e.2).trafficOf = p.trafficOf := by
        intro e
        funext id c
        have hadds := adds_addTraffic h e.1 e.2
        rw [trafficOf, trafficOf, hadds.slicesOf_eq, hadds.slicesOf_eq]
      have hrest := ih hone.numbered
      rw [hsame] at hrest
      exact hone.trans hrest

end PartitionedGraph

/-! ## The partitioned graph -/

namespace ApplicationGraph

variable {g : ApplicationGraph} {budget : Cost} {atomsPerCore : Std.ExtTreeMap String UInt32}
  {p : PartitionedGraph}

/-- **Partitioning.** All units are sliced, and each connection joins every slice of its source to
    all slices of its target. -/
theorem partition_eq_ok (h : g.partition budget atomsPerCore = .ok p) :
    p.Sliced budget atomsPerCore g.numberedUnits ∧
      p.traffic = g.numberedConnections.flatMap fun e => p.trafficOf e.1 e.2 := by
  obtain ⟨start, hstart, h⟩ := bind_eq_ok_iff.1 h
  obtain rfl := Except.ok.inj h
  obtain ⟨hsliced, hnone⟩ := sliced_eq_ok hstart
  have hadds := PartitionedGraph.adds_foldl_addTraffic hsliced.numbered g.numberedConnections
  refine ⟨hsliced.of_slices_eq hadds.numbered hadds.slices_eq, ?_⟩
  have hempty : start.traffic = [] := by rw [PartitionedGraph.traffic, hnone]; rfl
  rw [hadds.traffic_eq, hempty, List.nil_append]
  refine List.flatMap_congr ?_
  intro e _
  rw [PartitionedGraph.trafficOf, PartitionedGraph.trafficOf, hadds.slicesOf_eq,
    hadds.slicesOf_eq]

end ApplicationGraph

/-! ## Pruning -/

namespace PartitionedGraph

variable {p : PartitionedGraph} {g : ApplicationGraph}

/-- Numbering connections anew changes only their ids. -/
theorem renumber_spec (connections : Array PartitionedConnection) :
    (renumber connections).toList.map PartitionedConnection.traffic
      = connections.toList.map PartitionedConnection.traffic ∧
    ∀ i pc, (renumber connections).toList[i]? = some pc → pc.id = Id.ofIndex i := by
  rw [renumber, Array.toList_mapIdx]
  constructor
  · refine List.ext_getElem? ?_
    intro i
    rw [List.getElem?_map, List.getElem?_mapIdx, List.getElem?_map, Option.map_map]
    rfl
  · intro i pc hpc
    rw [List.getElem?_mapIdx] at hpc
    obtain ⟨pc', -, rfl⟩ := Option.map_eq_some_iff.1 hpc
    rfl

theorem numbered_prune (h : p.Numbered) (g : ApplicationGraph) : (p.prune g).Numbered where
  slice_id := h.slice_id
  connection_id := (renumber_spec _).2
  slicesOf_eq := h.slicesOf_eq

/-- What is left of the traffic: the live targets of each partitioned connection that has any. -/
theorem traffic_prune (p : PartitionedGraph) (g : ApplicationGraph) :
    (p.prune g).traffic = ((p.connections.toList.map fun pc =>
      (pc.connection, pc.source, p.liveTargets g pc)).filter fun t => !t.2.2.isEmpty) := by
  rw [traffic, prune, retain, (renumber_spec _).1, Array.toList_filter, liveConnections,
    Array.toList_map, List.filter_map, List.filter_map, List.map_map]
  rfl

theorem size_prune_le (p : PartitionedGraph) (g : ApplicationGraph) :
    (p.prune g).connections.size ≤ p.connections.size := by
  have hle := congrArg List.length (traffic_prune p g)
  rw [traffic, List.length_map, Array.length_toList] at hle
  have hall : (p.connections.toList.map fun pc =>
      (pc.connection, pc.source, p.liveTargets g pc)).length = p.connections.size := by
    rw [List.length_map, Array.length_toList]
  rw [hle, ← hall]
  exact List.length_filter_le _ _

/-- Pruning leaves fewer connections than ids. -/
theorem Numbered.pairwise_prune_id (h : p.Numbered) (g : ApplicationGraph)
    (hlt : p.connections.size < UInt32.size) :
    (p.prune g).connections.toList.Pairwise (fun a b => a.id ≠ b.id) :=
  (numbered_prune h g).pairwise_connection_id
    (Nat.le_of_lt (Nat.lt_of_le_of_lt (size_prune_le p g) hlt))

theorem length_ascending_le (ids : List SliceId) : (ascending ids).length ≤ ids.length :=
  (nodup_toList _).length_le_of_subset fun _ hid => mem_ascending.1 hid

/-- A partitioned connection has no more targets than there are slices. -/
theorem length_targets_le {budget : Cost} {atomsPerCore : Std.ExtTreeMap String UInt32}
    (h : g.partition budget atomsPerCore = .ok p) {pc : PartitionedConnection}
    (hpc : pc ∈ (p.prune g).connections.toList) : pc.targets.length ≤ p.slices.size := by
  obtain ⟨hsliced, htraffic⟩ := ApplicationGraph.partition_eq_ok h
  have hmem : pc.traffic ∈ (p.prune g).traffic := List.mem_map_of_mem hpc
  rw [traffic_prune, List.mem_filter] at hmem
  obtain ⟨pc₀, hpc₀, heq⟩ := List.mem_map.1 hmem.1
  have htargets : p.liveTargets g pc₀ = pc.targets := congrArg (fun t => t.2.2) heq
  have hbefore : pc₀.traffic ∈ p.traffic := List.mem_map_of_mem hpc₀
  rw [htraffic, List.mem_flatMap] at hbefore
  obtain ⟨e, -, hbefore⟩ := hbefore
  obtain ⟨s, -, hall⟩ := List.mem_map.1 hbefore
  have hall : ascending (p.slicesOf e.2.target) = pc₀.targets := congrArg (fun t => t.2.2) hall
  calc pc.targets.length = (p.liveTargets g pc₀).length := by rw [htargets]
    _ ≤ pc₀.targets.length := by
        unfold liveTargets
        split
        · exact List.length_filter_le _ _
        · exact Nat.zero_le _
    _ ≤ (p.slicesOf e.2.target).length := by
        rw [← hall]
        exact length_ascending_le _
    _ ≤ p.slices.size := by
        rw [hsliced.numbered.slicesOf_eq, List.length_map, ← Array.length_toList]
        exact List.length_filter_le _ _

/-! ## The traffic of a built graph -/

/-- The outcome of partitioning a graph that was built by adding units and connections, where
    there are fewer slices and partitioned connections than ids. -/
structure Represents (p : PartitionedGraph) (g : ApplicationGraph) (budget : Cost)
    (atomsPerCore : Std.ExtTreeMap String UInt32) : Prop where
  built : g.Built
  sliced : p.Sliced budget atomsPerCore g.numberedUnits
  traffic_eq : p.traffic = g.numberedConnections.flatMap fun e => p.trafficOf e.1 e.2
  slices_lt : p.slices.size < UInt32.size
  connections_lt : p.connections.size < UInt32.size

namespace Represents

variable {budget : Cost} {atomsPerCore : Std.ExtTreeMap String UInt32}

/-- There are fewer units than ids, as each of them has a slice. -/
theorem length_units_lt (h : p.Represents g budget atomsPerCore) :
    g.units.length < UInt32.size := by
  have hle : g.numberedUnits.length ≤ p.slices.size := by
    refine h.sliced.length_units_le ?_
    intro e he
    obtain ⟨⟨u, i⟩, hu, rfl⟩ := List.mem_map.1 he
    exact h.built.atoms_pos u (List.mem_of_getElem? (List.mem_zipIdx_iff_getElem?.1 hu))
  rw [ApplicationGraph.numberedUnits, List.length_map, List.length_zipIdx] at hle
  exact Nat.lt_of_le_of_lt hle h.slices_lt

theorem mem_numberedUnits_iff (h : p.Represents g budget atomsPerCore) {id : UnitId}
    {u : GraphUnit} : (id, u) ∈ g.numberedUnits ↔ g.unit? id = some u :=
  Id.mem_zipIdx_iff (Nat.le_of_lt h.length_units_lt)

theorem pairwise_numberedUnits (h : p.Represents g budget atomsPerCore) :
    g.numberedUnits.Pairwise (fun a b => a.1 ≠ b.1) :=
  Id.pairwise_zipIdx (Nat.le_of_lt h.length_units_lt)

/-- Every atom of a unit lies in a slice of the unit. -/
theorem exists_holds (h : p.Represents g budget atomsPerCore) {id : UnitId} {u : GraphUnit}
    (hu : g.unit? id = some u) {a : UInt32} (ha : a < u.atoms) : ∃ s, p.Holds s id a :=
  h.sliced.exists_holds (h.mem_numberedUnits_iff.2 hu) ha

/-- No atom lies in two slices. -/
theorem eq_of_holds (h : p.Represents g budget atomsPerCore) {s s' : Slice} {id : UnitId}
    {a : UInt32} (hs : p.Holds s id a) (hs' : p.Holds s' id a) : s = s' :=
  h.sliced.eq_of_holds h.pairwise_numberedUnits hs hs'

/-- There are fewer connections than ids, as each of them leaves some slice. -/
theorem length_connections_lt (h : p.Represents g budget atomsPerCore) :
    g.connections.length < UInt32.size := by
  have hle : g.numberedConnections.length
      ≤ (g.numberedConnections.flatMap fun e => p.trafficOf e.1 e.2).length := by
    refine length_le_length_flatMap ?_
    intro e he
    obtain ⟨⟨c, i⟩, hc, rfl⟩ := List.mem_map.1 he
    have hc : c ∈ g.connections := List.mem_of_getElem? (List.mem_zipIdx_iff_getElem?.1 hc)
    obtain ⟨⟨u, hu⟩, -⟩ := h.built.endpoints c hc
    have hpos := h.built.atoms_pos u (List.mem_of_getElem? hu)
    obtain ⟨s, hs⟩ := h.exists_holds hu (a := 0) (by rw [UInt32.lt_iff_toNat_lt]; exact hpos)
    have hmem : s.id ∈ p.slicesOf c.source :=
      h.sliced.numbered.mem_slicesOf_iff.2 ⟨s, hs.mem_slices, hs.unit_eq, rfl⟩
    rw [trafficOf, List.length_map]
    exact List.length_pos_of_mem hmem
  have hconnections : g.numberedConnections.length = g.connections.length := by
    rw [ApplicationGraph.numberedConnections, List.length_map, List.length_zipIdx]
  have htraffic : p.traffic.length = p.connections.size := by
    rw [traffic, List.length_map, Array.length_toList]
  rw [← h.traffic_eq, hconnections, htraffic] at hle
  exact Nat.lt_of_le_of_lt hle h.connections_lt

/-- The traffic before pruning. -/
theorem mem_traffic_iff (h : p.Represents g budget atomsPerCore) {id : ConnectionId}
    {source : SliceId} {targets : List SliceId} :
    (id, source, targets) ∈ p.traffic ↔ ∃ c, g.connection? id = some c ∧
      source ∈ p.slicesOf c.source ∧ targets = ascending (p.slicesOf c.target) := by
  have hconnection : ∀ id c, (id, c) ∈ g.numberedConnections ↔ g.connection? id = some c :=
    fun id c => Id.mem_zipIdx_iff (Nat.le_of_lt h.length_connections_lt)
  rw [h.traffic_eq, List.mem_flatMap]
  constructor
  · rintro ⟨⟨id', c⟩, he, ht⟩
    obtain ⟨s, hs, heq⟩ := List.mem_map.1 ht
    obtain rfl : id' = id := congrArg (fun t => t.1) heq
    obtain rfl : s = source := congrArg (fun t => t.2.1) heq
    exact ⟨c, (hconnection _ _).1 he, hs, (congrArg (fun t => t.2.2) heq).symm⟩
  · rintro ⟨c, hc, hs, rfl⟩
    exact ⟨(id, c), (hconnection _ _).2 hc, List.mem_map.2 ⟨source, hs, rfl⟩⟩

/-- No two partitioned connections carry the same connection from the same slice. -/
theorem pairwise_traffic (h : p.Represents g budget atomsPerCore) :
    p.traffic.Pairwise (fun t t' => (t.1, t.2.1) ≠ (t'.1, t'.2.1)) := by
  rw [h.traffic_eq, List.pairwise_flatMap]
  constructor
  · intro e _
    rw [trafficOf, List.pairwise_map]
    refine (h.sliced.numbered.nodup_slicesOf (Nat.le_of_lt h.slices_lt) e.2.source).imp ?_
    intro s s' hne heq
    exact hne (Prod.mk.inj heq).2
  · refine (Id.pairwise_zipIdx (Nat.le_of_lt h.length_connections_lt)).imp ?_
    intro e e' hne t ht t' ht' heq
    obtain ⟨s, -, rfl⟩ := List.mem_map.1 ht
    obtain ⟨s', -, rfl⟩ := List.mem_map.1 ht'
    exact hne (Prod.mk.inj heq).1

/-! ## The traffic after pruning -/

theorem slice?_eq_some_iff (h : p.Represents g budget atomsPerCore) {id : SliceId} {s : Slice} :
    p.slice? id = some s ↔ s ∈ p.slices.toList ∧ s.id = id :=
  h.sliced.numbered.slice?_eq_some_iff (Nat.le_of_lt h.slices_lt)

end Represents

/-- A partitioned connection carries a connection from one slice of its source, to those slices of
    its target that may receive something from this slice. -/
structure Carries (p : PartitionedGraph) (g : ApplicationGraph) (pc : PartitionedConnection)
    (c : Connection) (s : Slice) : Prop where
  connection_eq : g.connection? pc.connection = some c
  mem_slices : s ∈ p.slices.toList
  unit_eq : s.unit = c.source
  id_eq : s.id = pc.source
  mem_targets_iff : ∀ id, id ∈ pc.targets ↔ ∃ t ∈ p.slices.toList, t.id = id ∧
    t.unit = c.target ∧ c.rule.mayConnect s.atoms t.atoms = true

namespace Represents

variable {budget : Cost} {atomsPerCore : Std.ExtTreeMap String UInt32}

/-- The live targets of a partitioned connection before pruning. -/
theorem mem_liveTargets_iff (h : p.Represents g budget atomsPerCore) {pc : PartitionedConnection}
    {c : Connection} {s : Slice} (hc : g.connection? pc.connection = some c)
    (hs : p.slice? pc.source = some s) (htargets : pc.targets = ascending (p.slicesOf c.target))
    {id : SliceId} : id ∈ p.liveTargets g pc ↔ ∃ t ∈ p.slices.toList, t.id = id ∧
      t.unit = c.target ∧ c.rule.mayConnect s.atoms t.atoms = true := by
  simp only [liveTargets, hc, hs]
  rw [List.mem_filter, htargets, mem_ascending, h.sliced.numbered.mem_slicesOf_iff]
  constructor
  · rintro ⟨⟨t, ht, hunit, hid⟩, hreceives⟩
    rw [receives, h.slice?_eq_some_iff.2 ⟨ht, hid⟩] at hreceives
    exact ⟨t, ht, hid, hunit, hreceives⟩
  · rintro ⟨t, ht, hid, hunit, hmay⟩
    refine ⟨⟨t, ht, hunit, hid⟩, ?_⟩
    rw [receives, h.slice?_eq_some_iff.2 ⟨ht, hid⟩]
    exact hmay

/-- A partitioned connection that is left carries a connection. -/
theorem exists_carries (h : p.Represents g budget atomsPerCore) {pc : PartitionedConnection}
    (hpc : pc ∈ (p.prune g).connections.toList) : ∃ c s, p.Carries g pc c s := by
  have htraffic : pc.traffic ∈ (p.prune g).traffic := List.mem_map_of_mem hpc
  rw [traffic_prune, List.mem_filter] at htraffic
  obtain ⟨pc₀, hpc₀, heq⟩ := List.mem_map.1 htraffic.1
  have hconnection : pc₀.connection = pc.connection := congrArg (fun t => t.1) heq
  have hsource : pc₀.source = pc.source := congrArg (fun t => t.2.1) heq
  have htargets : p.liveTargets g pc₀ = pc.targets := congrArg (fun t => t.2.2) heq
  have hbefore : pc₀.traffic ∈ p.traffic := List.mem_map_of_mem hpc₀
  obtain ⟨c, hc, hs, hall⟩ := h.mem_traffic_iff.1 hbefore
  obtain ⟨s, hs, hunit, hid⟩ := h.sliced.numbered.mem_slicesOf_iff.1 hs
  refine ⟨c, s, hconnection ▸ hc, hs, hunit, hid.trans hsource, ?_⟩
  intro id
  rw [← htargets]
  exact h.mem_liveTargets_iff hc (h.slice?_eq_some_iff.2 ⟨hs, hid⟩) hall

/-- A slice that some slice may receive something from has a partitioned connection. -/
theorem exists_connection (h : p.Represents g budget atomsPerCore) {id : ConnectionId}
    {c : Connection} (hc : g.connection? id = some c) {s t : Slice}
    (hs : s ∈ p.slices.toList) (hsource : s.unit = c.source)
    (ht : t ∈ p.slices.toList) (htarget : t.unit = c.target)
    (hmay : c.rule.mayConnect s.atoms t.atoms = true) :
    ∃ pc ∈ (p.prune g).connections.toList, pc.connection = id ∧ pc.source = s.id := by
  have hbefore : (id, s.id, ascending (p.slicesOf c.target)) ∈ p.traffic :=
    h.mem_traffic_iff.2
      ⟨c, hc, h.sliced.numbered.mem_slicesOf_iff.2 ⟨s, hs, hsource, rfl⟩, rfl⟩
  obtain ⟨pc₀, hpc₀, heq⟩ := List.mem_map.1 hbefore
  obtain rfl : pc₀.connection = id := congrArg (fun t => t.1) heq
  have hid : pc₀.source = s.id := congrArg (fun t => t.2.1) heq
  have hall : pc₀.targets = ascending (p.slicesOf c.target) := congrArg (fun t => t.2.2) heq
  have hlive : t.id ∈ p.liveTargets g pc₀ :=
    (h.mem_liveTargets_iff hc (h.slice?_eq_some_iff.2 ⟨hs, hid.symm⟩) hall).2
      ⟨t, ht, rfl, htarget, hmay⟩
  -- the slice `t` is a live target, so that the partitioned connection is not dropped
  have hleft : (pc₀.connection, pc₀.source, p.liveTargets g pc₀) ∈ (p.prune g).traffic := by
    rw [traffic_prune, List.mem_filter]
    refine ⟨List.mem_map_of_mem hpc₀, ?_⟩
    rw [Bool.not_eq_true', List.isEmpty_eq_false_iff]
    exact List.ne_nil_of_mem hlive
  obtain ⟨pc, hpc, heq⟩ := List.mem_map.1 hleft
  exact ⟨pc, hpc, congrArg (fun t => t.1) heq, (congrArg (fun t => t.2.1) heq).trans hid⟩

/-- A slice has one partitioned connection for each connection. -/
theorem eq_of_source_eq (h : p.Represents g budget atomsPerCore)
    {pc pc' : PartitionedConnection} (hpc : pc ∈ (p.prune g).connections.toList)
    (hpc' : pc' ∈ (p.prune g).connections.toList) (hconnection : pc.connection = pc'.connection)
    (hsource : pc.source = pc'.source) : pc = pc' := by
  have hbefore := h.pairwise_traffic
  rw [traffic, List.pairwise_map] at hbefore
  have hafter : (p.prune g).traffic.Pairwise (fun t t' => (t.1, t.2.1) ≠ (t'.1, t'.2.1)) := by
    rw [traffic_prune]
    refine List.Pairwise.filter _ ?_
    rw [List.pairwise_map]
    exact hbefore
  rw [traffic, List.pairwise_map] at hafter
  refine eq_of_pairwise_ne (fun pc => (pc.connection, pc.source)) hafter hpc hpc' ?_
  rw [hconnection, hsource]

theorem pairwise_prune_id (h : p.Represents g budget atomsPerCore) :
    (p.prune g).connections.toList.Pairwise (fun a b => a.id ≠ b.id) :=
  h.sliced.numbered.pairwise_prune_id g h.connections_lt

end Represents

end PartitionedGraph

/-- Partitioning a built graph represents it, as long as there are fewer slices and partitioned
    connections than ids. -/
theorem ApplicationGraph.Built.represents {g : ApplicationGraph} {budget : Cost}
    {atomsPerCore : Std.ExtTreeMap String UInt32} {p : PartitionedGraph} (hg : g.Built)
    (h : g.partition budget atomsPerCore = .ok p) (hslices : p.slices.size < UInt32.size)
    (hconnections : p.connections.size < UInt32.size) : p.Represents g budget atomsPerCore :=
  ⟨hg, (partition_eq_ok h).1, (partition_eq_ok h).2, hslices, hconnections⟩

end SpikeMesh
