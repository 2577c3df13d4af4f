import SpikeMesh.Proofs.Mapping.Delivery
import SpikeMesh.Proofs.Mapping.Tiling

set_option autoImplicit false

/-! # Partitioning is optimal

A graph can be cut unless a single atom of some unit exceeds the budget, and the first such unit is
the one that is named. Otherwise each unit is cut into slices that are as large and as few as
possible, and each connection leads from every slice of its source to all slices of its target. -/

namespace SpikeMesh

/-! ## What cannot be cut -/

namespace GraphUnit

variable {u : GraphUnit} {budget : Cost} {atomsPerCore : Std.ExtTreeMap String UInt32}

theorem exists_sliceSize_iff :
    (∃ size, u.sliceSize budget atomsPerCore = .ok size) ↔
      (u.model.cost 1).fits budget = true := by
  unfold sliceSize Cost.fits
  cases (u.model.cost 1).firstExcess? budget with
  | none => simp
  | some excess => simp

theorem sliceSize_eq_error_iff {e : PipelineError} :
    u.sliceSize budget atomsPerCore = .error e ↔
      ∃ excess, (u.model.cost 1).firstExcess? budget = some excess ∧
        e = .resourceExceeded ("a single atom of " ++ u.subject) excess.resource excess.requested
          excess.available := by
  unfold sliceSize
  cases (u.model.cost 1).firstExcess? budget with
  | none => simp
  | some excess => simp [eq_comm]

end GraphUnit

namespace ApplicationGraph

variable {g : ApplicationGraph} {budget : Cost} {atomsPerCore : Std.ExtTreeMap String UInt32}
  {p : PartitionedGraph}

/-- Partitioning fails at the first unit of which a single atom exceeds the budget. -/
theorem partition_eq_error_iff {e : PipelineError} :
    g.partition budget atomsPerCore = .error e ↔
      ∃ front u rest excess, g.units = front ++ u :: rest ∧
        (∀ v ∈ front, (v.model.cost 1).fits budget = true) ∧
        (u.model.cost 1).firstExcess? budget = some excess ∧
        e = .resourceExceeded ("a single atom of " ++ u.subject) excess.resource excess.requested
          excess.available := by
  have hsliced : g.partition budget atomsPerCore = .error e ↔
      g.sliced budget atomsPerCore = .error e := by
    show (g.sliced budget atomsPerCore >>= _) = _ ↔ _
    cases g.sliced budget atomsPerCore with
    | error e' => rfl
    | ok p => simp [ok_bind, pure_eq_ok]
  have hunits : g.numberedUnits.map Prod.snd = g.units := by
    rw [numberedUnits, List.map_map]
    exact List.zipIdx_map_fst ..
  have hfirst := foldlM_eq_error_iff
    (fun x : UnitId × GraphUnit => x.2.sliceSize budget atomsPerCore)
    (fun (p : PartitionedGraph) x size => p.addUnit x.1 x.2 size) (e := e) g.numberedUnits .empty
  rw [hsliced]
  refine hfirst.trans ?_
  constructor
  · intro h
    obtain ⟨front, x, rest, hsplit, hfront, hx⟩ := h
    obtain ⟨excess, hexcess, he⟩ := GraphUnit.sliceSize_eq_error_iff.1 hx
    refine ⟨front.map Prod.snd, x.2, rest.map Prod.snd, excess, ?_, ?_, hexcess, he⟩
    · rw [← hunits, hsplit, List.map_append, List.map_cons]
    · intro v hv
      obtain ⟨y, hy, rfl⟩ := List.mem_map.1 hv
      exact GraphUnit.exists_sliceSize_iff.1 (hfront y hy)
  · intro h
    obtain ⟨front, u, rest, excess, hsplit, hfront, hexcess, he⟩ := h
    rw [← hunits] at hsplit
    obtain ⟨front', tail, hnumbered, rfl, htail⟩ := List.map_eq_append_iff.1 hsplit
    obtain ⟨x, rest', rfl, rfl, -⟩ := List.map_eq_cons_iff.1 htail
    refine ⟨front', x, rest', hnumbered, ?_, ?_⟩
    · intro y hy
      exact GraphUnit.exists_sliceSize_iff.2 (hfront y.2 (List.mem_map_of_mem hy))
    · exact GraphUnit.sliceSize_eq_error_iff.2 ⟨excess, hexcess, he⟩

/-- Partitioning fails if a single atom of any unit exceeds the budget. -/
theorem exists_partition_error_iff :
    (∃ e, g.partition budget atomsPerCore = .error e) ↔
      ∃ u ∈ g.units, (u.model.cost 1).fits budget = false := by
  constructor
  · intro h
    obtain ⟨e, he⟩ := h
    obtain ⟨front, u, rest, excess, hsplit, -, hexcess, -⟩ := partition_eq_error_iff.1 he
    refine ⟨u, by simp [hsplit], ?_⟩
    rw [Cost.fits, hexcess]
    rfl
  · intro h
    cases hp : g.partition budget atomsPerCore with
    | error e => exact ⟨e, rfl⟩
    | ok p =>
        obtain ⟨u, hu, hexceeds⟩ := h
        obtain ⟨hsliced, -⟩ := partition_eq_ok hp
        obtain ⟨i, hi⟩ := List.mem_iff_getElem?.1 hu
        have hmem : (Id.ofIndex i, u) ∈ g.numberedUnits :=
          List.mem_map.2 ⟨(u, i), List.mem_zipIdx_iff_getElem?.2 hi, rfl⟩
        have hfits := GraphUnit.exists_sliceSize_iff.1 (hsliced.sliceSize_ok _ hmem)
        exact absurd (hfits.symm.trans hexceeds) (by simp)

end ApplicationGraph

/-! ## What the parts are -/

namespace PartitionedGraph

variable {p : PartitionedGraph} {g : ApplicationGraph} {budget : Cost}
  {atomsPerCore : Std.ExtTreeMap String UInt32}

/-- The slices of a unit are listed in the order of their numbers. -/
theorem Numbered.ascending_slicesOf (h : p.Numbered) (hsize : p.slices.size ≤ UInt32.size)
    (u : UnitId) : ascending (p.slicesOf u) = p.slicesOf u := by
  have hordered : (p.slicesOf u).Pairwise (fun a b => compare a b = .lt) := by
    rw [h.slicesOf_eq, List.pairwise_map]
    refine List.Pairwise.filter _ (List.pairwise_iff_getElem.2 ?_)
    intro i j hi hj hij
    rw [h.slice_id i _ (List.getElem?_eq_getElem hi), h.slice_id j _ (List.getElem?_eq_getElem hj)]
    rw [Array.length_toList] at hi hj
    show compare (UInt32.ofNat i) (UInt32.ofNat j) = .lt
    simp only [UInt32.size] at hsize
    rw [Std.compare_eq_lt, UInt32.lt_iff_toNat_lt, UInt32.toNat_ofNat', UInt32.toNat_ofNat',
      Nat.mod_eq_of_lt (by omega), Nat.mod_eq_of_lt (by omega)]
    exact hij
  have hperm : (ascending (p.slicesOf u)).Perm (p.slicesOf u) := by
    refine (List.perm_ext_iff_of_nodup (nodup_toList _) (h.nodup_slicesOf hsize u)).2 ?_
    intro id
    exact mem_ascending
  refine hperm.eq_of_pairwise ?_ Std.ExtTreeSet.ordered_toList hordered
  intro a b _ _ hab hba
  have hswap : compare a b = (compare b a).swap := Std.OrientedOrd.eq_swap
  rw [hba, hab] at hswap
  exact absurd hswap (by simp)

/-- A graph is cut into slices that are as large and as few as possible, and each connection leads
    from every slice of its source to all slices of its target. There is nothing else. -/
structure Partitions (p : PartitionedGraph) (g : ApplicationGraph) (budget : Cost)
    (atomsPerCore : Std.ExtTreeMap String UInt32) : Prop where
  cutInto : ∀ id u, g.unit? id = some u → ∃ slices : List Slice,
    (p.slicesOf id).map p.slice? = slices.map some ∧ (∀ s ∈ slices, s.unit = id) ∧
      u.CutInto budget atomsPerCore slices
  connects : ∀ id c, g.connection? id = some c →
    ((p.connections.toList.filter fun pc => pc.connection = id).map fun pc =>
      (pc.source, pc.targets)) = (p.slicesOf c.source).map fun s => (s, p.slicesOf c.target)
  unit_exists : ∀ s ∈ p.slices.toList, ∃ u, g.unit? s.unit = some u
  connection_exists : ∀ pc ∈ p.connections.toList, ∃ c, g.connection? pc.connection = some c

theorem Represents.partitions (h : p.Represents g budget atomsPerCore) :
    p.Partitions g budget atomsPerCore where
  cutInto := by
    intro id u hu
    have hmem := h.mem_numberedUnits_iff.2 hu
    obtain ⟨size, hsize⟩ := h.sliced.sliceSize_ok _ hmem
    have hcontents : (p.slices.toList.filter fun s => s.unit = id).map Slice.content
        = u.contents budget atomsPerCore id := by
      have hall := filter_flatMap_of_key Prod.fst Prod.fst
        (fun e => e.2.contents budget atomsPerCore e.1) h.pairwise_numberedUnits ?_ hmem
      · rw [← h.sliced.contents_eq, List.filter_map] at hall
        exact hall
      · intro e _ content hcontent
        obtain ⟨r, -, rfl⟩ := List.mem_map.1 hcontent
        rfl
    refine ⟨_, ?_, ?_, GraphUnit.cutInto_of_contents hsize hcontents⟩
    · rw [h.sliced.numbered.slicesOf_eq, List.map_map]
      refine List.map_congr_left ?_
      intro s hs
      exact h.slice?_eq_some_iff.2 ⟨(List.mem_filter.1 hs).1, rfl⟩
    · intro s hs
      simpa using (List.mem_filter.1 hs).2
  connects := by
    intro id c hc
    have hmem : (id, c) ∈ g.numberedConnections :=
      (Id.mem_zipIdx_iff (Nat.le_of_lt h.length_connections_lt)).2 hc
    have hkeys : g.numberedConnections.Pairwise (fun a b => a.1 ≠ b.1) :=
      Id.pairwise_zipIdx (Nat.le_of_lt h.length_connections_lt)
    have hall := filter_flatMap_of_key Prod.fst Prod.fst (fun e => p.trafficOf e.1 e.2) hkeys ?_
      hmem
    · rw [← h.traffic_eq, traffic, List.filter_map] at hall
      have hends := congrArg (List.map Prod.snd) hall
      rw [List.map_map, trafficOf, List.map_map,
        h.sliced.numbered.ascending_slicesOf (Nat.le_of_lt h.slices_lt)] at hends
      exact hends
    · intro e _ t ht
      obtain ⟨s, -, rfl⟩ := List.mem_map.1 ht
      rfl
  unit_exists := by
    intro s hs
    obtain ⟨u, hu, -⟩ := h.sliced.exists_unit hs
    exact ⟨u, h.mem_numberedUnits_iff.1 hu⟩
  connection_exists := by
    intro pc hpc
    have htraffic : pc.traffic ∈ p.traffic := List.mem_map_of_mem hpc
    obtain ⟨c, hc, -⟩ := h.mem_traffic_iff.1 htraffic
    exact ⟨c, hc⟩

end PartitionedGraph

/-! ## Partitioning -/

namespace ApplicationGraph

/-- **Partitioning.** It fails if a single atom of some unit exceeds the budget, at the first such
    unit. Otherwise, as long as there are fewer slices and partitioned connections than ids, the
    units are cut into slices that are as large and as few as possible, and each connection leads
    from every slice of its source to all slices of its target. -/
theorem partition_optimal {g : ApplicationGraph} (hg : g.Built) (budget : Cost)
    (atomsPerCore : Std.ExtTreeMap String UInt32) :
    ((∃ e, g.partition budget atomsPerCore = .error e) ↔
      ∃ u ∈ g.units, (u.model.cost 1).fits budget = false) ∧
    (∀ e, g.partition budget atomsPerCore = .error e ↔
      ∃ front u rest excess, g.units = front ++ u :: rest ∧
        (∀ v ∈ front, (v.model.cost 1).fits budget = true) ∧
        (u.model.cost 1).firstExcess? budget = some excess ∧
        e = .resourceExceeded ("a single atom of " ++ u.subject) excess.resource excess.requested
          excess.available) ∧
    ∀ p, g.partition budget atomsPerCore = .ok p → p.slices.size < UInt32.size →
      p.connections.size < UInt32.size → p.Partitions g budget atomsPerCore := by
  refine ⟨exists_partition_error_iff, fun e => partition_eq_error_iff, ?_⟩
  intro p hp hslices hconnections
  exact (hg.represents hp hslices hconnections).partitions

/-- Of the two units of the pair, with room for two atoms on a core, each is cut into two. -/
theorem partition_optimal_pair : pairGraph.Built ∧ ∃ p,
    pairGraph.partition ⟨2, 2, 2⟩ ∅ = .ok p ∧ p.slices.size < UInt32.size ∧
      p.connections.size < UInt32.size ∧ p.Partitions pairGraph ⟨2, 2, 2⟩ ∅ := by
  obtain ⟨p, hp⟩ := exists_eq_ok_of_isOk
    (by decide +kernel : (pairGraph.partition ⟨2, 2, 2⟩ ∅).isOk = true)
  have hsizes : (pairGraph.partition ⟨2, 2, 2⟩ ∅).toOption.map
      (fun p => (p.slices.size, p.connections.size)) = some (4, 4) := by decide +kernel
  rw [hp] at hsizes
  obtain ⟨hslices, hconnections⟩ := Prod.mk.inj (Option.some.inj hsizes)
  have hslices : p.slices.size < UInt32.size := by simp only [UInt32.size]; omega
  have hconnections : p.connections.size < UInt32.size := by simp only [UInt32.size]; omega
  obtain ⟨-, -, hcut⟩ := partition_optimal pairGraph_built ⟨2, 2, 2⟩ ∅
  exact ⟨pairGraph_built, p, hp, hslices, hconnections, hcut p hp hslices hconnections⟩

end ApplicationGraph

end SpikeMesh
