import SpikeMesh.Graph.Application
import SpikeMesh.Graph.Partitioned
import SpikeMesh.Proofs.Collections
import SpikeMesh.Proofs.Fallible

set_option autoImplicit false

/-! # Ids as positions

As long as there are no more entities than ids, the id of an entity tells its position. Units and
connections of a graph and slices of a partitioned graph can then be looked up by their ids, and
the slices listed for a unit are all slices of the unit. -/

namespace SpikeMesh

/-! ## Numbered lists -/

namespace Id

variable {kind : IdKind}

/-- An id is that of its position. -/
theorem ofIndex_index (id : Id kind) : ofIndex id.index = id := by
  rw [ofIndex, index, UInt32.ofNat_toNat]

/-- Positions that fit into a word are told apart by their ids. -/
theorem ofIndex_inj {m n : Nat} (hm : m < UInt32.size) (hn : n < UInt32.size)
    (h : (ofIndex m : Id kind) = ofIndex n) : m = n := by
  have hindex : (ofIndex m : Id kind).index = (ofIndex n : Id kind).index := by rw [h]
  rwa [index_ofIndex hm, index_ofIndex hn] at hindex

variable {α : Type} {items : List α}

/-- The item that is numbered with an id is the one at the position of the id. -/
theorem mem_zipIdx_iff (h : items.length ≤ UInt32.size) {id : Id kind} {a : α} :
    (id, a) ∈ items.zipIdx.map (fun e => ((ofIndex e.2 : Id kind), e.1)) ↔
      items[id.index]? = some a := by
  rw [List.mem_map]
  constructor
  · rintro ⟨⟨a', i⟩, he, heq⟩
    obtain ⟨rfl, rfl⟩ := Prod.mk.injEq .. ▸ heq
    have hget : items[i]? = some a' := List.mem_zipIdx_iff_getElem?.1 he
    have hi : i < items.length := (List.getElem?_eq_some_iff.1 hget).1
    rw [index_ofIndex (by omega)]
    exact hget
  · intro hget
    exact ⟨(a, id.index), List.mem_zipIdx_iff_getElem?.2 hget, by rw [ofIndex_index]⟩

/-- No two items are numbered with the same id. -/
theorem pairwise_zipIdx (h : items.length ≤ UInt32.size) :
    (items.zipIdx.map (fun e => ((ofIndex e.2 : Id kind), e.1))).Pairwise
      (fun a b => a.1 ≠ b.1) := by
  rw [List.pairwise_iff_getElem]
  intro i j hi hj hij heq
  simp only [List.length_map, List.length_zipIdx] at hi hj
  simp only [List.getElem_map, List.getElem_zipIdx, Nat.zero_add] at heq
  have := ofIndex_inj (by omega) (by omega) heq
  omega

end Id

/-! ## Graphs -/

namespace ApplicationGraph

/-- The graph was built by adding units and connections. -/
inductive Built : ApplicationGraph → Prop
  | empty : Built .empty
  | addUnit {g g' : ApplicationGraph} {u : GraphUnit} {id : UnitId} :
      Built g → g.addUnit u = .ok (id, g') → Built g'
  | addConnection {g g' : ApplicationGraph} {c : Connection} {id : ConnectionId} :
      Built g → g.addConnection c = .ok (id, g') → Built g'

/-- A unit that is added has an atom, and comes after the others. -/
theorem addUnit_eq_ok {g g' : ApplicationGraph} {u : GraphUnit} {id : UnitId}
    (h : g.addUnit u = .ok (id, g')) :
    u.atoms ≠ 0 ∧ g' = { g with units := g.units ++ [u] } := by
  unfold addUnit at h
  split at h
  · exact absurd h (by simp)
  · next hne =>
      split at h
      · exact absurd h (by simp)
      · have := Except.ok.inj h
        exact ⟨by simpa using hne, (Prod.mk.inj this).2.symm⟩

/-- The units that a connection joins exist. -/
theorem endpoint_eq_ok {g : ApplicationGraph} {label : String} {id : UnitId} {u : GraphUnit}
    (h : g.endpoint label id = .ok u) : g.unit? id = some u := by
  unfold endpoint at h
  split at h
  · next u' hu => rw [hu, Except.ok.inj h]
  · exact absurd h (by simp)

/-- A connection that is added joins units of the graph, and comes after the others. -/
theorem addConnection_eq_ok {g g' : ApplicationGraph} {c : Connection} {id : ConnectionId}
    (h : g.addConnection c = .ok (id, g')) :
    (∃ u, g.unit? c.source = some u) ∧ (∃ u, g.unit? c.target = some u) ∧
      g' = { g with connections := g.connections ++ [c] } := by
  unfold addConnection at h
  obtain ⟨source, hsource, h⟩ := bind_eq_ok_iff.1 h
  obtain ⟨target, htarget, h⟩ := bind_eq_ok_iff.1 h
  obtain ⟨-, -, h⟩ := bind_eq_ok_iff.1 h
  have := Except.ok.inj h
  exact ⟨⟨source, endpoint_eq_ok hsource⟩, ⟨target, endpoint_eq_ok htarget⟩,
    (Prod.mk.inj this).2.symm⟩

/-- Every unit of a built graph has an atom. -/
theorem Built.atoms_pos {g : ApplicationGraph} (h : g.Built) :
    ∀ u ∈ g.units, 0 < u.atoms.toNat := by
  induction h with
  | empty => intro u hu; exact absurd hu (by simp [ApplicationGraph.empty])
  | @addUnit g g' u id _ hadd ih =>
      obtain ⟨hne, rfl⟩ := addUnit_eq_ok hadd
      intro v hv
      rcases List.mem_append.1 hv with hv | hv
      · exact ih v hv
      · rw [List.mem_singleton.1 hv, Nat.pos_iff_ne_zero]
        intro hzero
        exact hne (UInt32.toNat_inj.1 hzero)
  | @addConnection g g' c id _ hadd ih =>
      obtain ⟨-, -, rfl⟩ := addConnection_eq_ok hadd
      exact ih

/-- A unit stays when others are added after it. -/
theorem unit?_append {g : ApplicationGraph} {id : UnitId} {u v : GraphUnit}
    (h : g.unit? id = some u) : ({ g with units := g.units ++ [v] }).unit? id = some u := by
  unfold unit? at h ⊢
  rw [List.getElem?_append_left (List.getElem?_eq_some_iff.1 h).1]
  exact h

/-- Every connection of a built graph joins units of the graph. -/
theorem Built.endpoints {g : ApplicationGraph} (h : g.Built) : ∀ c ∈ g.connections,
    (∃ u, g.unit? c.source = some u) ∧ ∃ u, g.unit? c.target = some u := by
  induction h with
  | empty => intro c hc; exact absurd hc (by simp [ApplicationGraph.empty])
  | @addUnit g g' u id _ hadd ih =>
      obtain ⟨-, rfl⟩ := addUnit_eq_ok hadd
      intro c hc
      obtain ⟨⟨s, hs⟩, t, ht⟩ := ih c hc
      exact ⟨⟨s, unit?_append hs⟩, t, unit?_append ht⟩
  | @addConnection g g' c id _ hadd ih =>
      obtain ⟨hs, ht, rfl⟩ := addConnection_eq_ok hadd
      intro c' hc'
      rcases List.mem_append.1 hc' with hc' | hc'
      · exact ih c' hc'
      · rw [List.mem_singleton.1 hc']
        exact ⟨hs, ht⟩

end ApplicationGraph

/-! ## Partitioned graphs -/

namespace PartitionedGraph

/-- Slices and connections are numbered by their positions, and the slices listed for a unit are
    the slices of the unit. -/
structure Numbered (p : PartitionedGraph) : Prop where
  slice_id : ∀ i s, p.slices.toList[i]? = some s → s.id = Id.ofIndex i
  connection_id : ∀ i pc, p.connections.toList[i]? = some pc → pc.id = Id.ofIndex i
  slicesOf_eq : ∀ u, p.slicesOf u
    = (p.slices.toList.filter (fun s => s.unit = u)).map (fun s => s.id)

theorem numbered_empty : empty.Numbered where
  slice_id := by simp [empty]
  connection_id := by simp [empty]
  slicesOf_eq := by simp [empty, slicesOf]

/-- In a list numbered by positions the item after the last one has the next number. -/
theorem id_of_getElem?_append {α : Type} {kind : IdKind} {id : α → Id kind} {items : List α}
    {a : α} (h : ∀ i x, items[i]? = some x → id x = Id.ofIndex i)
    (ha : id a = Id.ofIndex items.length) {i : Nat} {x : α}
    (hx : (items ++ [a])[i]? = some x) : id x = Id.ofIndex i := by
  rw [List.getElem?_append] at hx
  split at hx
  · exact h i x hx
  · next hi =>
      obtain ⟨hlt, rfl⟩ := List.getElem?_eq_some_iff.1 hx
      have hzero : i - items.length = 0 := by
        simp only [List.length_singleton] at hlt
        omega
      have hi' : i = items.length := by omega
      simp only [hzero, List.getElem_cons_zero]
      rw [ha, hi']

/-- In a list numbered by positions no two items have the same number. -/
theorem pairwise_id {α : Type} {kind : IdKind} {id : α → Id kind} {items : List α}
    (h : ∀ i x, items[i]? = some x → id x = Id.ofIndex i) (hlength : items.length ≤ UInt32.size) :
    items.Pairwise (fun a b => id a ≠ id b) := by
  rw [List.pairwise_iff_getElem]
  intro i j hi hj hij heq
  rw [h i _ (List.getElem?_eq_getElem hi), h j _ (List.getElem?_eq_getElem hj)] at heq
  have := Id.ofIndex_inj (by omega) (by omega) heq
  omega

variable {p : PartitionedGraph}

/-- A slice is added after the others. -/
theorem toList_slices_addSlice (p : PartitionedGraph) (u : UnitId) (atoms : AtomRange)
    (cost : Cost) :
    (p.addSlice u atoms cost).slices.toList = p.slices.toList ++ [p.nextSlice u atoms cost] := by
  rw [addSlice, Array.toList_push]

/-- A connection is added after the others. -/
theorem toList_connections_addConnection (p : PartitionedGraph) (c : ConnectionId)
    (source : SliceId) (targets : List SliceId) :
    (p.addConnection c source targets).connections.toList
      = p.connections.toList
        ++ [⟨Id.ofIndex p.connections.size, c, source, ascending targets⟩] := by
  rw [addConnection, Array.toList_push]

theorem Numbered.addSlice (h : p.Numbered) (u : UnitId) (atoms : AtomRange) (cost : Cost) :
    (p.addSlice u atoms cost).Numbered where
  slice_id := by
    intro i s hs
    rw [toList_slices_addSlice] at hs
    exact id_of_getElem?_append h.slice_id (by simp [nextSlice]) hs
  connection_id := h.connection_id
  slicesOf_eq := by
    intro v
    rw [toList_slices_addSlice, List.filter_append, List.map_append, ← h.slicesOf_eq, slicesOf,
      PartitionedGraph.addSlice, Std.ExtTreeMap.getD_eq_getD_getElem?, getElem?_insert_of_lawful]
    by_cases hv : u = v
    · subst hv
      rw [if_pos rfl, Option.getD_some, List.filter_cons_of_pos (by simp [nextSlice])]
      rfl
    · rw [if_neg hv, ← Std.ExtTreeMap.getD_eq_getD_getElem?,
        List.filter_cons_of_neg (by simp [nextSlice, hv])]
      simp [slicesOf]

theorem Numbered.addConnection (h : p.Numbered) (c : ConnectionId) (source : SliceId)
    (targets : List SliceId) : (p.addConnection c source targets).Numbered where
  slice_id := h.slice_id
  connection_id := by
    intro i pc hpc
    rw [toList_connections_addConnection] at hpc
    exact id_of_getElem?_append h.connection_id (by simp) hpc
  slicesOf_eq := h.slicesOf_eq

/-- The graph was built by adding slices and connections. -/
inductive Built : PartitionedGraph → Prop
  | empty : Built .empty
  | addSlice {p : PartitionedGraph} {u : UnitId} {atoms : AtomRange} {cost : Cost} :
      Built p → Built (p.addSlice u atoms cost)
  | addConnection {p : PartitionedGraph} {c : ConnectionId} {source : SliceId}
      {targets : List SliceId} : Built p → Built (p.addConnection c source targets)

theorem Built.numbered (h : p.Built) : p.Numbered := by
  induction h with
  | empty => exact numbered_empty
  | addSlice _ ih => exact ih.addSlice ..
  | addConnection _ ih => exact ih.addConnection ..

/-- The slice with an id is the one that carries the id. -/
theorem Numbered.slice?_eq_some_iff (h : p.Numbered) (hsize : p.slices.size ≤ UInt32.size)
    {id : SliceId} {s : Slice} :
    p.slice? id = some s ↔ s ∈ p.slices.toList ∧ s.id = id := by
  rw [slice?, ← Array.getElem?_toList]
  constructor
  · intro hs
    rw [h.slice_id _ s hs]
    exact ⟨List.mem_of_getElem? hs, Id.ofIndex_index id⟩
  · rintro ⟨hs, rfl⟩
    obtain ⟨i, hi⟩ := List.mem_iff_getElem?.1 hs
    have hlt : i < p.slices.toList.length := (List.getElem?_eq_some_iff.1 hi).1
    rw [Array.length_toList] at hlt
    rw [h.slice_id i s hi, Id.index_ofIndex (by omega)]
    exact hi

/-- No two connections have the same id. -/
theorem Numbered.pairwise_connection_id (h : p.Numbered)
    (hsize : p.connections.size ≤ UInt32.size) :
    p.connections.toList.Pairwise (fun a b => a.id ≠ b.id) :=
  pairwise_id h.connection_id (by rwa [Array.length_toList])

/-- No two slices have the same id. -/
theorem Numbered.pairwise_slice_id (h : p.Numbered) (hsize : p.slices.size ≤ UInt32.size) :
    p.slices.toList.Pairwise (fun a b => a.id ≠ b.id) :=
  pairwise_id h.slice_id (by rwa [Array.length_toList])

/-- The slices listed for a unit are those of the unit. -/
theorem Numbered.mem_slicesOf_iff (h : p.Numbered) {u : UnitId} {id : SliceId} :
    id ∈ p.slicesOf u ↔ ∃ s ∈ p.slices.toList, s.unit = u ∧ s.id = id := by
  rw [h.slicesOf_eq, List.mem_map]
  constructor
  · rintro ⟨s, hs, rfl⟩
    obtain ⟨hs, hu⟩ := List.mem_filter.1 hs
    exact ⟨s, hs, by simpa using hu, rfl⟩
  · rintro ⟨s, hs, rfl, rfl⟩
    exact ⟨s, List.mem_filter.2 ⟨hs, by simp⟩, rfl⟩

theorem Numbered.eq_of_id_eq (h : p.Numbered) (hsize : p.slices.size ≤ UInt32.size) {s t : Slice}
    (hs : s ∈ p.slices.toList) (ht : t ∈ p.slices.toList) (hid : s.id = t.id) : s = t :=
  eq_of_pairwise_ne Slice.id (h.pairwise_slice_id hsize) hs ht hid

theorem Numbered.unit_of_mem_slicesOf (h : p.Numbered) (hsize : p.slices.size ≤ UInt32.size)
    {u : UnitId} {s : Slice} (hs : s ∈ p.slices.toList) (hmem : s.id ∈ p.slicesOf u) :
    s.unit = u := by
  obtain ⟨t, ht, rfl, hid⟩ := h.mem_slicesOf_iff.1 hmem
  rw [h.eq_of_id_eq hsize ht hs hid]

/-- A slice is listed once for its unit. -/
theorem Numbered.nodup_slicesOf (h : p.Numbered) (hsize : p.slices.size ≤ UInt32.size)
    (u : UnitId) : (p.slicesOf u).Nodup := by
  rw [h.slicesOf_eq, List.Nodup, List.pairwise_map]
  exact (h.pairwise_slice_id hsize).filter _

/-- Putting slices in ascending order neither adds nor loses one. -/
theorem mem_ascending {ids : List SliceId} {id : SliceId} : id ∈ ascending ids ↔ id ∈ ids := by
  rw [ascending, Std.ExtTreeSet.mem_toList, mem_foldl_insert (fun x => x)]
  simp

end PartitionedGraph

end SpikeMesh
