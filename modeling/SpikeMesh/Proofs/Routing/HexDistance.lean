import SpikeMesh.Proofs.Fabric.History
import SpikeMesh.Proofs.Routing.Shortest
import SpikeMesh.Proofs.Routing.Tables

set_option autoImplicit false

/-! # Distances on a hexagonal mesh

A hop crosses one column, one row, or one of each in the same sense. A chip that is some columns and
rows away is therefore as many hops away as the larger of the two numbers says if they have the same
sign, and as both together otherwise (`hexNorm`). No hop brings a packet nearer by more than one,
and one that does lies within the rectangle between the two chips, so the border of a mesh is never
in the way. All chips of a mesh can be reached, and no route fails for want of a path. -/

namespace SpikeMesh

/-! ## Columns and rows -/

/-- The number of hops over some columns and rows. -/
def hexNorm (dx dy : Int) : Nat := max (max dx.natAbs dy.natAbs) (dx - dy).natAbs

namespace ChipCoord

/-- The number of hops between two chips of a hexagonal mesh without borders. -/
def hexDistance (a b : ChipCoord) : Nat :=
  hexNorm (b.x.toNat - a.x.toNat) (b.y.toNat - a.y.toNat)

end ChipCoord

theorem hexNorm_le_iff {dx dy : Int} {n : Nat} : hexNorm dx dy ≤ n ↔
    (-(n : Int) ≤ dx ∧ dx ≤ n) ∧ (-(n : Int) ≤ dy ∧ dy ≤ n) ∧
      (-(n : Int) ≤ dx - dy ∧ dx - dy ≤ n) := by
  simp only [hexNorm, Nat.max_le, and_assoc]
  omega

theorem hexNorm_eq_zero_iff {dx dy : Int} : hexNorm dx dy = 0 ↔ dx = 0 ∧ dy = 0 := by
  rw [← Nat.le_zero, hexNorm_le_iff]
  omega

/-- A hop adds at most one. -/
theorem hexNorm_add_offset_le (dx dy : Int) (d : Direction) :
    hexNorm (dx + d.offset.1) (dy + d.offset.2) ≤ hexNorm dx dy + 1 := by
  have hbounds := hexNorm_le_iff.1 (Nat.le_refl (hexNorm dx dy))
  rw [hexNorm_le_iff]
  cases d <;> simp only [Direction.offset] <;> omega

/-- The direction of the hop to take towards a chip that is some columns and rows away. -/
def Direction.toward (dx dy : Int) : Direction :=
  if 0 < dx then if 0 < dy then .northEast else .east
  else if dx < 0 then if dy < 0 then .southWest else .west
  else if 0 < dy then .north else .south

section Toward

variable {dx dy : Int}

/-- The hop leads past neither the column nor the row. -/
theorem Direction.toward_within (h : dx ≠ 0 ∨ dy ≠ 0) :
    min 0 dx ≤ (toward dx dy).offset.1 ∧ (toward dx dy).offset.1 ≤ max 0 dx ∧
      min 0 dy ≤ (toward dx dy).offset.2 ∧ (toward dx dy).offset.2 ≤ max 0 dy := by
  unfold toward
  split_ifs <;> simp only [Direction.offset] <;> omega

/-- The hop leaves one less to go. -/
theorem Direction.hexNorm_toward (h : dx ≠ 0 ∨ dy ≠ 0) :
    hexNorm (dx - (toward dx dy).offset.1) (dy - (toward dx dy).offset.2) + 1 = hexNorm dx dy := by
  have hback := hexNorm_add_offset_le (dx - (toward dx dy).offset.1)
    (dy - (toward dx dy).offset.2) (toward dx dy)
  rw [Int.sub_add_cancel, Int.sub_add_cancel] at hback
  have hbounds := hexNorm_le_iff.1 (Nat.le_refl (hexNorm dx dy))
  have hnearer : hexNorm (dx - (toward dx dy).offset.1) (dy - (toward dx dy).offset.2)
      ≤ hexNorm dx dy - 1 := by
    rw [hexNorm_le_iff]
    unfold toward
    split_ifs <;> simp only [Direction.offset] <;> omega
  have hpos : hexNorm dx dy ≠ 0 := fun hzero => by
    have := hexNorm_eq_zero_iff.1 hzero
    omega
  omega

end Toward

/-! ## Walks over a mesh -/

namespace Fabric

variable {width height : UInt32} {t : ChipTemplate} {a b c : ChipCoord} {d : Direction}
  {w : Travel.Path} {cost : Nat}

/-- A walk of links that all cost one costs as much as it has hops. -/
theorem Walk.cost_eq_length {f : Fabric} (h : f.Walk .shortestPath a w c cost) :
    cost = w.length := by
  induction h with
  | stay => rfl
  | step _ _ _ ih => rw [List.length_append, ih]; rfl

/-- There is a hop of a mesh without wrap-around where the offset leads from one place to
    another. -/
theorem link?_flatGrid (hb : InMesh width height b) (hc : InMesh width height c)
    (hx : (c.x.toNat : Int) = b.x.toNat + d.offset.1)
    (hy : (c.y.toNat : Int) = b.y.toNat + d.offset.2) :
    (grid width height t false).link? b d = some ⟨d, c, 1⟩ := by
  have hstep : step? width height false b d = some c :=
    (step?_eq_some_iff hb).2 (by simpa using ⟨hc, hx, hy⟩)
  rw [link?_grid, if_pos hb, hstep, Option.map_some]

/-- A walk stays in the mesh and has at least as many hops as its end is away. -/
theorem Walk.hexDistance_le (ha : InMesh width height a)
    (h : (grid width height t false).Walk .shortestPath a w c cost) :
    InMesh width height c ∧ a.hexDistance c ≤ cost := by
  induction h with
  | stay =>
      refine ⟨ha, Nat.le_of_eq (hexNorm_eq_zero_iff.2 ?_)⟩
      omega
  | @step w c cost d link _ hlink _ ih =>
      obtain ⟨hc, hle⟩ := ih
      rw [link?_grid, if_pos hc] at hlink
      obtain ⟨e, hstep, rfl⟩ := Option.map_eq_some_iff.1 hlink
      rw [step?_eq_some_iff hc] at hstep
      obtain ⟨he, hx, hy⟩ : InMesh width height e ∧ (e.x.toNat : Int) = c.x.toNat + d.offset.1 ∧
          (e.y.toNat : Int) = c.y.toNat + d.offset.2 := by simpa using hstep
      have hhop : a.hexDistance e ≤ a.hexDistance c + 1 := by
        unfold ChipCoord.hexDistance
        rw [hx, hy, add_sub_right_comm, add_sub_right_comm]
        exact hexNorm_add_offset_le _ _ d
      exact ⟨he, hhop.trans (Nat.add_le_add_right hle 1)⟩

/-- The chip before the last hop of a walk towards a chip. -/
theorem exists_nearer (ha : InMesh width height a) (hc : InMesh width height c)
    (h : a.hexDistance c ≠ 0) : ∃ (b : ChipCoord) (d : Direction), InMesh width height b ∧
      (c.x.toNat : Int) = b.x.toNat + d.offset.1 ∧ (c.y.toNat : Int) = b.y.toNat + d.offset.2 ∧
      a.hexDistance b + 1 = a.hexDistance c := by
  have haway : (c.x.toNat : Int) - a.x.toNat ≠ 0 ∨ (c.y.toNat : Int) - a.y.toNat ≠ 0 := by
    rw [ChipCoord.hexDistance, ne_eq, hexNorm_eq_zero_iff] at h
    omega
  have hnearer := Direction.hexNorm_toward haway
  obtain ⟨hxlow, hxhigh, hylow, hyhigh⟩ := Direction.toward_within haway
  generalize Direction.toward _ _ = d at *
  rw [InMesh, UInt32.lt_iff_toNat_lt, UInt32.lt_iff_toNat_lt] at ha hc
  have hx : (c.x.toNat - d.offset.1).toNat < width.toNat := by omega
  have hy : (c.y.toNat - d.offset.2).toNat < height.toNat := by omega
  obtain ⟨b, hbx, hby⟩ : ∃ b : ChipCoord, b.x.toNat = (c.x.toNat - d.offset.1).toNat ∧
      b.y.toNat = (c.y.toNat - d.offset.2).toNat := ⟨_, (mk_ofNat_eq_iff hx hy).1 rfl⟩
  have hcolumn : (c.x.toNat : Int) = b.x.toNat + d.offset.1 := by omega
  have hrow : (c.y.toNat : Int) = b.y.toNat + d.offset.2 := by omega
  refine ⟨b, d, ?_, hcolumn, hrow, ?_⟩
  · rw [InMesh, UInt32.lt_iff_toNat_lt, UInt32.lt_iff_toNat_lt, hbx, hby]
    exact ⟨hx, hy⟩
  · have hdx : (b.x.toNat : Int) - a.x.toNat = c.x.toNat - a.x.toNat - d.offset.1 := by omega
    have hdy : (b.y.toNat : Int) - a.y.toNat = c.y.toNat - a.y.toNat - d.offset.2 := by omega
    unfold ChipCoord.hexDistance
    rw [hdx, hdy, hnearer]

/-- There is a walk with as many hops as a chip is away. -/
theorem exists_walk_hexDistance (ha : InMesh width height a) (hc : InMesh width height c) :
    ∃ w, (grid width height t false).Walk .shortestPath a w c (a.hexDistance c) := by
  induction hn : a.hexDistance c generalizing c with
  | zero =>
      obtain ⟨hx, hy⟩ := hexNorm_eq_zero_iff.1 hn
      have heq : c = a := by
        obtain ⟨ax, ay⟩ := a
        obtain ⟨cx, cy⟩ := c
        simp only at hx hy
        rw [ChipCoord.mk.injEq, ← UInt32.toNat_inj, ← UInt32.toNat_inj]
        omega
      subst heq
      exact ⟨[], .stay⟩
  | succ n ih =>
      obtain ⟨b, d, hb, hx, hy, hnearer⟩ := exists_nearer ha hc (by omega)
      obtain ⟨w, hwalk⟩ := ih hb (by omega)
      exact ⟨w ++ [(b, d)], .step hwalk (link?_flatGrid hb hc hx hy)
        (contains_grid_iff.2 hc)⟩

end Fabric

/-! ## Shortest paths over a mesh -/

/-- The distance of a chip of a mesh, and the number of hops of the path to it. -/
theorem ShortestPathTree.hops_grid {width height : UInt32} (t : ChipTemplate)
    {a b : ChipCoord} (ha : Fabric.InMesh width height a) (hb : Fabric.InMesh width height b) :
    (compute (.grid width height t false) a .shortestPath).distance? b
        = some (a.hexDistance b) ∧
      ∃ w, (compute (.grid width height t false) a .shortestPath).pathTo? b = some w ∧
        w.length = a.hexDistance b := by
  obtain ⟨w, hwalk⟩ := Fabric.exists_walk_hexDistance (t := t) ha hb
  obtain ⟨distance, hdistance, hle⟩ := exists_distance_le hwalk
  obtain ⟨w', hpath, hwalk', -⟩ := exists_pathTo? hdistance
  obtain rfl : distance = a.hexDistance b := Nat.le_antisymm hle (hwalk'.hexDistance_le ha).2
  exact ⟨hdistance, w', hpath, hwalk'.cost_eq_length.symm⟩

/-! ## Routes without a path -/

/-- Tables are refused over their size only. -/
theorem RoutingTables.checkCapacity_eq_error {tables : RoutingTables} {f : Fabric}
    {e : PipelineError} (h : tables.checkCapacity f = .error e) :
    ∃ c used capacity excess, e = .tableCapacityExceeded c used capacity excess := by
  unfold checkCapacity at h
  split at h
  · next found hfound =>
      obtain rfl := Except.error.inj h
      obtain ⟨entry, -, hover⟩ := List.exists_of_findSome?_eq_some hfound
      simp only [overflow?, Option.ite_none_right_eq_some, Option.some.injEq] at hover
      exact ⟨_, _, _, _, hover.2.symm⟩
  · exact absurd h (by simp)

namespace RoutingJob

variable {job : RoutingJob} {kind : RouterKind} {key : UInt32} {a b : ChipCoord}

theorem sourceOf_eq_ok {pc : PartitionedConnection} {l : Location}
    (h : job.sourceOf pc = .ok l) : job.placements.get? pc.source = some l := by
  unfold sourceOf at h
  split at h
  · next hl => rw [hl, Except.ok.inj h]
  · exact absurd h (by simp)

theorem targetOf_eq_ok {pc : PartitionedConnection} {target : SliceId} {l : Location}
    (h : job.targetOf pc target = .ok l) : job.placements.get? target = some l := by
  unfold targetOf at h
  split at h
  · next hl => rw [hl, Except.ok.inj h]
  · exact absurd h (by simp)

/-- A tree that misses a target misses a path. -/
theorem treeOf_eq_routeUnreachable {paths : ShortestPathTree} {k : RoutingKey}
    {pc : PartitionedConnection}
    (h : job.treeOf paths k pc = .error (.routeUnreachable key a b)) : a = paths.source ∧
      ∃ target ∈ pc.targets, ∃ l, job.placements.get? target = some l ∧ l.chip = b ∧
        paths.pathTo? b = none := by
  obtain ⟨done, target, rest, tree, hsplit, -, hadd⟩ := foldlM_eq_error_iff_exists.1 h
  rcases bind_eq_error_iff.1 hadd with htarget | ⟨l, htarget, hadd⟩
  · unfold targetOf at htarget
    split at htarget <;> simp at htarget
  · split at hadd
    · exact absurd hadd (by simp [pure_eq_ok])
    · next hpath =>
        obtain ⟨-, rfl, rfl⟩ : k.key = key ∧ paths.source = a ∧ l.chip = b := by
          simpa [throw_eq_error] using hadd
        exact ⟨rfl, target, by simp [hsplit], l, targetOf_eq_ok htarget, rfl, hpath⟩

/-- A connection that cannot be routed has a target to whose chip no path leads. -/
theorem addConnection_eq_routeUnreachable {state : PathCache × RoutingTables}
    {pc : PartitionedConnection} (hcache : job.CacheSound kind state.1)
    (h : job.addConnection kind state pc = .error (.routeUnreachable key a b)) :
    ∃ source, job.placements.get? pc.source = some source ∧ source.chip = a ∧
      ∃ target ∈ pc.targets, ∃ l, job.placements.get? target = some l ∧ l.chip = b ∧
        (ShortestPathTree.compute job.fabric a kind).pathTo? b = none := by
  rcases bind_eq_error_iff.1 h with hsource | ⟨source, hsource, h⟩
  · unfold sourceOf at hsource
    split at hsource <;> simp at hsource
  · rcases bind_eq_error_iff.1 h with hkey | ⟨k, -, h⟩
    · unfold keyOf at hkey
      split at hkey <;> simp at hkey
    · rw [hcache.pathsFrom_eq] at h
      rcases bind_eq_error_iff.1 h with htree | ⟨tree, -, h⟩
      · obtain ⟨rfl, htarget⟩ := treeOf_eq_routeUnreachable htree
        exact ⟨source, sourceOf_eq_ok hsource, rfl, htarget⟩
      · exact absurd h (by simp [pure_eq_ok])

/-- Routing fails for want of a path only if there is none between the chips of two slices that a
    connection joins. -/
theorem route_eq_routeUnreachable (h : job.route kind = .error (.routeUnreachable key a b)) :
    ∃ pc ∈ job.partitioned.connections.toList, ∃ source,
      job.placements.get? pc.source = some source ∧ source.chip = a ∧
      ∃ target ∈ pc.targets, ∃ l, job.placements.get? target = some l ∧ l.chip = b ∧
        (ShortestPathTree.compute job.fabric a kind).pathTo? b = none := by
  rcases bind_eq_error_iff.1 h with htables | ⟨tables, -, h⟩
  · rcases bind_eq_error_iff.1 htables with hstate | ⟨state, -, h⟩
    · obtain ⟨done, pc, rest, before, hsplit, hdone, hadd⟩ := foldlM_eq_error_iff_exists.1 hstate
      have hcache : job.CacheSound kind before.1 :=
        foldlM_ok_induction (fun _ state => job.CacheSound kind state.1)
          (fun _ _ _ _ hsound hstep => (addConnection_eq_ok hsound hstep).1)
          (fun c t ht => absurd ht (by simp)) hdone
      exact ⟨pc, by simp [hsplit], addConnection_eq_routeUnreachable hcache hadd⟩
    · exact absurd h (by simp [pure_eq_ok])
  · rcases bind_eq_error_iff.1 h with hcapacity | ⟨_, -, h⟩
    · obtain ⟨c, used, capacity, excess, heq⟩ := RoutingTables.checkCapacity_eq_error hcapacity
      exact absurd heq (by simp)
    · exact absurd h (by simp [pure_eq_ok])

/-- Slices that a connection joins are on the chips of a mesh, as far as they are placed. -/
def PlacedInMesh (job : RoutingJob) (width height : UInt32) : Prop :=
  ∀ pc ∈ job.partitioned.connections.toList, ∀ slice ∈ pc.source :: pc.targets,
    ∀ l ∈ job.placements.get? slice, Fabric.InMesh width height l.chip

end RoutingJob

/-- **Hops on a hexagonal mesh.** On a mesh without wrap-around the distance between two chips is
    the largest of the columns, the rows and their difference between them, whatever the border, and
    the path has just so many hops. So no route over such a mesh fails for want of a path. -/
theorem hexDistance_of_grid (width height : UInt32) (t : ChipTemplate) :
    (∀ a b, (Fabric.grid width height t false).contains a = true →
      (Fabric.grid width height t false).contains b = true →
      (ShortestPathTree.compute (.grid width height t false) a .shortestPath).distance? b
          = some (a.hexDistance b) ∧
        ∃ w, (ShortestPathTree.compute (.grid width height t false) a .shortestPath).pathTo? b
            = some w ∧ w.length = a.hexDistance b) ∧
    ∀ job : RoutingJob, job.fabric = .grid width height t false → job.PlacedInMesh width height →
      ∀ key a b, job.route .shortestPath ≠ .error (.routeUnreachable key a b) := by
  constructor
  · intro a b ha hb
    exact ShortestPathTree.hops_grid t (Fabric.contains_grid_iff.1 ha)
      (Fabric.contains_grid_iff.1 hb)
  · intro job hfabric hplaced key a b h
    obtain ⟨pc, hpc, source, hsource, rfl, target, htarget, l, hl, rfl, hnone⟩ :=
      RoutingJob.route_eq_routeUnreachable h
    have ha := hplaced pc hpc pc.source List.mem_cons_self source hsource
    have hb := hplaced pc hpc target (List.mem_cons_of_mem _ htarget) l hl
    obtain ⟨-, w, hpath, -⟩ := ShortestPathTree.hops_grid t ha hb
    rw [hfabric, hpath] at hnone
    exact absurd hnone (by simp)

/-- Three slices on a mesh of three columns and two rows, two of them in opposite corners that no
    diagonal joins. -/
def flatJob : RoutingJob where
  partitioned :=
    let slices := [0, 1, 2].foldl (fun p i => p.addSlice ⟨i⟩ ⟨0, 1⟩ .zero) PartitionedGraph.empty
    slices.addConnection ⟨0⟩ ⟨0⟩ [⟨1⟩, ⟨2⟩]
  placements := .ofList [(⟨0⟩, ⟨⟨2, 0⟩, 1⟩), (⟨1⟩, ⟨⟨0, 1⟩, 1⟩), (⟨2⟩, ⟨⟨1, 0⟩, 2⟩)]
  keys := .ofList [(⟨0⟩, ⟨4, 0xfffffffe⟩)]
  fabric := .grid 3 2 ⟨3, 100, 100, 100, 8⟩ false

/-- Two columns to the left and one row up are three hops. -/
theorem hexDistance_of_flatJob :
    flatJob.fabric.contains ⟨2, 0⟩ = true ∧ flatJob.fabric.contains ⟨0, 1⟩ = true ∧
      (ShortestPathTree.compute flatJob.fabric ⟨2, 0⟩ .shortestPath).distance? ⟨0, 1⟩ = some 3 ∧
      flatJob.PlacedInMesh 3 2 ∧
      ∀ key a b, flatJob.route .shortestPath ≠ .error (.routeUnreachable key a b) := by
  obtain ⟨hdistance, hroutes⟩ := hexDistance_of_grid 3 2 ⟨3, 100, 100, 100, 8⟩
  have hright : flatJob.fabric.contains ⟨2, 0⟩ = true := by decide +kernel
  have hleft : flatJob.fabric.contains ⟨0, 1⟩ = true := by decide +kernel
  have hplaced : flatJob.PlacedInMesh 3 2 := by
    unfold RoutingJob.PlacedInMesh
    decide +kernel
  exact ⟨hright, hleft, (hdistance ⟨2, 0⟩ ⟨0, 1⟩ hright hleft).1, hplaced,
    hroutes flatJob rfl hplaced⟩

end SpikeMesh
