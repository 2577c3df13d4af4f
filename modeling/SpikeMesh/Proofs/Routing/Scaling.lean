import Mathlib.Data.List.Sort
import SpikeMesh.Proofs.Fabric.Mesh
import SpikeMesh.Proofs.Routing.Delivery
import SpikeMesh.Proofs.Routing.Settling

set_option autoImplicit false

/-! # Scaled costs

Two searches for cheapest paths of which every link costs the one a fixed number of times what it
costs the other go hand in hand: what is in the queue keeps its order, the same ways are found to be
cheaper and the same entries to be out of date, so they record the same hops. One search is at each
step the other one with its costs scaled (`PathSearch.scaled`). Where all links are equally fast,
this makes the routes of both routers the same. -/

namespace SpikeMesh

/-! ## Searches with other costs -/

def PathLabel.scaled (k : Nat) (label : PathLabel) : PathLabel :=
  { label with distance := k * label.distance }

def Waiting.scaled (k : Nat) (e : Waiting) : Waiting := { e with cost := k * e.cost }

/-- The search of which all costs are multiplied. -/
def PathSearch.scaled (k : Nat) (s : PathSearch) : PathSearch :=
  ⟨s.labels.map fun _ label => label.scaled k, .ofList (s.queue.toList.map (Waiting.scaled k))⟩

/-- Every link costs one router a fixed number of times what it costs the other. -/
def Fabric.ScalesCosts (f : Fabric) (k : Nat) (kind kind' : RouterKind) : Prop :=
  ∀ c d link, f.link? c d = some link → kind'.linkCost link = k * kind.linkCost link

section Waiting

variable {k : Nat} {e e' : Waiting}

theorem Waiting.compare_scaled (hk : 0 < k) (e e' : Waiting) :
    compare (e.scaled k) (e'.scaled k) = compare e e' := by
  have hcost : compare (k * e.cost) (k * e'.cost) = compare e.cost e'.cost := by
    simp only [Nat.compare_eq_ite_lt, Nat.mul_lt_mul_left hk]
  show (compare (k * e.cost) (k * e'.cost)).then (compare e.chip e'.chip) = _
  rw [hcost]
  rfl

theorem Waiting.scaled_inj (hk : 0 < k) : e.scaled k = e'.scaled k ↔ e = e' := by
  have heq : ∀ a b : Waiting, compare a b = .eq ↔ a = b := fun _ _ =>
    Std.LawfulEqCmp.compare_eq_iff_eq
  rw [← heq, compare_scaled hk, heq]

end Waiting

namespace PathSearch

variable {f : Fabric} {kind kind' : RouterKind} {k : Nat} {s : PathSearch} {e e' : Waiting}

theorem getElem?_labels_scaled (k : Nat) (s : PathSearch) (c : ChipCoord) :
    (s.scaled k).labels[c]? = (s.labels[c]?).map (PathLabel.scaled k) :=
  Std.ExtTreeMap.getElem?_map

theorem mem_queue_scaled : e' ∈ (s.scaled k).queue ↔ ∃ e ∈ s.queue, e.scaled k = e' := by
  rw [scaled, Std.ExtTreeSet.mem_ofList, List.contains_iff_mem, List.mem_map]
  simp only [Std.ExtTreeSet.mem_toList]

/-- The queue keeps its order. -/
theorem toList_queue_scaled (hk : 0 < k) (s : PathSearch) :
    (s.scaled k).queue.toList = s.queue.toList.map (Waiting.scaled k) := by
  have hmap : (s.queue.toList.map (Waiting.scaled k)).Pairwise
      (fun e e' => compare e e' = .lt) := by
    rw [List.pairwise_map]
    simpa only [Waiting.compare_scaled hk] using s.queue.ordered_toList
  have hnodup : (s.queue.toList.map (Waiting.scaled k)).Nodup :=
    hmap.imp fun {e e'} hlt heq => by simp [heq] at hlt
  have hanti : ∀ e e' : Waiting, compare e e' = .lt → compare e' e = .lt → e = e' :=
    fun e e' hlt hgt => absurd hgt (Std.OrientedCmp.not_lt_of_lt hlt)
  refine List.Perm.eq_of_pairwise (fun e e' _ _ => hanti e e') (Std.ExtTreeSet.ordered_toList ..)
    hmap ((List.perm_ext_iff_of_nodup (nodup_toList _) hnodup).2 fun e => ?_)
  rw [Std.ExtTreeSet.mem_toList, mem_queue_scaled, List.mem_map]
  simp only [Std.ExtTreeSet.mem_toList]

theorem scaled_ext {s' : PathSearch}
    (hlabels : ∀ c : ChipCoord, s'.labels[c]? = (s.labels[c]?).map (PathLabel.scaled k))
    (hqueue : ∀ e', e' ∈ s'.queue ↔ ∃ e ∈ s.queue, e.scaled k = e') : s.scaled k = s' := by
  have hl : (s.scaled k).labels = s'.labels := Std.ExtTreeMap.ext_getElem? fun c => by
    rw [getElem?_labels_scaled, hlabels]
  have hq : (s.scaled k).queue = s'.queue := Std.ExtTreeSet.ext_mem fun e => by
    rw [mem_queue_scaled, hqueue]
  exact congrArg₂ PathSearch.mk hl hq

theorem scaled_start (k : Nat) (source : ChipCoord) : (start source).scaled k = start source := by
  refine scaled_ext (fun c => ?_) (fun e' => ?_)
  · rw [start, getElem?_insert_of_lawful]
    by_cases hc : source = c
    · simp [hc, PathLabel.scaled]
    · simp [hc]
  · simp [start, Std.ExtTreeSet.mem_insert, Std.LawfulEqCmp.compare_eq_iff_eq, Waiting.scaled]

theorem scaled_reach (k : Nat) (s : PathSearch) (c : ChipCoord) (label : PathLabel) :
    (s.reach c label).scaled k = (s.scaled k).reach c (label.scaled k) := by
  refine scaled_ext (fun c' => ?_) (fun e' => ?_)
  · rw [getElem?_labels_reach, getElem?_labels_reach, getElem?_labels_scaled]
    split
    · rfl
    · rfl
  · simp only [mem_queue_reach, mem_queue_scaled, or_and_right, exists_or,
      exists_eq_left']
    rfl

theorem scaled_take (hk : 0 < k) (s : PathSearch) (e : Waiting) :
    (s.take e).scaled k = (s.scaled k).take (e.scaled k) := by
  refine scaled_ext (fun c => getElem?_labels_scaled k s c) (fun e' => ?_)
  simp only [take, Std.ExtTreeSet.mem_erase, ne_eq, Std.LawfulEqCmp.compare_eq_iff_eq,
    mem_queue_scaled]
  constructor
  · rintro ⟨hne, e₀, he₀, rfl⟩
    exact ⟨e₀, ⟨fun heq => hne (heq ▸ rfl), he₀⟩, rfl⟩
  · rintro ⟨e₀, ⟨hne, he₀⟩, rfl⟩
    exact ⟨fun heq => hne ((Waiting.scaled_inj hk).1 heq), e₀, he₀, rfl⟩

/-! ## Side by side -/

theorem distance?_scaled (k : Nat) (s : PathSearch) (c : ChipCoord) :
    (s.scaled k).distance? c = (s.distance? c).map (k * ·) := by
  rw [distance?, distance?, getElem?_labels_scaled, Option.map_map, Option.map_map]
  rfl

theorem isStale_scaled (hk : 0 < k) (s : PathSearch) (e : Waiting) :
    (s.scaled k).isStale (e.scaled k) = s.isStale e := by
  have hchip : (e.scaled k).chip = e.chip := rfl
  have hcost : ∀ known, (k * known < (e.scaled k).cost) = (known < e.cost) :=
    fun _ => propext (Nat.mul_lt_mul_left hk)
  unfold isStale
  rw [hchip, distance?_scaled]
  cases s.distance? e.chip with
  | none => rfl
  | some known => simp only [Option.map_some, hcost]

theorem improves_scaled (hk : 0 < k) (s : PathSearch) (c : ChipCoord) (cost : Nat) :
    (s.scaled k).improves c (k * cost) = s.improves c cost := by
  have hcost : ∀ known, (k * cost < k * known) = (cost < known) :=
    fun _ => propext (Nat.mul_lt_mul_left hk)
  unfold improves
  rw [distance?_scaled]
  cases s.distance? c with
  | none => rfl
  | some known => simp only [Option.map_some, hcost]

/-- The same links improve on what is known. -/
theorem relax_scaled (hk : 0 < k) (s : PathSearch) (e : Waiting) (d : Direction) {link : Link}
    (hcost : kind'.linkCost link = k * kind.linkCost link) :
    (s.scaled k).relax f kind' (e.scaled k) d link = (s.relax f kind e d link).scaled k := by
  have hsum : (e.scaled k).cost + kind'.linkCost link = k * (e.cost + kind.linkCost link) := by
    rw [hcost, Nat.mul_add]
    rfl
  simp only [relax, hsum, improves_scaled hk]
  split
  · exact (scaled_reach k s link.destination ⟨e.cost + kind.linkCost link, some (e.chip, d)⟩).symm
  · rfl

theorem visit_scaled (hf : f.ScalesCosts k kind kind') (hk : 0 < k) (s : PathSearch)
    (e : Waiting) : (s.scaled k).visit f kind' (e.scaled k) = (s.visit f kind e).scaled k := by
  have hchip : (e.scaled k).chip = e.chip := rfl
  rw [visit, visit, isStale_scaled hk, hchip]
  split
  · rfl
  · cases h : f.chip? e.chip with
    | none => rfl
    | some chip =>
        -- from any search, since following a link changes it
        have hfold : ∀ (links : List (Direction × Link)) (s : PathSearch),
            (∀ link ∈ links, f.link? e.chip link.1 = some link.2) →
            links.foldl (fun s link => s.relax f kind' (e.scaled k) link.1 link.2) (s.scaled k)
              = (links.foldl (fun s link => s.relax f kind e link.1 link.2) s).scaled k := by
          intro links
          induction links with
          | nil => intro s _; rfl
          | cons link rest ih =>
              intro s hlinks
              obtain ⟨hlink, hrest⟩ := List.forall_mem_cons.1 hlinks
              rw [List.foldl_cons, List.foldl_cons, relax_scaled hk s e link.1 (hf _ _ _ hlink),
                ih _ hrest]
        exact hfold _ s fun _ => (Fabric.mem_links_iff h).1

/-- The same chip is taken from the queue, and the same of its links are followed. -/
theorem step_scaled (hf : f.ScalesCosts k kind kind') (hk : 0 < k) (s : PathSearch) :
    (s.scaled k).step f kind' = (s.step f kind).scaled k := by
  rw [step, step, toList_queue_scaled hk, List.head?_map]
  cases s.queue.toList.head? with
  | none => rfl
  | some e =>
      show ((s.scaled k).take (e.scaled k)).visit f kind' (e.scaled k) = _
      rw [← scaled_take hk, visit_scaled hf hk]

theorem run_scaled (hf : f.ScalesCosts k kind kind') (hk : 0 < k) (source : ChipCoord) :
    run f kind' source = (run f kind source).scaled k := by
  have hsteps : ∀ n, Nat.repeat (step f kind') n (start source)
      = (Nat.repeat (step f kind) n (start source)).scaled k := by
    intro n
    induction n with
    | zero => exact (scaled_start k source).symm
    | succ n ih => rw [Nat.repeat, ih, step_scaled hf hk]; rfl
  exact hsteps _

end PathSearch

/-! ## Trees of paths -/

namespace ShortestPathTree

variable {f : Fabric} {kind kind' : RouterKind} {k : Nat}

/-- The tree of which all distances are multiplied. -/
def scaled (k : Nat) (t : ShortestPathTree) : ShortestPathTree :=
  { t with labels := t.labels.map fun _ label => label.scaled k }

theorem compute_scaled (hf : f.ScalesCosts k kind kind') (hk : 0 < k) (source : ChipCoord) :
    compute f source kind' = (compute f source kind).scaled k := by
  rw [compute, PathSearch.run_scaled hf hk]
  rfl

theorem distance?_scaled (k : Nat) (t : ShortestPathTree) (c : ChipCoord) :
    (t.scaled k).distance? c = (t.distance? c).map (k * ·) :=
  PathSearch.distance?_scaled k ⟨t.labels, ∅⟩ c

theorem hopsTo_scaled (k : Nat) (t : ShortestPathTree) (fuel : Nat) (c : ChipCoord)
    (known : List (ChipCoord × Direction)) :
    (t.scaled k).hopsTo fuel c known = t.hopsTo fuel c known := by
  induction fuel generalizing c known with
  | zero => rfl
  | succ fuel ih =>
      have hlabel : (t.scaled k).labels[c]? = (t.labels[c]?).map (PathLabel.scaled k) :=
        Std.ExtTreeMap.getElem?_map
      have hsource : (t.scaled k).source = t.source := rfl
      rw [hopsTo, hopsTo, hlabel, hsource]
      split
      · rfl
      · cases t.labels[c]? with
        | none => rfl
        | some label =>
            obtain ⟨distance, hop⟩ := label
            cases hop with
            | none => rfl
            | some hop => exact ih hop.1 ((hop.1, hop.2) :: known)

/-- The hops, and so the paths, are the same. -/
theorem pathTo?_scaled (k : Nat) (t : ShortestPathTree) (c : ChipCoord) :
    (t.scaled k).pathTo? c = t.pathTo? c := by
  have hsize : (t.scaled k).labels.size = t.labels.size := Std.ExtTreeMap.size_map
  have hcontains : (t.scaled k).labels.contains c = t.labels.contains c :=
    Std.ExtTreeMap.contains_map
  rw [pathTo?, pathTo?, hcontains, hsize, hopsTo_scaled]

end ShortestPathTree

/-! ## Routes -/

namespace RoutingJob

variable {job : RoutingJob} {kind kind' : RouterKind} {k : Nat}

/-- The trees of a cache with all distances multiplied, beside the same tables. -/
def scaledState (k : Nat) (state : PathCache × RoutingTables) : PathCache × RoutingTables :=
  (state.1.map fun _ paths => paths.scaled k, state.2)

theorem pathsFrom_scaled (hf : job.fabric.ScalesCosts k kind kind') (hk : 0 < k)
    (state : PathCache × RoutingTables) (c : ChipCoord) :
    job.pathsFrom kind' (scaledState k state).1 c = (job.pathsFrom kind state.1 c).scaled k := by
  have hcached : (scaledState k state).1[c]? = (state.1[c]?).map (ShortestPathTree.scaled k) :=
    Std.ExtTreeMap.getElem?_map
  rw [pathsFrom, pathsFrom, hcached]
  cases state.1[c]? with
  | none => exact ShortestPathTree.compute_scaled hf hk c
  | some paths => rfl

/-- A multicast tree depends on the paths only. -/
theorem treeOf_scaled (k : Nat) (paths : ShortestPathTree) (key : RoutingKey)
    (pc : PartitionedConnection) :
    job.treeOf (paths.scaled k) key pc = job.treeOf paths key pc := by
  have hadd : job.addTarget (paths.scaled k) key pc = job.addTarget paths key pc := by
    funext tree target
    simp only [addTarget, ShortestPathTree.pathTo?_scaled]
    rfl
  rw [treeOf, treeOf, hadd]

/-- A connection adds the same entries to the tables. -/
theorem addConnection_scaled (hf : job.fabric.ScalesCosts k kind kind') (hk : 0 < k)
    (state : PathCache × RoutingTables) (pc : PartitionedConnection) :
    Corresponds (fun after after' => after' = scaledState k after)
      (job.addConnection kind state pc) (job.addConnection kind' (scaledState k state) pc) := by
  unfold addConnection
  cases job.sourceOf pc with
  | error e => exact corresponds_error e
  | ok source =>
      cases job.keyOf pc with
      | error e => exact corresponds_error e
      | ok key =>
          simp only [ok_bind, pathsFrom_scaled hf hk, treeOf_scaled]
          cases job.treeOf (job.pathsFrom kind state.1 source.chip) key pc with
          | error e => exact corresponds_error e
          | ok tree =>
              have hcache : (scaledState k state).1.insert source.chip
                  ((job.pathsFrom kind state.1 source.chip).scaled k)
                  = (state.1.insert source.chip (job.pathsFrom kind state.1 source.chip)).map
                    fun _ paths => paths.scaled k := by
                refine Std.ExtTreeMap.ext_getElem? fun c => ?_
                rw [Std.ExtTreeMap.getElem?_map, getElem?_insert_of_lawful,
                  getElem?_insert_of_lawful, scaledState, Std.ExtTreeMap.getElem?_map]
                split
                · rfl
                · rfl
              exact Prod.ext hcache rfl

theorem tables_scaled (hf : job.fabric.ScalesCosts k kind kind') (hk : 0 < k) :
    job.tables kind' = job.tables kind := by
  have hstart : scaledState k (∅, .empty) = (∅, .empty) :=
    Prod.ext (Std.ExtTreeMap.ext_getElem? fun c => by simp [scaledState]) rfl
  have hall : Corresponds (fun after after' => after' = scaledState k after)
      (job.partitioned.connections.toList.foldlM (job.addConnection kind) (∅, .empty))
      (job.partitioned.connections.toList.foldlM (job.addConnection kind') (∅, .empty)) := by
    refine corresponds_foldlM (P := Eq) (List.forall₂_same.2 fun _ _ => rfl) ?_ hstart.symm
    rintro state _ pc _ rfl rfl
    exact addConnection_scaled hf hk state pc
  refine (Corresponds.eq (hall.bind fun after after' hafter => ?_)).symm
  rw [hafter]
  exact rfl

/-- Routers whose costs are in proportion return the same tables or the same error, with the same
    warnings. -/
theorem route_scaled (hf : job.fabric.ScalesCosts k kind kind') (hk : 0 < k) :
    job.route kind' = job.route kind ∧ job.routeWarnings kind' = job.routeWarnings kind := by
  rw [route, route, routeWarnings, routeWarnings, tables_scaled hf hk]
  exact ⟨rfl, rfl⟩

end RoutingJob

/-! ## Links of one speed -/

/-- All links are equally fast. -/
def Fabric.LinksOfSpeed (f : Fabric) (speed : UInt32) : Prop :=
  ∀ c d link, f.link? c d = some link → link.speed = speed

/-- What a hop over a link of some speed costs the router that looks at speeds. -/
def hopCost (speed : UInt32) : Nat := max 1 (1024 / max 1 speed.toNat)

theorem hopCost_pos (speed : UInt32) : 0 < hopCost speed := Nat.le_max_left ..

theorem Fabric.LinksOfSpeed.scalesCosts {f : Fabric} {speed : UInt32} (h : f.LinksOfSpeed speed) :
    f.ScalesCosts (hopCost speed) .shortestPath .linkSpeed := by
  intro c d link hlink
  rw [RouterKind.linkCost, RouterKind.linkCost, h c d link hlink, Nat.mul_one, hopCost]

/-- The links of a mesh are standard links. -/
theorem Fabric.linksOfSpeed_grid (width height : UInt32) (t : ChipTemplate) (wrapAround : Bool) :
    (grid width height t wrapAround).LinksOfSpeed 1 := by
  intro c d link hlink
  rw [link?_grid] at hlink
  split at hlink
  · obtain ⟨e, -, rfl⟩ := Option.map_eq_some_iff.1 hlink
    rfl
  · exact absurd hlink (by simp)

namespace RoutingJob

/-- **Where all links are equally fast, their speed does not matter.** Both routers return the same
    tables or the same error and warn of the same, and they find the same paths, whose costs differ
    by the cost of one hop. -/
theorem route_linkSpeed_eq {job : RoutingJob} {speed : UInt32}
    (h : job.fabric.LinksOfSpeed speed) :
    job.route .linkSpeed = job.route .shortestPath ∧
    job.routeWarnings .linkSpeed = job.routeWarnings .shortestPath ∧
    0 < hopCost speed ∧ ∀ source c,
      (ShortestPathTree.compute job.fabric source .linkSpeed).pathTo? c
        = (ShortestPathTree.compute job.fabric source .shortestPath).pathTo? c ∧
      (ShortestPathTree.compute job.fabric source .linkSpeed).distance? c
        = ((ShortestPathTree.compute job.fabric source .shortestPath).distance? c).map
          (hopCost speed * ·) := by
  have hpos := hopCost_pos speed
  obtain ⟨hroute, hwarnings⟩ := route_scaled h.scalesCosts hpos
  refine ⟨hroute, hwarnings, hpos, fun source c => ?_⟩
  rw [ShortestPathTree.compute_scaled h.scalesCosts hpos]
  exact ⟨ShortestPathTree.pathTo?_scaled .., ShortestPathTree.distance?_scaled ..⟩

/-- The neighbour across the diagonal costs one hop, of which the other router makes 1024. -/
theorem torusJob_linkSpeed_eq : torusJob.fabric.LinksOfSpeed 1 ∧
    torusJob.route .linkSpeed = torusJob.route .shortestPath ∧
    (ShortestPathTree.compute torusJob.fabric ⟨0, 0⟩ .linkSpeed).distance? ⟨1, 1⟩ = some 1024 := by
  have hspeed : torusJob.fabric.LinksOfSpeed 1 :=
    Fabric.linksOfSpeed_grid 2 2 ⟨3, 100, 100, 100, 8⟩ true
  obtain ⟨hroute, -, -, htrees⟩ := route_linkSpeed_eq hspeed
  have hdistance : (ShortestPathTree.compute torusJob.fabric ⟨0, 0⟩ .shortestPath).distance? ⟨1, 1⟩
      = some 1 := by decide +kernel
  refine ⟨hspeed, hroute, ?_⟩
  rw [(htrees ⟨0, 0⟩ ⟨1, 1⟩).2, hdistance]
  decide

end RoutingJob

end SpikeMesh
