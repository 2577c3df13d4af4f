import SpikeMesh.Proofs.Routing.Tables

set_option autoImplicit false

/-! # Compiled tables deliver exactly

A packet of a routed connection runs along the tree of the connection: its replay through the
compiled tables enters each chip at most once, over existing links only, and is delivered to the
locations of the targets and nowhere else. Conversely the tables hold nothing that no packet
needs: each entry of a chip belongs to a connection of its own, whose packets enter the chip. -/

namespace SpikeMesh

namespace RoutingJob

/-- Forwarding of a packet by tables over the fabric of the job. -/
def travel (job : RoutingJob) (tables : RoutingTables) (packet : UInt32) : Travel :=
  ⟨tables, job.fabric, packet⟩

variable {job : RoutingJob} {kind : RouterKind} {tables : RoutingTables}

/-! ## The replay of one connection -/

/-- What is known of a connection of compiled tables and of a packet that belongs to it: the
    routes to its targets, which make up its tree, and that the packet follows the branches of
    this tree. -/
structure Followed (job : RoutingJob) (kind : RouterKind) (tables : RoutingTables)
    (pc : PartitionedConnection) (r : Compiled) (routes : List (Location × Travel.Path))
    (packet : UInt32) : Prop where
  routes_to : List.Forall₂
    (job.RoutesTo (ShortestPathTree.compute job.fabric r.source.chip kind)) pc.targets routes
  tree_of : r.tree.ConsistsOf (routes.flatMap Prod.snd) (routes.map Prod.fst)
  lookup_iff : ∀ c e, tables.lookup? c packet = some e ↔
    ∃ b, r.tree.branches[c]? = some b ∧ e = r.entry b

namespace Followed

variable {pc : PartitionedConnection} {r : Compiled} {routes : List (Location × Travel.Path)}
  {packet : UInt32}

/-- A link that the packet takes is a hop of a route. -/
theorem mem_hops_of_mem_links (h : job.Followed kind tables pc r routes packet)
    {c : ChipCoord} {e : RoutingEntry} {d : Direction}
    (he : tables.lookup? c packet = some e) (hd : d ∈ e.links) :
    ∃ route ∈ routes, (c, d) ∈ route.2 := by
  obtain ⟨b, hb, rfl⟩ := (h.lookup_iff c e).1 he
  have hhop : (c, d) ∈ routes.flatMap Prod.snd := by
    rw [← h.tree_of.mem_links, MulticastTree.branch_of_getElem? hb]
    exact hd
  exact List.mem_flatMap.1 hhop

/-- The packet takes every hop of a route. -/
theorem lookup_of_mem_hops (h : job.Followed kind tables pc r routes packet)
    {route : Location × Travel.Path} (hr : route ∈ routes) {c : ChipCoord} {d : Direction}
    (hd : (c, d) ∈ route.2) : ∃ e, tables.lookup? c packet = some e ∧ d ∈ e.links := by
  have hhop : (c, d) ∈ routes.flatMap Prod.snd := List.mem_flatMap.2 ⟨route, hr, hd⟩
  have hc : r.tree.branches.contains c = true := (h.tree_of.mem_branches c).2 (Or.inl ⟨d, hhop⟩)
  rw [Std.ExtTreeMap.contains_eq_isSome_getElem?] at hc
  obtain ⟨b, hb⟩ := Option.isSome_iff_exists.1 hc
  refine ⟨r.entry b, (h.lookup_iff c _).2 ⟨b, hb, rfl⟩, ?_⟩
  rw [← h.tree_of.mem_links, MulticastTree.branch_of_getElem? hb] at hhop
  exact hhop

/-- The packet follows the paths of the search from the chip of the source. -/
theorem followsWays (h : job.Followed kind tables pc r routes packet) :
    (job.travel tables packet).FollowsWays
      (ShortestPathTree.compute job.fabric r.source.chip kind).pathTo? r.source.chip where
  source_way := ShortestPathTree.pathTo?_source _ _ _
  step := by
    intro c w e d hw he hd
    obtain ⟨route, hroute, hhop⟩ := h.mem_hops_of_mem_links he hd
    obtain ⟨target, -, hto⟩ := exists_partner_left h.routes_to hroute
    obtain ⟨front, back, hsplit⟩ := List.append_of_mem hhop
    have hpath := hto.path
    rw [hsplit] at hpath
    obtain ⟨hfront, link, hlink, hcont, hnext⟩ := ShortestPathTree.pathTo?_prefix hpath
    obtain rfl : front = w := Option.some.inj (hfront.symm.trans hw)
    exact ⟨link, hlink, hcont, hnext⟩

/-- The replay of the packet is a tree. -/
theorem isTree (h : job.Followed kind tables pc r routes packet) :
    (job.travel tables packet).IsTree r.source.chip :=
  h.followsWays.isTree (fun _ _ => ShortestPathTree.length_pathTo?_lt)

/-- The packet enters every chip to which a part of a route leads. -/
theorem enters_of_path (h : job.Followed kind tables pc r routes packet) {c : ChipCoord}
    {w : Travel.Path}
    (hw : (ShortestPathTree.compute job.fabric r.source.chip kind).pathTo? c = some w)
    (hhops : ∀ hop ∈ w, ∃ route ∈ routes, hop ∈ route.2) :
    (job.travel tables packet).Enters r.source.chip c := by
  refine Travel.enters_of_path hw ?_
  intro hop hmem
  obtain ⟨route, hroute, hhop⟩ := hhops hop hmem
  exact h.lookup_of_mem_hops hroute hhop

/-- The packet enters the chips of all targets. -/
theorem enters_route_end (h : job.Followed kind tables pc r routes packet)
    {route : Location × Travel.Path} (hr : route ∈ routes) :
    (job.travel tables packet).Enters r.source.chip route.1.chip := by
  obtain ⟨target, -, hto⟩ := exists_partner_left h.routes_to hr
  exact h.enters_of_path hto.path (fun hop hmem => ⟨route, hr, hmem⟩)

/-- The packet enters every chip that a route leaves. -/
theorem enters_of_mem_hops (h : job.Followed kind tables pc r routes packet)
    {route : Location × Travel.Path} (hr : route ∈ routes) {c : ChipCoord} {d : Direction}
    (hd : (c, d) ∈ route.2) : (job.travel tables packet).Enters r.source.chip c := by
  obtain ⟨target, -, hto⟩ := exists_partner_left h.routes_to hr
  obtain ⟨front, back, hsplit⟩ := List.append_of_mem hd
  have hpath := hto.path
  rw [hsplit] at hpath
  refine h.enters_of_path (ShortestPathTree.pathTo?_prefix hpath).1 (fun hop hmem => ?_)
  exact ⟨route, hr, hsplit ▸ List.mem_append_left _ hmem⟩

/-- The packet is delivered to the locations of the targets and nowhere else. -/
theorem deliversTo_iff (h : job.Followed kind tables pc r routes packet) (l : Location) :
    (job.travel tables packet).DeliversTo r.source.chip l ↔
      ∃ target ∈ pc.targets, job.placements.get? target = some l := by
  constructor
  · rintro ⟨c, -, hl⟩
    obtain ⟨rfl, e, he, hcore⟩ := Travel.mem_deliveries_iff.1 hl
    obtain ⟨b, hb, rfl⟩ := (h.lookup_iff _ _).1 he
    have hend : l ∈ routes.map Prod.fst := by
      rw [← h.tree_of.mem_cores l.chip l.core, MulticastTree.branch_of_getElem? hb]
      exact hcore
    obtain ⟨route, hroute, rfl⟩ := List.mem_map.1 hend
    obtain ⟨target, htarget, hto⟩ := exists_partner_left h.routes_to hroute
    exact ⟨target, htarget, hto.placed⟩
  · rintro ⟨target, htarget, hplaced⟩
    obtain ⟨route, hroute, hto⟩ := exists_partner_right h.routes_to htarget
    obtain rfl : route.1 = l := Option.some.inj (hto.placed.symm.trans hplaced)
    have hend : (⟨route.1.chip, route.1.core⟩ : Location) ∈ routes.map Prod.fst :=
      List.mem_map.2 ⟨route, hroute, rfl⟩
    have hc : r.tree.branches.contains route.1.chip = true :=
      (h.tree_of.mem_branches _).2 (Or.inr ⟨_, hend⟩)
    rw [Std.ExtTreeMap.contains_eq_isSome_getElem?] at hc
    obtain ⟨b, hb⟩ := Option.isSome_iff_exists.1 hc
    rw [← h.tree_of.mem_cores, MulticastTree.branch_of_getElem? hb] at hend
    exact ⟨_, h.enters_route_end hroute, Travel.mem_deliveries_iff.2
      ⟨rfl, r.entry b, (h.lookup_iff _ _).2 ⟨b, hb, rfl⟩, hend⟩⟩

/-- The packet enters every chip on which its connection has an entry. -/
theorem enters_of_branch (h : job.Followed kind tables pc r routes packet) {c : ChipCoord}
    {b : Branch} (hb : r.tree.branches[c]? = some b) :
    (job.travel tables packet).Enters r.source.chip c := by
  have hc : r.tree.branches.contains c = true := by
    rw [Std.ExtTreeMap.contains_eq_isSome_getElem?, hb, Option.isSome_some]
  rcases (h.tree_of.mem_branches c).1 hc with ⟨d, hd⟩ | ⟨core, hcore⟩
  · obtain ⟨route, hroute, hhop⟩ := List.mem_flatMap.1 hd
    exact h.enters_of_mem_hops hroute hhop
  · obtain ⟨route, hroute, heq⟩ := List.mem_map.1 hcore
    have := h.enters_route_end hroute
    rwa [heq] at this

end Followed

/-- In compiled tables every packet of a connection is followed, if no packet belongs to two
    connections. -/
theorem exists_followed {compiled : List Compiled}
    (hkeys : job.keys.Apart job.partitioned.connections.toList)
    (hall : List.Forall₂ (job.CompilesTo kind) job.partitioned.connections.toList compiled)
    (hentries : ∀ c, tables.entriesAt c = compiled.flatMap (fun r => r.entriesAt c))
    {pc : PartitionedConnection} (hpc : pc ∈ job.partitioned.connections.toList)
    {r : Compiled} (hr : job.CompilesTo kind pc r) :
    ∃ routes, ∀ packet, r.key.isMatch packet = true →
      job.Followed kind tables pc r routes packet := by
  obtain ⟨routes, hroutes, htree⟩ := treeOf_eq_ok hr.tree_built
  exact ⟨routes, fun packet hm =>
    ⟨hroutes, htree, lookup?_eq_some_iff hkeys hall hentries hpc hr hm⟩⟩

/-! ## All connections -/

/-- The packets of a connection run along a tree, to the locations of its targets and nowhere
    else. -/
structure DeliversExactly (job : RoutingJob) (tables : RoutingTables)
    (pc : PartitionedConnection) (source : Location) (key : RoutingKey) : Prop where
  source_placed : job.placements.get? pc.source = some source
  key_given : job.keys.get? pc.id = some key
  targets_placed : ∀ target ∈ pc.targets, ∃ l, job.placements.get? target = some l
  replay_isTree : ∀ packet, key.isMatch packet = true →
    (job.travel tables packet).IsTree source.chip
  delivered_iff : ∀ packet, key.isMatch packet = true → ∀ l,
    (job.travel tables packet).DeliversTo source.chip l ↔
      ∃ target ∈ pc.targets, job.placements.get? target = some l

/-- An entry of a chip is the one of a connection whose packets enter the chip. -/
structure EntryOf (job : RoutingJob) (tables : RoutingTables) (c : ChipCoord)
    (e : RoutingEntry) (pc : PartitionedConnection) : Prop where
  key_given : job.keys.get? pc.id = some e.routingKey
  chip_entered : ∃ source, job.placements.get? pc.source = some source ∧
    ∀ packet, e.routingKey.isMatch packet = true →
      (job.travel tables packet).Enters source.chip c

/-- Routing delivers the packets of every connection exactly. -/
theorem deliversExactly_of_route (hkeys : job.keys.Apart job.partitioned.connections.toList)
    (h : job.route kind = .ok tables) {pc : PartitionedConnection}
    (hpc : pc ∈ job.partitioned.connections.toList) :
    ∃ source key, job.DeliversExactly tables pc source key := by
  obtain ⟨compiled, hall, hentries⟩ := tables_eq_ok (tables_of_route h)
  obtain ⟨r, -, hr⟩ := exists_partner_right hall hpc
  obtain ⟨routes, hfollowed⟩ := exists_followed hkeys hall hentries hpc hr
  refine ⟨r.source, r.key, hr.source_placed, hr.key_given, ?_,
    fun packet hm => (hfollowed packet hm).isTree,
    fun packet hm => (hfollowed packet hm).deliversTo_iff⟩
  intro target htarget
  have hmatch : r.key.isMatch r.key.key = true := by simp [RoutingKey.isMatch]
  obtain ⟨route, -, hto⟩ := exists_partner_right (hfollowed _ hmatch).routes_to htarget
  exact ⟨route.1, hto.placed⟩

/-- The entries of a chip belong to different connections, in the order of the connections. -/
theorem entryOf_of_route (hkeys : job.keys.Apart job.partitioned.connections.toList)
    (h : job.route kind = .ok tables) (c : ChipCoord) :
    List.SublistForall₂ (job.EntryOf tables c) (tables.entriesAt c)
      job.partitioned.connections.toList := by
  obtain ⟨compiled, hall, hentries⟩ := tables_eq_ok (tables_of_route h)
  have hone : ∀ pc ∈ job.partitioned.connections.toList, ∀ r, job.CompilesTo kind pc r →
      r.entriesAt c = [] ∨ ∃ e, r.entriesAt c = [e] ∧ job.EntryOf tables c e pc := by
    intro pc hpc r hr
    unfold Compiled.entriesAt
    cases hb : r.tree.branches[c]? with
    | none => exact Or.inl rfl
    | some b =>
        obtain ⟨routes, hfollowed⟩ := exists_followed hkeys hall hentries hpc hr
        exact Or.inr ⟨r.entry b, rfl, hr.key_given, r.source, hr.source_placed,
          fun packet hm => (hfollowed packet hm).enters_of_branch hb⟩
  -- connection by connection: each puts one entry into the table of the chip, or none
  rw [hentries]
  clear hentries
  generalize job.partitioned.connections.toList = connections at hall hone
  induction hall with
  | nil => exact List.SublistForall₂.nil
  | @cons pc r connections compiled hr _ ih =>
      have hrest := ih (fun pc' hpc' => hone pc' (List.mem_cons_of_mem _ hpc'))
      rw [List.flatMap_cons]
      rcases hone pc List.mem_cons_self r hr with hnil | ⟨e, he, hentry⟩
      · rw [hnil, List.nil_append]
        exact hrest.cons_right
      · rw [he, List.singleton_append]
        exact hrest.cons hentry

/-- **Routing delivers exactly.** If no packet belongs to two connections, then after routing
    the packets of every connection run along a tree of existing links, entering no chip twice,
    and are delivered to the locations of its targets and nowhere else. Each entry of a chip
    belongs to another connection, whose packets enter the chip; there are no other entries. -/
theorem route_delivers_exactly (hkeys : job.keys.Apart job.partitioned.connections.toList)
    (h : job.route kind = .ok tables) :
    (∀ pc ∈ job.partitioned.connections.toList,
      ∃ source key, job.DeliversExactly tables pc source key) ∧
    ∀ c, List.SublistForall₂ (job.EntryOf tables c) (tables.entriesAt c)
      job.partitioned.connections.toList :=
  ⟨fun _ hpc => deliversExactly_of_route hkeys h hpc, entryOf_of_route hkeys h⟩

/-- Three slices on a torus two chips wide, where each chip has two links to its neighbour. The
    first slice sends a block of two packets to both others, the second one a single packet. -/
def torusJob : RoutingJob where
  partitioned :=
    let slices := [0, 1, 2].foldl (fun p i => p.addSlice ⟨i⟩ ⟨0, 2⟩ .zero) PartitionedGraph.empty
    (slices.addConnection ⟨0⟩ ⟨0⟩ [⟨1⟩, ⟨2⟩]).addConnection ⟨1⟩ ⟨1⟩ [⟨0⟩]
  placements := .ofList [(⟨0⟩, ⟨⟨0, 0⟩, 1⟩), (⟨1⟩, ⟨⟨1, 1⟩, 1⟩), (⟨2⟩, ⟨⟨1, 0⟩, 2⟩)]
  keys := .ofList [(⟨0⟩, ⟨4, 0xfffffffe⟩), (⟨1⟩, ⟨6, 0xffffffff⟩)]
  fabric := .grid 2 2 ⟨3, 100, 100, 100, 8⟩ true

theorem torusJob_delivers_exactly :
    torusJob.keys.Apart torusJob.partitioned.connections.toList ∧
    ∃ tables, torusJob.route .shortestPath = .ok tables ∧
      (∀ pc ∈ torusJob.partitioned.connections.toList,
        ∃ source key, torusJob.DeliversExactly tables pc source key) ∧
      ∀ c, List.SublistForall₂ (torusJob.EntryOf tables c) (tables.entriesAt c)
        torusJob.partitioned.connections.toList := by
  have hkeys : torusJob.keys.Apart torusJob.partitioned.connections.toList :=
    KeyAssignments.apart_of_not_overlaps (by decide +kernel)
  obtain ⟨tables, h⟩ := exists_eq_ok_of_isOk
    (by decide +kernel : (torusJob.route .shortestPath).isOk = true)
  exact ⟨hkeys, tables, h, route_delivers_exactly hkeys h⟩

end RoutingJob

end SpikeMesh
