import SpikeMesh.Proofs.Fabric.Attachment
import SpikeMesh.Proofs.Routing.Delivery

set_option autoImplicit false

/-! # Tables of the mesh alone

A virtual chip hangs on one link, so a path that enters it can only go back to the chip from which
it came, and no path of a search passes a chip twice. So packets from a chip of the mesh leave no
virtual chip, and the tables of the mesh forward them as all tables together do. -/

namespace SpikeMesh

/-! ## Paths across the mesh -/

/-- A path from a chip of the mesh leaves no virtual chip. -/
theorem Fabric.Joined.isVirtual_of_mem_path {f : Fabric} (hf : f.Joined) {source c : ChipCoord}
    {kind : RouterKind} (hsource : f.isVirtual source = false) {w : Travel.Path}
    (hw : (ShortestPathTree.compute f source kind).pathTo? c = some w) :
    ∀ hop ∈ w, f.isVirtual hop.1 = false := by
  rintro ⟨v, d⟩ hmem
  rw [← Bool.not_eq_true]
  intro hvirtual
  obtain ⟨front, rest, rfl⟩ := List.append_of_mem hmem
  obtain ⟨hv, link, hlink, -, hnext⟩ := ShortestPathTree.pathTo?_prefix hw
  obtain rfl | ⟨front, ⟨before, e⟩, rfl⟩ := List.eq_nil_or_concat' front
  · rw [ShortestPathTree.pathTo?_eq_nil hv, hsource] at hvirtual
    exact absurd hvirtual (by simp)
  · obtain ⟨hbefore, entry, hentry, rfl, -⟩ := ShortestPathTree.pathTo?_snoc hv
    -- the only link of the virtual chip leads back to the chip before, which has a shorter path
    obtain ⟨back, hback, hdestination⟩ := (hf.joins before e entry hentry).exists_back
    obtain rfl := hf.one_link entry.destination hvirtual d e.opposite link back hlink hback
    obtain rfl : link = back := Option.some.inj (hlink.symm.trans hback)
    rw [hdestination, hbefore, Option.some.injEq] at hnext
    exact absurd (congrArg List.length hnext) (by simp)

/-! ## Replays by the tables of the mesh -/

/-- The tables with entries of the chips of the mesh. -/
def RoutingTables.onMesh (t : RoutingTables) (f : Fabric) : RoutingTables :=
  ⟨t.tables.filter fun c table => !table.isEmpty && !f.isVirtual c⟩

theorem RoutingTables.table?_onMesh_eq_some_iff {t : RoutingTables} {f : Fabric} {c : ChipCoord}
    {table : RoutingTable} : (t.onMesh f).table? c = some table ↔
      t.table? c = some table ∧ table.isEmpty = false ∧ f.isVirtual c = false := by
  show (t.tables.filter fun c table => !table.isEmpty && !f.isVirtual c)[c]? = some table ↔ _
  rw [Std.ExtTreeMap.getElem?_filter', Option.filter_eq_some_iff, Bool.and_eq_true,
    Bool.not_eq_true', Bool.not_eq_true']
  rfl

/-- On a chip of the mesh a packet follows the entry that it follows by all tables. -/
theorem RoutingTables.lookup?_onMesh_eq_some_iff {t : RoutingTables} {f : Fabric} {c : ChipCoord}
    {packet : UInt32} {e : RoutingEntry} : (t.onMesh f).lookup? c packet = some e ↔
      f.isVirtual c = false ∧ t.lookup? c packet = some e := by
  rw [lookup?, lookup?]
  simp only [Option.bind_eq_bind, Option.bind_eq_some_iff, table?_onMesh_eq_some_iff]
  constructor
  · rintro ⟨table, ⟨htable, -, hreal⟩, he⟩
    exact ⟨hreal, table, htable, he⟩
  · rintro ⟨hreal, table, htable, he⟩
    refine ⟨table, ⟨htable, ?_, hreal⟩, he⟩
    exact List.isEmpty_eq_false_iff.2 (List.ne_nil_of_mem (List.mem_of_find?_eq_some he))

/-- A copy of the packet is sent from a chip of the mesh over a link to a chip. -/
def Travel.ForwardsTo (t : Travel) (source c : ChipCoord) : Prop :=
  ∃ before, t.Enters source before ∧ t.fabric.isVirtual before = false ∧
    ∃ e, t.tables.lookup? before t.packet = some e ∧ ∃ d ∈ e.links, ∃ link,
      t.fabric.link? before d = some link ∧ link.destination = c

namespace RoutingJob.Followed

variable {job : RoutingJob} {kind : RouterKind} {tables : RoutingTables}
  {pc : PartitionedConnection} {r : Compiled} {routes : List (Location × Travel.Path)}
  {packet : UInt32}

/-- Every hop of a route is taken by the tables of the mesh. -/
theorem lookup_onMesh_of_mem_hops (h : job.Followed kind tables pc r routes packet)
    (hf : job.fabric.Joined) (hsource : job.fabric.isVirtual r.source.chip = false)
    {route : Location × Travel.Path} (hr : route ∈ routes) {hop : ChipCoord × Direction}
    (hhop : hop ∈ route.2) : job.fabric.isVirtual hop.1 = false ∧
      ∃ e, (tables.onMesh job.fabric).lookup? hop.1 packet = some e ∧ hop.2 ∈ e.links := by
  obtain ⟨target, -, hto⟩ := exists_partner_left h.routes_to hr
  have hreal := hf.isVirtual_of_mem_path hsource hto.path hop hhop
  obtain ⟨e, he, hd⟩ := h.lookup_of_mem_hops hr hhop
  exact ⟨hreal, e, RoutingTables.lookup?_onMesh_eq_some_iff.2 ⟨hreal, he⟩, hd⟩

/-- By the tables of the mesh the packet enters every chip to which a part of a route leads. -/
theorem enters_onMesh_of_path (h : job.Followed kind tables pc r routes packet)
    (hf : job.fabric.Joined) (hsource : job.fabric.isVirtual r.source.chip = false) {c : ChipCoord}
    {w : Travel.Path}
    (hw : (ShortestPathTree.compute job.fabric r.source.chip kind).pathTo? c = some w)
    (hhops : ∀ hop ∈ w, ∃ route ∈ routes, hop ∈ route.2) :
    (job.travel (tables.onMesh job.fabric) packet).Enters r.source.chip c := by
  refine Travel.enters_of_path hw ?_
  intro hop hmem
  obtain ⟨route, hroute, hhop⟩ := hhops hop hmem
  exact (h.lookup_onMesh_of_mem_hops hf hsource hroute hhop).2

/-- By the tables of the mesh the packet is delivered to the targets on the mesh and nowhere
    else. -/
theorem deliversTo_onMesh_iff (h : job.Followed kind tables pc r routes packet)
    (hf : job.fabric.Joined) (hsource : job.fabric.isVirtual r.source.chip = false) (l : Location) :
    (job.travel (tables.onMesh job.fabric) packet).DeliversTo r.source.chip l ↔
      job.fabric.isVirtual l.chip = false ∧
        ∃ target ∈ pc.targets, job.placements.get? target = some l := by
  have hall := h.deliversTo_iff l
  constructor
  · rintro ⟨c, -, hl⟩
    obtain ⟨rfl, e, he, hcore⟩ := Travel.mem_deliveries_iff.1 hl
    obtain ⟨hreal, he⟩ := RoutingTables.lookup?_onMesh_eq_some_iff.1 he
    obtain ⟨b, hb, -⟩ := (h.lookup_iff _ _).1 he
    exact ⟨hreal, hall.1 ⟨l.chip, h.enters_of_branch hb,
      Travel.mem_deliveries_iff.2 ⟨rfl, e, he, hcore⟩⟩⟩
  · rintro ⟨hreal, target, htarget, hplaced⟩
    obtain ⟨route, hroute, hto⟩ := exists_partner_right h.routes_to htarget
    obtain rfl : route.1 = l := Option.some.inj (hto.placed.symm.trans hplaced)
    obtain ⟨c, -, hdelivered⟩ := hall.2 ⟨target, htarget, hplaced⟩
    obtain ⟨rfl, e, he, hcore⟩ := Travel.mem_deliveries_iff.1 hdelivered
    refine ⟨route.1.chip, h.enters_onMesh_of_path hf hsource hto.path
      (fun hop hmem => ⟨route, hroute, hmem⟩), Travel.mem_deliveries_iff.2 ⟨rfl, e, ?_, hcore⟩⟩
    exact RoutingTables.lookup?_onMesh_eq_some_iff.2 ⟨hreal, he⟩

/-- By the tables of the mesh the packet is sent over a link to the chip of every target that is not
    on the mesh. -/
theorem forwardsTo_onMesh (h : job.Followed kind tables pc r routes packet)
    (hf : job.fabric.Joined) (hsource : job.fabric.isVirtual r.source.chip = false)
    {target : SliceId} (htarget : target ∈ pc.targets) {l : Location}
    (hplaced : job.placements.get? target = some l)
    (hvirtual : job.fabric.isVirtual l.chip = true) :
    (job.travel (tables.onMesh job.fabric) packet).ForwardsTo r.source.chip l.chip := by
  obtain ⟨route, hroute, hto⟩ := exists_partner_right h.routes_to htarget
  obtain rfl : route.1 = l := Option.some.inj (hto.placed.symm.trans hplaced)
  have hpath := hto.path
  obtain hnil | ⟨w, ⟨before, d⟩, hlast⟩ := List.eq_nil_or_concat' route.2
  · rw [hnil] at hpath
    rw [ShortestPathTree.pathTo?_eq_nil hpath, hsource] at hvirtual
    exact absurd hvirtual (by simp)
  · rw [hlast] at hpath
    obtain ⟨hbefore, link, hlink, hdestination, -⟩ := ShortestPathTree.pathTo?_snoc hpath
    obtain ⟨hreal, e, he, hd⟩ := h.lookup_onMesh_of_mem_hops hf hsource hroute
      (hlast ▸ List.mem_append_right w (List.mem_singleton_self (before, d)))
    refine ⟨before, h.enters_onMesh_of_path hf hsource hbefore (fun hop hmem => ?_), hreal, e, he,
      d, hd, link, hlink, hdestination⟩
    exact ⟨route, hroute, hlast ▸ List.mem_append_left _ hmem⟩

end RoutingJob.Followed

namespace RoutingJob

variable {job : RoutingJob} {kind : RouterKind} {tables : RoutingTables}

/-- By the tables of the mesh the packets of a connection are delivered to the targets on the mesh
    and nowhere else, and are sent over a link to the chips of all other targets. -/
structure DeliversOnMesh (job : RoutingJob) (tables : RoutingTables) (pc : PartitionedConnection)
    (source : Location) (key : RoutingKey) : Prop where
  key_given : job.keys.get? pc.id = some key
  targets_placed : ∀ target ∈ pc.targets, ∃ l, job.placements.get? target = some l
  delivered_iff : ∀ packet, key.isMatch packet = true → ∀ l,
    (job.travel (tables.onMesh job.fabric) packet).DeliversTo source.chip l ↔
      job.fabric.isVirtual l.chip = false ∧
        ∃ target ∈ pc.targets, job.placements.get? target = some l
  forwarded : ∀ packet, key.isMatch packet = true → ∀ target ∈ pc.targets, ∀ l,
    job.placements.get? target = some l → job.fabric.isVirtual l.chip = true →
      (job.travel (tables.onMesh job.fabric) packet).ForwardsTo source.chip l.chip

theorem deliversOnMesh_of_route (hkeys : job.keys.Apart job.partitioned.connections.toList)
    (hf : job.fabric.Joined) (h : job.route kind = .ok tables) {pc : PartitionedConnection}
    (hpc : pc ∈ job.partitioned.connections.toList) {source : Location}
    (hsource : job.placements.get? pc.source = some source)
    (hreal : job.fabric.isVirtual source.chip = false) :
    ∃ key, job.DeliversOnMesh tables pc source key := by
  obtain ⟨compiled, hall, hentries⟩ := tables_eq_ok (tables_of_route h)
  obtain ⟨r, -, hr⟩ := exists_partner_right hall hpc
  obtain rfl : r.source = source := Option.some.inj (hr.source_placed.symm.trans hsource)
  obtain ⟨routes, hfollowed⟩ := exists_followed hkeys hall hentries hpc hr
  obtain ⟨source', key', hexact⟩ := deliversExactly_of_route hkeys h hpc
  refine ⟨r.key, hr.key_given, hexact.targets_placed, ?_, ?_⟩
  · intro packet hm l
    exact (hfollowed packet hm).deliversTo_onMesh_iff hf hreal l
  · intro packet hm target htarget l hplaced hvirtual
    exact (hfollowed packet hm).forwardsTo_onMesh hf hreal htarget hplaced hvirtual

end RoutingJob

end SpikeMesh
