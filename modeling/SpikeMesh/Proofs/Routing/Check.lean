import SpikeMesh.Proofs.Routing.Delivery
import SpikeMesh.Proofs.Routing.Trace
import SpikeMesh.Routing.Check

set_option autoImplicit false

/-! # What checked tables are known to do

The check accepts tables if all links of their entries lead to chips, no packet belongs to two
entries of a chip, and the packet that is the key of a connection itself runs in no cycle and is
delivered to all placed targets of the connection (`RoutingJob.validate_eq_ok_iff`).

This is less than an exact delivery in three ways. Copies that part may meet again on a chip;
a packet may be delivered to cores that are no target; and another packet of the connection may
follow other entries than the key does. Where a packet follows the same entries, the first two
are all that can go wrong (`RoutingJob.validate_exact_iff`). -/

namespace SpikeMesh

namespace RoutingTables

variable {f : Fabric} {t : RoutingTables} {c : ChipCoord}

/-! ## Entries -/

theorem mem_entriesAt_iff {e : RoutingEntry} :
    e ∈ t.entriesAt c ↔ ∃ table, (c, table) ∈ t.toList ∧ e ∈ table.entries := by
  simp only [entriesAt, toList, Std.ExtTreeMap.mem_toList_iff_getElem?_eq_some,
    Std.ExtTreeMap.getD_eq_getD_getElem?]
  cases t.tables[c]? with
  | none => simp [RoutingTable.empty]
  | some table => simp

theorem danglingLink?_eq_none_iff {e : RoutingEntry} :
    danglingLink? f c e = none ↔ ∀ d ∈ e.links, ∃ link, f.link? c d = some link ∧
      f.contains link.destination = true := by
  rw [danglingLink?, Option.map_eq_none_iff, List.find?_eq_none]
  refine forall_congr' fun d => ?_
  rw [Std.ExtTreeSet.mem_toList]
  cases f.link? c d with
  | none => simp
  | some link => simp

theorem findSome?_danglingLink_eq_none_iff : (t.toList.findSome? fun (c, table) =>
    table.entries.findSome? (danglingLink? f c)) = none ↔
      ∀ c, ∀ e ∈ t.entriesAt c, danglingLink? f c e = none := by
  simp only [List.findSome?_eq_none_iff, Prod.forall, mem_entriesAt_iff]
  grind

/-- The links are accepted if and only if all of them lead to chips. -/
theorem checkLinks_eq_ok_iff : t.checkLinks f = .ok () ↔
    ∀ c, ∀ e ∈ t.entriesAt c, ∀ d ∈ e.links, ∃ link, f.link? c d = some link ∧
      f.contains link.destination = true := by
  simp only [← danglingLink?_eq_none_iff, ← findSome?_danglingLink_eq_none_iff]
  unfold checkLinks
  split
  · next e he => exact iff_of_false (by simp) (by simp [he])
  · next h => exact iff_of_true rfl h

theorem collision?_eq_none_iff {entries : List RoutingEntry} : collision? entries = none ↔
    entries.Pairwise fun a b => a.routingKey.overlaps b.routingKey = false := by
  induction entries with
  | nil => simp [collision?]
  | cons a rest ih =>
      rw [collision?, List.pairwise_cons, ← ih]
      split
      · next b hb =>
          have hover := List.find?_some hb
          refine iff_of_false (by simp) fun h => ?_
          rw [h.1 b (List.mem_of_find?_eq_some hb)] at hover
          exact absurd hover (by simp)
      · next hnone =>
          rw [List.find?_eq_none] at hnone
          simp only [iff_and_self]
          exact fun _ b hb => by simpa using hnone b hb

theorem findSome?_collision_eq_none_iff : (t.toList.findSome? fun (c, table) =>
    (collision? table.entries).map fun e => (c, e)) = none ↔
      ∀ c, (t.entriesAt c).Pairwise fun a b => a.routingKey.overlaps b.routingKey = false := by
  simp only [List.findSome?_eq_none_iff, Prod.forall, Option.map_eq_none_iff,
    collision?_eq_none_iff, toList, Std.ExtTreeMap.mem_toList_iff_getElem?_eq_some]
  refine forall_congr' fun c => ?_
  rw [entriesAt, Std.ExtTreeMap.getD_eq_getD_getElem?]
  cases t.tables[c]? with
  | none => simp [RoutingTable.empty]
  | some table => simp

/-- The tables are free of collisions if and only if no two entries of a chip overlap. -/
theorem checkCollisions_eq_ok_iff : t.checkCollisions = .ok () ↔
    ∀ c, (t.entriesAt c).Pairwise fun a b => a.routingKey.overlaps b.routingKey = false := by
  rw [← findSome?_collision_eq_none_iff]
  unfold checkCollisions
  split
  · next c a b he => exact iff_of_false (by simp) (by simp [he])
  · next h => exact iff_of_true rfl h

end RoutingTables

/-! ## Trees -/

namespace Travel

variable {t : Travel} {source : ChipCoord}

/-- No chip is reached over two links from chips that a copy enters. -/
structure NeverRejoins (t : Travel) (source : ChipCoord) : Prop where
  nodup_hops : ∀ c, t.Enters source c → (t.hops c).Nodup
  hops_disjoint : ∀ a b, t.Enters source a → t.Enters source b → a ≠ b →
    List.Disjoint (t.hops a) (t.hops b)

/-- Copies that have made different numbers of hops are on different chips, if no cycle is closed
    and no copies meet again. -/
theorem NeverRejoins.arrivals_disjoint (h : t.NeverRejoins source)
    (hacyclic : ∀ c, t.Enters source c → ¬ Relation.TransGen t.Forwards c c) {i j : Nat}
    (hij : i < j) : List.Disjoint (t.arrivals source i) (t.arrivals source j) := by
  induction i generalizing j with
  | zero =>
      obtain ⟨j, rfl⟩ := Nat.exists_eq_succ_of_ne_zero (Nat.ne_of_gt hij)
      intro c hi hj
      obtain rfl := List.mem_singleton.1 hi
      obtain ⟨b, hb, hstep⟩ := List.mem_flatMap.1 hj
      exact hacyclic c (t.enters_source c) (.tail' (enters_iff.1 ⟨j, hb⟩) hstep)
  | succ i ih =>
      obtain ⟨j, rfl⟩ := Nat.exists_eq_succ_of_ne_zero (Nat.ne_of_gt (Nat.zero_lt_of_lt hij))
      intro c hi hj
      obtain ⟨a, ha, hca⟩ := List.mem_flatMap.1 hi
      obtain ⟨b, hb, hcb⟩ := List.mem_flatMap.1 hj
      by_cases hab : a = b
      · exact ih (Nat.lt_of_succ_lt_succ hij) ha (hab ▸ hb)
      · exact h.hops_disjoint a b ⟨i, ha⟩ ⟨j, hb⟩ hab hca hcb

theorem NeverRejoins.nodup_arrivals (h : t.NeverRejoins source) (n : Nat) :
    (t.arrivals source n).Nodup := by
  induction n with
  | zero => exact List.nodup_singleton source
  | succ n ih =>
      rw [arrivals, List.nodup_flatMap]
      refine ⟨fun c hc => h.nodup_hops c ⟨n, hc⟩, ih.imp_of_mem ?_⟩
      exact fun ha hb hab => h.hops_disjoint _ _ ⟨n, ha⟩ ⟨n, hb⟩ hab

/-- No two copies enter one chip if no cycle is closed and no copies meet again. -/
theorem NeverRejoins.nodup_entered (h : t.NeverRejoins source)
    (hend : ∃ n, t.arrivals source n = []) (n : Nat) : (t.entered source n).Nodup := by
  have hacyclic := acyclic_iff_terminates.2 hend
  rw [entered, List.nodup_flatMap]
  exact ⟨fun m _ => h.nodup_arrivals m,
    List.pairwise_lt_range.imp fun hij => h.arrivals_disjoint hacyclic hij⟩

/-- Copies do not meet again if no two of them enter one chip. -/
theorem neverRejoins_of_nodup_entered (h : ∀ n, (t.entered source n).Nodup) :
    t.NeverRejoins source := by
  have hround : ∀ i, (t.arrivals source i).Nodup := fun i =>
    (List.nodup_flatMap.1 (h (i + 1))).1 i (List.mem_range.2 i.lt_succ_self)
  have hapart : ∀ i j, i < j → List.Disjoint (t.arrivals source i) (t.arrivals source j) := by
    intro i j hij
    have hpair := List.pairwise_iff_getElem.1 (List.nodup_flatMap.1 (h (j + 1))).2 i j
      (by rw [List.length_range]; omega) (by rw [List.length_range]; omega) hij
    simpa only [Function.onFun, List.getElem_range] using hpair
  constructor
  · rintro c ⟨i, hi⟩
    exact (List.nodup_flatMap.1 (hround (i + 1))).1 c hi
  · rintro a b ⟨i, ha⟩ ⟨j, hb⟩ hab c hca hcb
    have hi : c ∈ t.arrivals source (i + 1) := List.mem_flatMap.2 ⟨a, ha, hca⟩
    have hj : c ∈ t.arrivals source (j + 1) := List.mem_flatMap.2 ⟨b, hb, hcb⟩
    rcases Nat.lt_trichotomy i j with hij | rfl | hij
    · exact hapart _ _ (Nat.succ_lt_succ hij) hi hj
    · have hsymm : Std.Symm (Function.onFun List.Disjoint t.hops) := ⟨fun _ _ hd _ h h' => hd h' h⟩
      exact (List.nodup_flatMap.1 (hround (i + 1))).2.forall ha hb hab hca hcb
    · exact hapart _ _ (Nat.succ_lt_succ hij) hj hi

/-- A packet that follows the same entries as another one, wherever this one goes, goes with it. -/
theorem arrivals_eq_of_lookup_eq {tables : RoutingTables} {f : Fabric} {p q : UInt32}
    (h : ∀ c, Enters ⟨tables, f, q⟩ source c → tables.lookup? c p = tables.lookup? c q) (n : Nat) :
    arrivals ⟨tables, f, p⟩ source n = arrivals ⟨tables, f, q⟩ source n := by
  induction n with
  | zero => rfl
  | succ n ih =>
      rw [arrivals, arrivals, ih]
      refine List.flatMap_congr fun c hc => ?_
      simp only [hops, h c ⟨n, hc⟩]

end Travel

/-! ## Connections -/

namespace RoutingJob

variable {job : RoutingJob} {tables : RoutingTables} {pc : PartitionedConnection}
  {components : HopGraph → List (List ChipCoord)}

/-- What the check asks of a connection: the packet that is its key comes to an end, after it was
    delivered to all placed targets. -/
structure Checked (job : RoutingJob) (tables : RoutingTables) (pc : PartitionedConnection)
    (source : Location) (key : RoutingKey) : Prop where
  source_placed : job.placements.get? pc.source = some source
  key_given : job.keys.get? pc.id = some key
  terminates : ∃ n, (job.travel tables key.key).arrivals source.chip n = []
  targets_reached : ∀ target ∈ pc.targets, ∀ l, job.placements.get? target = some l →
    (job.travel tables key.key).DeliversTo source.chip l

theorem missedTarget?_eq_none_iff (job : RoutingJob) (pc : PartitionedConnection)
    (delivered : List Location) : job.missedTarget? delivered pc = none ↔
      ∀ target ∈ pc.targets, ∀ l, job.placements.get? target = some l → l ∈ delivered := by
  simp only [missedTarget?, List.find?_eq_none, List.mem_filterMap, List.contains_iff_mem,
    Bool.not_eq_true', Bool.not_eq_false]
  grind

theorem checkConnection_of_get? {source : Location} {key : RoutingKey}
    (hsource : job.placements.get? pc.source = some source)
    (hkey : job.keys.get? pc.id = some key) :
    job.checkConnection components tables pc =
      let traversal := (job.travel tables key.key).trace source.chip
      match traversal.hops.cycle? components with
      | some chips => .error (.routingCycle key.key chips)
      | none =>
        match job.missedTarget? traversal.delivered pc with
        | some missed => .error (.routeUnreachable key.key source.chip missed.chip)
        | none => .ok () := by
  rw [checkConnection, hsource, hkey]
  rfl

theorem exists_checked_iff {source : Location} {key : RoutingKey}
    (hsource : job.placements.get? pc.source = some source)
    (hkey : job.keys.get? pc.id = some key) :
    (∃ source key, job.Checked tables pc source key) ↔ job.Checked tables pc source key := by
  constructor
  · rintro ⟨source', key', h⟩
    obtain rfl : source = source' := Option.some.inj (hsource.symm.trans h.source_placed)
    obtain rfl : key = key' := Option.some.inj (hkey.symm.trans h.key_given)
    exact h
  · exact fun h => ⟨source, key, h⟩

/-- No cycle is found on the way of a packet if and only if the packet comes to an end. -/
theorem trace_cycle?_eq_none_iff (hfinds : HopGraph.FindsComponents components) (t : Travel)
    (source : ChipCoord) :
    (t.trace source).hops.cycle? components = none ↔ ∃ n, t.arrivals source n = [] := by
  simp only [HopGraph.cycle?_eq_none_iff hfinds, Travel.trace_transGen_iff,
    ← Travel.acyclic_iff_terminates, not_and]

theorem checkConnection_eq_ok_iff (hfinds : HopGraph.FindsComponents components) :
    job.checkConnection components tables pc = .ok () ↔
      ∃ source key, job.Checked tables pc source key := by
  cases hsource : job.placements.get? pc.source with
  | none =>
      rw [checkConnection, hsource]
      refine iff_of_false (by simp) ?_
      rintro ⟨source, key, h⟩
      exact absurd (hsource.symm.trans h.source_placed) (by simp)
  | some source =>
      cases hkey : job.keys.get? pc.id with
      | none =>
          rw [checkConnection, hsource, hkey]
          refine iff_of_false (by simp) ?_
          rintro ⟨source, key, h⟩
          exact absurd (hkey.symm.trans h.key_given) (by simp)
      | some key =>
          rw [exists_checked_iff hsource hkey, checkConnection_of_get? hsource hkey]
          have hends := trace_cycle?_eq_none_iff hfinds (job.travel tables key.key) source.chip
          have hreached := missedTarget?_eq_none_iff job pc
            ((job.travel tables key.key).trace source.chip).delivered
          simp only [Travel.mem_trace_delivered_iff] at hreached
          dsimp only
          split
          · next chips hcycle =>
              refine iff_of_false (by simp) fun h => ?_
              exact absurd (hcycle.symm.trans (hends.2 h.terminates)) (by simp)
          · next hnone =>
              split
              · next missed hmissed =>
                  refine iff_of_false (by simp) fun h => ?_
                  exact absurd (hmissed.symm.trans (hreached.2 h.targets_reached)) (by simp)
              · next hmissed =>
                  exact iff_of_true rfl ⟨hsource, hkey, hends.1 hnone, hreached.1 hmissed⟩

/-- The check accepts tables if and only if their links lead to chips, their entries do not
    overlap, and the key of each connection comes to an end and reaches all placed targets. -/
theorem validateWith_eq_ok_iff (hfinds : HopGraph.FindsComponents components) :
    job.validateWith components tables = .ok () ↔
      tables.checkLinks job.fabric = .ok () ∧ tables.checkCollisions = .ok () ∧
        ∀ pc ∈ job.partitioned.connections.toList,
          ∃ source key, job.Checked tables pc source key := by
  unfold validateWith
  simp only [bind_eq_ok_iff, forM_eq_ok_iff, checkConnection_eq_ok_iff hfinds]
  constructor
  · rintro ⟨⟨⟩, hlinks, ⟨⟩, hcollisions, hall⟩
    exact ⟨hlinks, hcollisions, hall⟩
  · rintro ⟨hlinks, hcollisions, hall⟩
    exact ⟨(), hlinks, (), hcollisions, hall⟩

theorem validate_eq_ok_iff : job.validate tables = .ok () ↔
    tables.checkLinks job.fabric = .ok () ∧ tables.checkCollisions = .ok () ∧
      ∀ pc ∈ job.partitioned.connections.toList,
        ∃ source key, job.Checked tables pc source key :=
  validateWith_eq_ok_iff HopGraph.findsComponents

/-- A packet runs along a tree to the placed targets of a connection and nowhere else. -/
structure DeliversPlaced (job : RoutingJob) (tables : RoutingTables) (pc : PartitionedConnection)
    (source : Location) (packet : UInt32) : Prop where
  replay_isTree : (job.travel tables packet).IsTree source.chip
  delivered_iff : ∀ l, (job.travel tables packet).DeliversTo source.chip l ↔
    ∃ target ∈ pc.targets, job.placements.get? target = some l

/-- A packet follows the same entries as another one on all chips that this one enters. -/
def GoesWith (job : RoutingJob) (tables : RoutingTables) (source : ChipCoord)
    (packet other : UInt32) : Prop :=
  ∀ c, (job.travel tables other).Enters source c →
    tables.lookup? c packet = tables.lookup? c other

namespace GoesWith

variable {source : ChipCoord} {packet other : UInt32}

theorem arrivals_eq (h : job.GoesWith tables source packet other) (n : Nat) :
    (job.travel tables packet).arrivals source n = (job.travel tables other).arrivals source n :=
  Travel.arrivals_eq_of_lookup_eq h n

theorem enters_iff (h : job.GoesWith tables source packet other) (c : ChipCoord) :
    (job.travel tables packet).Enters source c ↔ (job.travel tables other).Enters source c := by
  simp only [Travel.Enters, h.arrivals_eq]

theorem deliversTo_iff (h : job.GoesWith tables source packet other) (l : Location) :
    (job.travel tables packet).DeliversTo source l ↔
      (job.travel tables other).DeliversTo source l := by
  simp only [Travel.DeliversTo, h.enters_iff]
  refine exists_congr fun c => and_congr_right fun hc => ?_
  simp only [Travel.deliveries, travel]
  rw [h c hc]

end GoesWith

/-- A packet takes existing links only, comes to an end, and is delivered to all placed targets of
    a connection. -/
structure ReachesPlaced (job : RoutingJob) (tables : RoutingTables) (pc : PartitionedConnection)
    (source : Location) (packet : UInt32) : Prop where
  links_exist : ∀ c, (job.travel tables packet).Enters source.chip c →
    ∀ e, tables.lookup? c packet = some e → ∀ d ∈ e.links, ∃ link,
      job.fabric.link? c d = some link ∧ job.fabric.contains link.destination = true
  terminates : ∃ n, (job.travel tables packet).arrivals source.chip n = []
  targets_reached : ∀ target ∈ pc.targets, ∀ l, job.placements.get? target = some l →
    (job.travel tables packet).DeliversTo source.chip l

theorem reachesPlaced_of_goesWith (hlinks : tables.checkLinks job.fabric = .ok ())
    {source : Location} {key : RoutingKey} (hchecked : job.Checked tables pc source key)
    {packet : UInt32} (h : job.GoesWith tables source.chip packet key.key) :
    job.ReachesPlaced tables pc source packet where
  links_exist := by
    intro c _ e he
    rw [RoutingTables.lookup?_eq_find?] at he
    exact RoutingTables.checkLinks_eq_ok_iff.1 hlinks c e (List.mem_of_find?_eq_some he)
  terminates := by
    obtain ⟨n, hn⟩ := hchecked.terminates
    exact ⟨n, (h.arrivals_eq n).trans hn⟩
  targets_reached := fun target htarget l hl =>
    (h.deliversTo_iff l).2 (hchecked.targets_reached target htarget l hl)

/-- What reaches all placed targets delivers exactly if no copies meet again and no core is
    served that is not the place of a target. -/
theorem ReachesPlaced.deliversPlaced_iff {source : Location} {packet : UInt32}
    (h : job.ReachesPlaced tables pc source packet) :
    job.DeliversPlaced tables pc source packet ↔
      (job.travel tables packet).NeverRejoins source.chip ∧
      ∀ l, (job.travel tables packet).DeliversTo source.chip l →
        ∃ target ∈ pc.targets, job.placements.get? target = some l := by
  constructor
  · exact fun hexact => ⟨Travel.neverRejoins_of_nodup_entered hexact.replay_isTree.enters_once,
      fun l => (hexact.delivered_iff l).1⟩
  · rintro ⟨hrejoins, hstray⟩
    refine ⟨⟨h.links_exist, hrejoins.nodup_entered h.terminates, h.terminates⟩, fun l => ?_⟩
    refine ⟨hstray l, ?_⟩
    rintro ⟨target, htarget, hl⟩
    exact h.targets_reached target htarget l hl

/-- **What an accepted check vouches for.** Each connection of the checked tables has a source
    and a key, and any packet that meets the entries of the key, as the key itself does, takes
    existing links only, comes to an end, and is delivered to all placed targets. It is delivered
    exactly if and only if no copies of it meet again on a chip and it is delivered to no core
    that is not the place of a target: this is not checked. -/
theorem validate_exact_iff (h : job.validate tables = .ok ())
    (hpc : pc ∈ job.partitioned.connections.toList) :
    ∃ source key, job.placements.get? pc.source = some source ∧
      job.keys.get? pc.id = some key ∧
      ∀ packet, job.GoesWith tables source.chip packet key.key →
        job.ReachesPlaced tables pc source packet ∧
        (job.DeliversPlaced tables pc source packet ↔
          (job.travel tables packet).NeverRejoins source.chip ∧
          ∀ l, (job.travel tables packet).DeliversTo source.chip l →
            ∃ target ∈ pc.targets, job.placements.get? target = some l) := by
  obtain ⟨hlinks, -, hall⟩ := validate_eq_ok_iff.1 h
  obtain ⟨source, key, hchecked⟩ := hall pc hpc
  refine ⟨source, key, hchecked.source_placed, hchecked.key_given, fun packet hgoes => ?_⟩
  have hreaches := reachesPlaced_of_goesWith hlinks hchecked hgoes
  exact ⟨hreaches, hreaches.deliversPlaced_iff⟩

/-- Two slices on neighbouring chips, the first of which sends to the second. -/
def neighbourJob : RoutingJob where
  partitioned :=
    let slices := [0, 1].foldl (fun p i => p.addSlice ⟨i⟩ ⟨0, 1⟩ .zero) PartitionedGraph.empty
    slices.addConnection ⟨0⟩ ⟨0⟩ [⟨1⟩]
  placements := .ofList [(⟨0⟩, ⟨⟨0, 0⟩, 1⟩), (⟨1⟩, ⟨⟨1, 0⟩, 2⟩)]
  keys := .ofList [(⟨0⟩, ⟨7, 0xffffffff⟩)]
  fabric := .grid 2 1 ⟨4, 10, 10, 40, 8⟩ false

/-- Tables that send the packet east and deliver it to cores of the chip there. -/
def neighbourTables (cores : List UInt32) : RoutingTables :=
  (RoutingTables.empty.push ⟨0, 0⟩ ⟨7, 0xffffffff, .ofList [Direction.east], ∅⟩).push ⟨1, 0⟩
    ⟨7, 0xffffffff, ∅, .ofList cores⟩

/-- They are accepted with the core of the second slice, whether or not another core is served. -/
theorem neighbourTables_accepted {cores : List UInt32} (h : cores ∈ [[2], [2, 3]]) :
    neighbourJob.validate (neighbourTables cores) = .ok () := by
  have hchecks : ∀ cores ∈ [[2], [2, 3]],
      (neighbourTables cores).checkLinks neighbourJob.fabric = .ok () ∧
      (neighbourTables cores).checkCollisions = .ok () ∧
      ∀ pc ∈ neighbourJob.partitioned.connections.toList,
        neighbourJob.placements.get? pc.source = some ⟨⟨0, 0⟩, 1⟩ ∧
        neighbourJob.keys.get? pc.id = some ⟨7, 0xffffffff⟩ ∧
        (neighbourJob.travel (neighbourTables cores) 7).arrivals ⟨0, 0⟩ 2 = [] ∧
        neighbourJob.missedTarget?
          ((neighbourJob.travel (neighbourTables cores) 7).trace ⟨0, 0⟩).delivered pc = none := by
    decide +kernel
  obtain ⟨hlinks, hcollisions, hall⟩ := hchecks cores h
  refine validate_eq_ok_iff.2 ⟨hlinks, hcollisions, ?_⟩
  intro pc hpc
  obtain ⟨hsource, hkey, hend, hmissed⟩ := hall pc hpc
  refine ⟨⟨⟨0, 0⟩, 1⟩, ⟨7, 0xffffffff⟩, hsource, hkey, ⟨2, hend⟩, ?_⟩
  intro target htarget l hl
  exact Travel.mem_trace_delivered_iff.1
    ((missedTarget?_eq_none_iff ..).1 hmissed target htarget l hl)

theorem neighbourTables_exact_iff :
    ∃ pc ∈ neighbourJob.partitioned.connections.toList,
      neighbourJob.validate (neighbourTables [2]) = .ok () ∧
      ∃ source key, neighbourJob.placements.get? pc.source = some source ∧
        neighbourJob.keys.get? pc.id = some key ∧
        ∀ packet, neighbourJob.GoesWith (neighbourTables [2]) source.chip packet key.key →
          neighbourJob.ReachesPlaced (neighbourTables [2]) pc source packet ∧
          (neighbourJob.DeliversPlaced (neighbourTables [2]) pc source packet ↔
            (neighbourJob.travel (neighbourTables [2]) packet).NeverRejoins source.chip ∧
            ∀ l, (neighbourJob.travel (neighbourTables [2]) packet).DeliversTo source.chip l →
              ∃ target ∈ pc.targets, neighbourJob.placements.get? target = some l) := by
  have hpc : (⟨⟨0⟩, ⟨0⟩, ⟨0⟩, [⟨1⟩]⟩ : PartitionedConnection) ∈
      neighbourJob.partitioned.connections.toList := by decide +kernel
  have hok : neighbourJob.validate (neighbourTables [2]) = .ok () :=
    neighbourTables_accepted (by simp)
  exact ⟨_, hpc, hok, validate_exact_iff hok hpc⟩

/-- Tables are accepted that deliver the packet to a core that is the place of no target. -/
theorem neighbourTables_accepted_stray :
    ¬ (neighbourJob.validate (neighbourTables [2, 3]) = .ok () →
      ∀ pc ∈ neighbourJob.partitioned.connections.toList, ∃ source key,
        neighbourJob.placements.get? pc.source = some source ∧
        neighbourJob.keys.get? pc.id = some key ∧
        ∀ packet, key.isMatch packet = true →
          neighbourJob.DeliversPlaced (neighbourTables [2, 3]) pc source packet) := by
  intro hall
  have hpc : (⟨⟨0⟩, ⟨0⟩, ⟨0⟩, [⟨1⟩]⟩ : PartitionedConnection) ∈
      neighbourJob.partitioned.connections.toList := by decide +kernel
  obtain ⟨source, key, hsource, hkey, hexact⟩ := hall (neighbourTables_accepted (by simp)) _ hpc
  obtain rfl : source = ⟨⟨0, 0⟩, 1⟩ :=
    Option.some.inj (hsource.symm.trans (by decide +kernel))
  obtain rfl : key = ⟨7, 0xffffffff⟩ := Option.some.inj (hkey.symm.trans (by decide +kernel))
  have hstray : (neighbourJob.travel (neighbourTables [2, 3]) 7).DeliversTo ⟨0, 0⟩
      ⟨⟨1, 0⟩, 3⟩ :=
    ⟨⟨1, 0⟩, ⟨1, by decide +kernel⟩, by decide +kernel⟩
  obtain ⟨target, htarget, hplaced⟩ := ((hexact 7 (by decide)).delivered_iff _).1 hstray
  obtain rfl : target = ⟨1⟩ := by simpa using htarget
  exact absurd hplaced (by decide +kernel)

end RoutingJob

end SpikeMesh
