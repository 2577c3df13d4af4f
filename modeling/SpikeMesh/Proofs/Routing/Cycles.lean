import SpikeMesh.Proofs.Routing.Acceptance

set_option autoImplicit false

/-! # The verdict of the check

The cycle that the check reports is closed by hops of the trace, so it lies on the way of the packet
and each step of it is a link of the entry that the packet follows there
(`Travel.trace_cycle?_isCycle`). With this the verdict of the check is known in full, whatever
function finds the strongly connected components (`RoutingJob.validate_verdict`). -/

namespace SpikeMesh

namespace Travel

variable {t : Travel} {source start c : ChipCoord} {chips : List ChipCoord}
  {components : HopGraph → List (List ChipCoord)}

/-! ## The cycle that is reported -/

/-- A link of an entry that matches the packet leads from a chip to another one. -/
def LinkTaken (t : Travel) (a b : ChipCoord) : Prop :=
  ∃ e ∈ t.tables.entriesAt a, e.routingKey.isMatch t.packet = true ∧
    ∃ d ∈ e.links, ∃ link, t.fabric.link? a d = some link ∧ link.destination = b

theorem Forwards.linkTaken {a b : ChipCoord} (h : t.Forwards a b) : t.LinkTaken a b := by
  obtain ⟨e, he, d, hd, link, hlink, hdestination⟩ := mem_hops_iff.1 h
  rw [RoutingTables.lookup?_eq_find?] at he
  have hmatch : e.routingKey.isMatch t.packet = true := by simpa using List.find?_some he
  exact ⟨e, List.mem_of_find?_eq_some he, hmatch, d, hd, link, hlink, hdestination⟩

/-- A cycle on the way of a packet from a source, which begins and ends at its lowest chip. -/
structure IsCycle (t : Travel) (source start : ChipCoord) (passed : List ChipCoord) : Prop
    extends ClosedWalk t.Forwards start passed where
  linked : (start :: (passed ++ [start])).IsChain t.LinkTaken
  entered : t.Enters source start
  lowest : ∀ c ∈ passed, compare start c = .lt

/-- **What is reported is a cycle.** -/
theorem trace_cycle?_isCycle (hfinds : HopGraph.FindsComponents components)
    (h : (t.trace source).hops.cycle? components = some chips) :
    ∃ start passed, chips = start :: (passed ++ [start]) ∧ t.IsCycle source start passed := by
  obtain ⟨start, passed, hchips, hclosed, hlowest⟩ := HopGraph.cycle?_closes hfinds h
  have hforwards : ClosedWalk t.Forwards start passed :=
    hclosed.imp fun _ _ hhop => (trace_hop_iff.1 hhop).2
  exact ⟨start, passed, hchips, hforwards, hforwards.follows.imp fun _ _ => Forwards.linkTaken,
    (trace_transGen_iff.1 hclosed.transGen).1, hlowest⟩

end Travel

/-! ## The verdict -/

theorem RoutingKey.overlaps_eq_false_iff {a b : RoutingKey} : a.overlaps b = false ↔
    ¬ ∃ packet, a.isMatch packet = true ∧ b.isMatch packet = true := by
  rw [Bool.eq_false_iff, not_iff_not]
  exact ⟨exists_isMatch_of_overlaps, fun ⟨_, ha, hb⟩ => overlaps_of_isMatch ha hb⟩

namespace RoutingTables

theorem checkLinks_ne_routingCycle (f : Fabric) (tables : RoutingTables) {packet : UInt32}
    {chips : List ChipCoord} : tables.checkLinks f ≠ .error (.routingCycle packet chips) := by
  unfold checkLinks
  split
  · next e he =>
      obtain ⟨_, -, htable⟩ := List.exists_of_findSome?_eq_some he
      obtain ⟨_, -, hentry⟩ := List.exists_of_findSome?_eq_some htable
      obtain ⟨d, -, rfl⟩ := Option.map_eq_some_iff.1 hentry
      simp
  · simp

theorem checkCollisions_ne_routingCycle (tables : RoutingTables) {packet : UInt32}
    {chips : List ChipCoord} : tables.checkCollisions ≠ .error (.routingCycle packet chips) := by
  unfold checkCollisions
  split <;> simp

end RoutingTables

namespace RoutingJob

variable {job : RoutingJob} {tables : RoutingTables} {pc : PartitionedConnection}
  {components : HopGraph → List (List ChipCoord)}

/-- A connection has a placed source and a key, no cycle lies on the way of the key, and the key is
    delivered to all targets that are placed. -/
structure RunsOut (job : RoutingJob) (tables : RoutingTables) (pc : PartitionedConnection)
    (source : Location) (key : RoutingKey) : Prop where
  source_placed : job.placements.get? pc.source = some source
  key_given : job.keys.get? pc.id = some key
  acyclic : ∀ c, (job.travel tables key.key).Enters source.chip c →
    ¬ Relation.TransGen (job.travel tables key.key).Forwards c c
  targets_reached : ∀ target ∈ pc.targets, ∀ l, job.placements.get? target = some l →
    (job.travel tables key.key).DeliversTo source.chip l

theorem checked_iff_runsOut {source : Location} {key : RoutingKey} :
    job.Checked tables pc source key ↔ job.RunsOut tables pc source key := by
  have hacyclic : (∃ n, (job.travel tables key.key).arrivals source.chip n = []) ↔
      ∀ c, (job.travel tables key.key).Enters source.chip c →
        ¬ Relation.TransGen (job.travel tables key.key).Forwards c c := by
    exact Travel.acyclic_iff_terminates.symm
  exact ⟨fun h => ⟨h.source_placed, h.key_given, hacyclic.1 h.terminates, h.targets_reached⟩,
    fun h => ⟨h.source_placed, h.key_given, hacyclic.2 h.acyclic, h.targets_reached⟩⟩

/-- A check that reports a cycle found it on the way of the key of a connection. -/
theorem checkConnection_eq_routingCycle {packet : UInt32} {chips : List ChipCoord}
    (h : job.checkConnection components tables pc = .error (.routingCycle packet chips)) :
    ∃ source key, job.placements.get? pc.source = some source ∧
      job.keys.get? pc.id = some key ∧ packet = key.key ∧
      ((job.travel tables packet).trace source.chip).hops.cycle? components = some chips := by
  cases hsource : job.placements.get? pc.source with
  | none => exact absurd h (by simp [checkConnection, hsource])
  | some source =>
      cases hkey : job.keys.get? pc.id with
      | none => exact absurd h (by simp [checkConnection, hsource, hkey])
      | some key =>
          rw [checkConnection_of_get? hsource hkey] at h
          dsimp only at h
          split at h
          · next found hcycle =>
              obtain ⟨rfl, rfl⟩ := PipelineError.routingCycle.inj (Except.error.inj h)
              exact ⟨source, key, rfl, rfl, rfl, hcycle⟩
          · split at h
            · exact absurd h (by simp)
            · exact absurd h (by simp)

/-- Cycles are reported by the checks of the connections only. -/
theorem validateWith_eq_routingCycle {packet : UInt32} {chips : List ChipCoord}
    (h : job.validateWith components tables = .error (.routingCycle packet chips)) :
    ∃ pc ∈ job.partitioned.connections.toList,
      job.checkConnection components tables pc = .error (.routingCycle packet chips) := by
  have hvalidate : FailsWith
      (fun e => e = .routingCycle packet chips → ∃ pc ∈ job.partitioned.connections.toList,
        job.checkConnection components tables pc = .error e)
      (job.validateWith components tables) := by
    refine FailsWith.bind ?_ fun _ => FailsWith.bind ?_ fun _ => ?_
    · intro e he hcycle
      exact absurd (hcycle ▸ he) (RoutingTables.checkLinks_ne_routingCycle _ _)
    · intro e he hcycle
      exact absurd (hcycle ▸ he) (RoutingTables.checkCollisions_ne_routingCycle _)
    · exact failsWith_forM fun pc hpc e he _ => ⟨pc, hpc, he⟩
  exact hvalidate _ h rfl

/-- The check does not depend on the function that finds the components. -/
theorem validateWith_eq_validate (hfinds : HopGraph.FindsComponents components) :
    job.validateWith components tables = job.validate tables := by
  have hcheck : job.checkConnection components tables
      = job.checkConnection HopGraph.components tables := by
    funext pc
    simp only [checkConnection, HopGraph.cycle?_eq hfinds HopGraph.findsComponents]
  rw [validate, validateWith, validateWith, hcheck]

/-- **The verdict of the check.** Let strongly connected components be found by whatever function
    does what is documented of it. Tables are accepted if and only if every link of every entry
    leads to a chip, no packet belongs to two entries of a chip, and every connection has a source
    and a key whose way is free of cycles and reaches all placed targets. A cycle that is reported
    lies on the way of the key of a connection: every chip on it forwards the key to the next one,
    over a link of the entry that the key follows there, the last chip is the first one, no other
    chip comes twice, and the first one is the lowest. The verdict is that of the check with the
    components computed here. -/
theorem validate_verdict (job : RoutingJob) (tables : RoutingTables)
    (hfinds : HopGraph.FindsComponents components) :
    (job.validateWith components tables = .ok () ↔
      (∀ c, ∀ e ∈ tables.entriesAt c, ∀ d ∈ e.links, ∃ link, job.fabric.link? c d = some link ∧
        job.fabric.contains link.destination = true) ∧
      (∀ c, (tables.entriesAt c).Pairwise fun a b => ¬ ∃ packet,
        a.routingKey.isMatch packet = true ∧ b.routingKey.isMatch packet = true) ∧
      ∀ pc ∈ job.partitioned.connections.toList, ∃ source key,
        job.RunsOut tables pc source key) ∧
    (∀ packet chips, job.validateWith components tables = .error (.routingCycle packet chips) →
      ∃ pc ∈ job.partitioned.connections.toList, ∃ source key,
        job.placements.get? pc.source = some source ∧ job.keys.get? pc.id = some key ∧
        packet = key.key ∧ ∃ start passed, chips = start :: (passed ++ [start]) ∧
          (job.travel tables packet).IsCycle source.chip start passed) ∧
    job.validate tables = job.validateWith components tables := by
  refine ⟨?_, ?_, (validateWith_eq_validate hfinds).symm⟩
  · simp only [validateWith_eq_ok_iff hfinds, RoutingTables.checkLinks_eq_ok_iff,
      RoutingTables.checkCollisions_eq_ok_iff, RoutingKey.overlaps_eq_false_iff,
      checked_iff_runsOut]
  · intro packet chips h
    obtain ⟨pc, hpc, hcheck⟩ := validateWith_eq_routingCycle h
    obtain ⟨source, key, hsource, hkey, hpacket, hcycle⟩ := checkConnection_eq_routingCycle hcheck
    exact ⟨pc, hpc, source, key, hsource, hkey, hpacket,
      Travel.trace_cycle?_isCycle hfinds hcycle⟩

/-- Tables that send the packet of the neighbours around three chips, away from its source. -/
def circlingTables : RoutingTables :=
  [((⟨0, 0⟩ : ChipCoord), Direction.east), (⟨1, 0⟩, .east), (⟨2, 0⟩, .north),
    (⟨2, 1⟩, .southWest)].foldl
      (fun tables e => tables.push e.1 ⟨7, 0xffffffff, .ofList [e.2], ∅⟩) .empty

/-- The packet is found to circle. -/
theorem circlingTables_verdict :
    let job : RoutingJob := { neighbourJob with fabric := .grid 3 3 ⟨4, 1, 1, 1, 16⟩ false }
    let chips : List ChipCoord := [⟨1, 0⟩, ⟨2, 0⟩, ⟨2, 1⟩, ⟨1, 0⟩]
    HopGraph.FindsComponents HopGraph.components ∧
      job.validateWith HopGraph.components circlingTables = .error (.routingCycle 7 chips) ∧
      ∃ pc ∈ job.partitioned.connections.toList, ∃ source key,
        job.placements.get? pc.source = some source ∧ job.keys.get? pc.id = some key ∧
        7 = key.key ∧ ∃ start passed, chips = start :: (passed ++ [start]) ∧
          (job.travel circlingTables 7).IsCycle source.chip start passed := by
  intro job chips
  let pc : PartitionedConnection := ⟨⟨0⟩, ⟨0⟩, ⟨0⟩, [⟨1⟩]⟩
  have hcycle : ((job.travel circlingTables 7).trace ⟨0, 0⟩).hops.cycle? HopGraph.components
      = some chips := by decide +kernel
  have hcheck : job.checkConnection HopGraph.components circlingTables pc
      = .error (.routingCycle 7 chips) := by
    have hsource : job.placements.get? pc.source = some ⟨⟨0, 0⟩, 1⟩ := by decide +kernel
    have hkey : job.keys.get? pc.id = some ⟨7, 0xffffffff⟩ := by decide +kernel
    rw [checkConnection_of_get? hsource hkey]
    simp only [hcycle]
  have hreport : job.validateWith HopGraph.components circlingTables
      = .error (.routingCycle 7 chips) := by
    have hlinks : circlingTables.checkLinks job.fabric = .ok () := by decide +kernel
    have hcollisions : circlingTables.checkCollisions = .ok () := by decide +kernel
    rw [validateWith, hlinks, hcollisions, ok_bind, ok_bind]
    show (job.checkConnection HopGraph.components circlingTables pc >>= fun _ => _) = _
    rw [hcheck, error_bind]
  obtain ⟨-, hcycles, -⟩ := validate_verdict job circlingTables HopGraph.findsComponents
  exact ⟨HopGraph.findsComponents, hreport, hcycles 7 chips hreport⟩

end RoutingJob

end SpikeMesh
