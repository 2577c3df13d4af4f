import SpikeMesh.Proofs.Routing.Check

set_option autoImplicit false

/-! # Compiled tables pass the check

Two entries of a chip belong to two connections, so they have no packet in common if the keys of
the connections have none. Then a packet that belongs to an entry follows it, and every link of
the entry is one that a packet takes on its tree (`RoutingJob.validate_of_route`). -/

namespace SpikeMesh

/-! ## Packets and entries -/

namespace RoutingKey

theorem isMatch_key (k : RoutingKey) : k.isMatch k.key = true := by simp [isMatch]

/-- Keys that overlap have a common packet. -/
theorem exists_isMatch_of_overlaps {a b : RoutingKey} (h : a.overlaps b = true) :
    ∃ packet, a.isMatch packet = true ∧ b.isMatch packet = true := by
  have hbit : ∀ i, (a.key.toNat.testBit i && (a.mask.toNat.testBit i && b.mask.toNat.testBit i))
      = (b.key.toNat.testBit i && (a.mask.toNat.testBit i && b.mask.toNat.testBit i)) := by
    intro i
    have heq : a.key &&& (a.mask &&& b.mask) = b.key &&& (a.mask &&& b.mask) := by
      simpa [overlaps] using h
    simpa using congrArg (fun w : UInt32 => w.toNat.testBit i) heq
  refine ⟨a.key &&& a.mask ||| b.key &&& b.mask, ?_, ?_⟩
  · rw [isMatch_iff, ← UInt32.toNat_inj]
    refine Nat.eq_of_testBit_eq fun i => ?_
    simp only [UInt32.toNat_and, UInt32.toNat_or, Nat.testBit_and, Nat.testBit_or]
    have := hbit i
    grind
  · rw [isMatch_iff, ← UInt32.toNat_inj]
    refine Nat.eq_of_testBit_eq fun i => ?_
    simp only [UInt32.toNat_and, UInt32.toNat_or, Nat.testBit_and, Nat.testBit_or]
    have := hbit i
    grind

end RoutingKey

/-- A packet follows the entry of a chip to which it belongs, if it belongs to no other. -/
theorem RoutingTables.lookup?_of_mem_entriesAt {tables : RoutingTables} {c : ChipCoord}
    (hpair : (tables.entriesAt c).Pairwise fun a b => ∀ packet,
      a.routingKey.isMatch packet = true → b.routingKey.isMatch packet = false)
    {e : RoutingEntry} (he : e ∈ tables.entriesAt c) {packet : UInt32}
    (hm : e.routingKey.isMatch packet = true) : tables.lookup? c packet = some e := by
  rw [lookup?_eq_find?]
  revert he hpair
  induction tables.entriesAt c with
  | nil => simp
  | cons a rest ih =>
      intro hpair he
      rw [List.pairwise_cons] at hpair
      rcases List.mem_cons.1 he with rfl | he
      · exact List.find?_cons_of_pos hm
      · have hother : a.routingKey.isMatch packet = false := by
          rw [Bool.eq_false_iff]
          exact fun ha => absurd hm (by simp [hpair.1 e he packet ha])
        rw [List.find?_cons, hother]
        exact ih hpair.2 he

namespace RoutingJob

variable {job : RoutingJob} {kind : RouterKind} {tables : RoutingTables}

/-- No packet belongs to two entries of a chip. -/
theorem pairwise_entriesAt (hkeys : job.keys.Apart job.partitioned.connections.toList)
    (h : job.route kind = .ok tables) (c : ChipCoord) :
    (tables.entriesAt c).Pairwise fun a b => ∀ packet, a.routingKey.isMatch packet = true →
      b.routingKey.isMatch packet = false :=
  pairwise_of_sublistForall₂
    (fun _ _ _ _ ha hb hapart packet => hapart _ _ packet ha.key_given hb.key_given)
    (entryOf_of_route hkeys h c) hkeys

/-- An entry belongs to a connection whose packets enter the chip and follow the entry there. -/
theorem exists_exact_of_mem_entriesAt (hkeys : job.keys.Apart job.partitioned.connections.toList)
    (h : job.route kind = .ok tables) {c : ChipCoord} {e : RoutingEntry}
    (he : e ∈ tables.entriesAt c) :
    ∃ pc ∈ job.partitioned.connections.toList, ∃ source,
      job.DeliversExactly tables pc source e.routingKey ∧
      ∀ packet, e.routingKey.isMatch packet = true →
        (job.travel tables packet).Enters source.chip c ∧ tables.lookup? c packet = some e := by
  obtain ⟨pc, hpc, hentry⟩ := exists_partner_of_sublistForall₂ (entryOf_of_route hkeys h c) he
  obtain ⟨source, key, hexact⟩ := deliversExactly_of_route hkeys h hpc
  obtain ⟨source', hsource', henters⟩ := hentry.chip_entered
  obtain rfl : source' = source := Option.some.inj (hsource'.symm.trans hexact.source_placed)
  obtain rfl : e.routingKey = key := Option.some.inj (hentry.key_given.symm.trans hexact.key_given)
  exact ⟨pc, hpc, source', hexact, fun packet hm => ⟨henters packet hm,
    RoutingTables.lookup?_of_mem_entriesAt (pairwise_entriesAt hkeys h c) he hm⟩⟩

theorem checkLinks_of_route (hkeys : job.keys.Apart job.partitioned.connections.toList)
    (h : job.route kind = .ok tables) : tables.checkLinks job.fabric = .ok () := by
  rw [RoutingTables.checkLinks_eq_ok_iff]
  intro c e he d hd
  obtain ⟨pc, -, source, hexact, hfollowed⟩ := exists_exact_of_mem_entriesAt hkeys h he
  -- the key of the entry is a packet that takes the link
  have hmatch := e.routingKey.isMatch_key
  obtain ⟨henters, hlookup⟩ := hfollowed _ hmatch
  exact (hexact.replay_isTree _ hmatch).links_exist c henters e hlookup d hd

theorem checkCollisions_of_route (hkeys : job.keys.Apart job.partitioned.connections.toList)
    (h : job.route kind = .ok tables) : tables.checkCollisions = .ok () := by
  rw [RoutingTables.checkCollisions_eq_ok_iff]
  refine fun c => (pairwise_entriesAt hkeys h c).imp fun hapart => ?_
  rw [Bool.eq_false_iff]
  intro hover
  obtain ⟨packet, ha, hb⟩ := RoutingKey.exists_isMatch_of_overlaps hover
  exact absurd hb (by simp [hapart packet ha])

/-- The tables of routing are accepted, if no packet belongs to two connections. -/
theorem validate_of_route (hkeys : job.keys.Apart job.partitioned.connections.toList)
    (h : job.route kind = .ok tables) : job.validate tables = .ok () := by
  refine validate_eq_ok_iff.2
    ⟨checkLinks_of_route hkeys h, checkCollisions_of_route hkeys h, fun pc hpc => ?_⟩
  obtain ⟨source, key, hexact⟩ := deliversExactly_of_route hkeys h hpc
  refine ⟨source, key, hexact.source_placed, hexact.key_given,
    (hexact.replay_isTree _ key.isMatch_key).terminates, ?_⟩
  intro target htarget l hl
  exact (hexact.delivered_iff _ key.isMatch_key l).2 ⟨target, htarget, hl⟩

end RoutingJob

end SpikeMesh
