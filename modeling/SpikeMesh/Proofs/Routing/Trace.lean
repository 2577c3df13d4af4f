import SpikeMesh.Proofs.Routing.Replay
import SpikeMesh.Proofs.Routing.WayBack

set_option autoImplicit false

/-! # The trace of a packet

The trace takes the chips to which a packet is forwarded from a queue (`Traversal.Traced`). All but
the source are ends of links, so there are enough steps for the queue to run empty, and the trace
records the hops and the deliveries of the replay, no others (`Travel.trace_hop_iff`,
`Travel.mem_trace_delivered_iff`). Hence its hops are free of cycles if and only if the replay
ends. -/

namespace SpikeMesh

namespace Travel

variable {t : Travel} {source a b c : ChipCoord}

/-- A chip forwards the packet to another one. -/
def Forwards (t : Travel) (a b : ChipCoord) : Prop := b ∈ t.hops a

theorem enters_iff : t.Enters source c ↔ Relation.ReflTransGen t.Forwards source c := by
  constructor
  · rintro ⟨n, hn⟩
    induction n generalizing c with
    | zero => rw [List.mem_singleton.1 hn]
    | succ n ih =>
        obtain ⟨b, hb, hc⟩ := List.mem_flatMap.1 hn
        exact (ih hb).tail hc
  · intro h
    induction h with
    | refl => exact t.enters_source source
    | tail _ hstep ih => exact ih.hop hstep

/-! ## The number of chips -/

/-- The chips to which links lead, one for each link of the fabric. -/
def linkEnds (t : Travel) : List ChipCoord :=
  t.fabric.chipList.flatMap fun chip => chip.router.links.toList.map fun e => e.2.destination

theorem length_linkEnds (t : Travel) : t.linkEnds.length = t.fabric.linkCount := by
  rw [linkEnds, Fabric.linkCount]
  induction t.fabric.chipList with
  | nil => rfl
  | cons chip rest ih =>
      rw [List.flatMap_cons, List.length_append, List.length_map, Std.ExtTreeMap.length_toList,
        total_cons, ih]

theorem mem_linkEnds_of_mem_hops {next : ChipCoord} (h : next ∈ t.hops c) :
    next ∈ t.linkEnds := by
  obtain ⟨e, -, d, -, link, hlink, rfl⟩ := mem_hops_iff.1 h
  obtain ⟨chip, hchip, hlink⟩ := Option.bind_eq_some_iff.1 hlink
  refine List.mem_flatMap.2 ⟨chip, List.mem_map.2 ⟨(c, chip), ?_, rfl⟩, ?_⟩
  · exact Std.ExtTreeMap.mem_toList_iff_getElem?_eq_some.2 hchip
  · exact List.mem_map.2 ⟨(d, link), Std.ExtTreeMap.mem_toList_iff_getElem?_eq_some.2 hlink, rfl⟩

/-- A chip that is entered is the source, or a link leads to it. -/
theorem mem_of_enters (h : t.Enters source c) : c ∈ source :: t.linkEnds := by
  rcases (enters_iff.1 h).cases_tail with rfl | ⟨b, -, hstep⟩
  · exact List.mem_cons_self
  · exact List.mem_cons_of_mem _ (mem_linkEnds_of_mem_hops hstep)

/-- No more chips are entered than links lead to chips, and the source. -/
theorem length_le_of_enters {chips : List ChipCoord} (hnodup : chips.Nodup)
    (h : ∀ c ∈ chips, t.Enters source c) : chips.length ≤ t.fabric.linkCount + 1 := by
  rw [← length_linkEnds, ← List.length_cons]
  exact hnodup.length_le_of_subset fun c hc => mem_of_enters (h c hc)

end Travel

/-! ## Tracing -/

namespace Traversal

variable {t : Travel} {s : Traversal} {source chip a b c : ChipCoord} {done nexts : List ChipCoord}

theorem hop_addHop_iff {g : HopGraph} {x y : ChipCoord} :
    (g.addHop a b).Hop x y ↔ g.Hop x y ∨ x = a ∧ y = b := by
  rw [HopGraph.Hop, HopGraph.addHop, mem_addNew, Prod.mk.injEq]
  rfl

/-- The hops from a chip: the chips that are new are put in the queue, each once. -/
theorem exists_foldl_hop (chip : ChipCoord) (nexts : List ChipCoord) (s : Traversal) :
    let s' := nexts.foldl (hop chip) s
    ∃ fresh, s'.queue = s.queue ++ fresh ∧ fresh.Nodup ∧
      (∀ c, c ∈ fresh ↔ c ∈ nexts ∧ c ∉ s.seen) ∧
      (∀ c, c ∈ s'.seen ↔ c ∈ s.seen ∨ c ∈ fresh) ∧
      s'.delivered = s.delivered ∧
      ∀ a b, s'.hops.Hop a b ↔ s.hops.Hop a b ∨ a = chip ∧ b ∈ nexts := by
  induction nexts generalizing s with
  | nil => exact ⟨[], (List.append_nil _).symm, List.nodup_nil, by simp, by simp, rfl, by simp⟩
  | cons next rest ih =>
      obtain ⟨fresh, hqueue, hnodup, hfresh, hseen, hdelivered, hhops⟩ := ih (hop chip s next)
      rw [List.foldl_cons]
      by_cases hold : next ∈ s.seen
      · have hhop : hop chip s next = { s with hops := s.hops.addHop chip next } := by
          simp only [hop, ← Std.ExtTreeSet.mem_iff_contains, if_pos hold]
        simp only [hhop, hop_addHop_iff] at hqueue hfresh hseen hdelivered hhops ⊢
        refine ⟨fresh, hqueue, hnodup, fun c => ?_, hseen, hdelivered, fun a b => ?_⟩
        · rw [hfresh c, List.mem_cons]
          grind
        · rw [hhops a b, List.mem_cons, or_assoc, and_or_left]
      · have hhop : hop chip s next =
            ⟨s.hops.addHop chip next, s.delivered, s.seen.insert next, s.queue ++ [next]⟩ := by
          simp only [hop, ← Std.ExtTreeSet.mem_iff_contains, if_neg hold]
        simp only [hhop, hop_addHop_iff, Std.ExtTreeSet.mem_insert,
          Std.LawfulEqCmp.compare_eq_iff_eq] at hqueue hfresh hseen hdelivered hhops ⊢
        refine ⟨next :: fresh, ?_, ?_, fun c => ?_, fun c => ?_, hdelivered, fun a b => ?_⟩
        · rw [hqueue, List.append_assoc, List.singleton_append]
        · exact List.nodup_cons.2 ⟨fun hmem => ((hfresh next).1 hmem).2 (.inl rfl), hnodup⟩
        · rw [List.mem_cons, hfresh c, List.mem_cons]
          grind
        · rw [hseen c, List.mem_cons]
          grind
        · rw [hhops a b, List.mem_cons, or_assoc, and_or_left]

/-- The packet was followed from some chips: their hops and their deliveries are recorded, and the
    other chips that were seen wait in the queue. -/
structure Traced (t : Travel) (source : ChipCoord) (s : Traversal) (done : List ChipCoord) :
    Prop where
  searched : Searched t.hops source done s.queue
  seen_iff : ∀ c, c ∈ s.seen ↔ c ∈ done ++ s.queue
  hop_iff : ∀ a b, s.hops.Hop a b ↔ a ∈ done ∧ t.Forwards a b
  delivered : s.delivered = done.flatMap t.deliveries

theorem traced_start (t : Travel) (source : ChipCoord) : Traced t source (start source) [] where
  searched := .singleton t.hops source
  seen_iff c := by
    simp only [start, Std.ExtTreeSet.mem_insert, Std.LawfulEqCmp.compare_eq_iff_eq,
      Std.ExtTreeSet.not_mem_empty, or_false, List.nil_append, List.mem_singleton]
    exact eq_comm
  hop_iff a b := by simp [start, HopGraph.singleton, HopGraph.Hop]
  delivered := rfl

/-- The first chip of the queue is followed. -/
theorem Traced.step {queue : List ChipCoord} (h : Traced t source s done)
    (hqueue : s.queue = chip :: queue) : Traced t source (t.step s) (done ++ [chip]) := by
  obtain ⟨hsearched, hseen, hhop, hdelivered⟩ := h
  rw [hqueue] at hsearched hseen
  have hstep : t.step s = (t.hops chip).foldl (hop chip)
      { s with delivered := s.delivered ++ t.deliveries chip, queue } := by
    rw [Travel.step, hqueue]
  obtain ⟨fresh, hqueue', hnodup, hfresh, hseen', hdelivered', hhop'⟩ :=
    exists_foldl_hop chip (t.hops chip)
      { s with delivered := s.delivered ++ t.deliveries chip, queue }
  rw [← hstep] at hqueue' hseen' hdelivered' hhop'
  constructor
  · rw [hqueue']
    refine hsearched.step hnodup fun c => ?_
    rw [hfresh c, hseen c]
  · intro c
    rw [hqueue', append_taken, hseen' c]
    exact (or_congr_left (hseen c)).trans List.mem_append.symm
  · intro a b
    rw [hhop' a b, hhop a b, List.mem_append, List.mem_singleton, Travel.Forwards]
    grind
  · rw [hdelivered', hdelivered, List.flatMap_append, List.flatMap_singleton]

theorem traced_repeat (t : Travel) (source : ChipCoord) (n : Nat) :
    let s := Nat.repeat t.step n (start source)
    ∃ done, Traced t source s done ∧ (s.queue = [] ∨ done.length = n) := by
  refine exists_taken_repeat t.step queue (fun done s => Traced t source s done) ?_ ?_
    (traced_start t source) n
  · intro s hqueue
    rw [Travel.step, hqueue]
  · exact fun _ _ _ _ htraced hqueue => htraced.step hqueue

end Traversal

namespace Travel

variable {t : Travel} {source a b c : ChipCoord}

/-- The trace ends with an empty queue, after the packet was followed from all chips that it
    enters. -/
theorem exists_traced (t : Travel) (source : ChipCoord) :
    ∃ done, (t.trace source).Traced t source done ∧ (t.trace source).queue = [] ∧
      ∀ c, c ∈ done ↔ t.Enters source c := by
  obtain ⟨done, htraced, hdone⟩ := Traversal.traced_repeat t source (t.fabric.linkCount + 1)
  have hqueue : (t.trace source).queue = [] := by
    refine hdone.elim id fun hlength => ?_
    refine htraced.searched.queue_eq_nil (source :: t.linkEnds) ?_ ?_
    · exact fun a ha => mem_of_enters (enters_iff.2 ha)
    · rw [List.length_cons, length_linkEnds, hlength]
  have hsearched := htraced.searched
  rw [trace] at hqueue
  rw [hqueue] at hsearched
  exact ⟨done, htraced, hqueue, fun c => hsearched.mem_done_iff.trans enters_iff.symm⟩

/-- The hops that are recorded are those of the chips that the packet enters. -/
theorem trace_hop_iff :
    (t.trace source).hops.Hop a b ↔ t.Enters source a ∧ t.Forwards a b := by
  obtain ⟨done, htraced, -, hdone⟩ := t.exists_traced source
  rw [htraced.hop_iff, hdone]

/-- The deliveries that are recorded are those of the replay. -/
theorem mem_trace_delivered_iff {l : Location} :
    l ∈ (t.trace source).delivered ↔ t.DeliversTo source l := by
  obtain ⟨done, htraced, -, hdone⟩ := t.exists_traced source
  rw [htraced.delivered, List.mem_flatMap]
  simp only [hdone, DeliversTo]

/-! ## Cycles -/

/-- The hops that are recorded close a cycle if and only if one lies on the way of the packet. -/
theorem trace_transGen_iff : Relation.TransGen (t.trace source).hops.Hop c c ↔
    t.Enters source c ∧ Relation.TransGen t.Forwards c c := by
  constructor
  · intro h
    obtain ⟨b, hhop, -⟩ := Relation.TransGen.head'_iff.1 h
    exact ⟨(trace_hop_iff.1 hhop).1, h.lift id fun _ _ hhop => (trace_hop_iff.1 hhop).2⟩
  · rintro ⟨hc, h⟩
    have hon : ∀ b, Relation.TransGen t.Forwards c b →
        t.Enters source b ∧ Relation.TransGen (t.trace source).hops.Hop c b := by
      intro b hb
      induction hb with
      | single hhop => exact ⟨hc.hop hhop, .single (trace_hop_iff.2 ⟨hc, hhop⟩)⟩
      | tail _ hhop ih => exact ⟨ih.1.hop hhop, ih.2.tail (trace_hop_iff.2 ⟨ih.1, hhop⟩)⟩
    exact (hon c h).2

/-- The chips that a copy passes before it is somewhere after a number of hops, each once if none
    of them lies on a cycle. -/
theorem exists_passed (hacyclic : ∀ c, t.Enters source c → ¬ Relation.TransGen t.Forwards c c)
    {n : Nat} (h : c ∈ t.arrivals source n) :
    ∃ passed : List ChipCoord, passed.length = n ∧ (c :: passed).Nodup ∧
      ∀ b ∈ passed, t.Enters source b ∧ Relation.TransGen t.Forwards b c := by
  induction n generalizing c with
  | zero => exact ⟨[], rfl, List.nodup_singleton c, by simp⟩
  | succ n ih =>
      obtain ⟨b, hb, hstep⟩ := List.mem_flatMap.1 h
      obtain ⟨passed, hlength, hnodup, hpassed⟩ := ih hb
      have hpassed' : ∀ a ∈ b :: passed, t.Enters source a ∧
          Relation.TransGen t.Forwards a c := by
        intro a ha
        rcases List.mem_cons.1 ha with rfl | ha
        · exact ⟨⟨n, hb⟩, .single hstep⟩
        · exact ⟨(hpassed a ha).1, (hpassed a ha).2.tail hstep⟩
      refine ⟨b :: passed, by rw [List.length_cons, hlength], ?_, hpassed'⟩
      exact List.nodup_cons.2 ⟨fun hc => hacyclic c ⟨n + 1, h⟩ (hpassed' c hc).2, hnodup⟩

/-- A copy on a cycle is forwarded along it for ever. -/
theorem exists_arrivals_of_cycle {m : Nat} (h : c ∈ t.arrivals source m)
    (hcycle : Relation.TransGen t.Forwards c c) (k : Nat) :
    ∃ b ∈ t.arrivals source (m + k), Relation.TransGen t.Forwards b b := by
  induction k with
  | zero => exact ⟨c, h, hcycle⟩
  | succ k ih =>
      obtain ⟨b, hb, hback⟩ := ih
      obtain ⟨next, hstep, hrest⟩ := Relation.TransGen.head'_iff.1 hback
      exact ⟨next, List.mem_flatMap.2 ⟨b, hb, hstep⟩, .tail' hrest hstep⟩

theorem arrivals_add_eq_nil {n : Nat} (h : t.arrivals source n = []) (k : Nat) :
    t.arrivals source (n + k) = [] := by
  induction k with
  | zero => exact h
  | succ k ih => rw [← Nat.add_assoc, arrivals, ih, List.flatMap_nil]

/-- No chip that is entered lies on a cycle if and only if no copy is left after some hops. -/
theorem acyclic_iff_terminates :
    (∀ c, t.Enters source c → ¬ Relation.TransGen t.Forwards c c) ↔
      ∃ n, t.arrivals source n = [] := by
  constructor
  · intro hacyclic
    refine ⟨t.fabric.linkCount + 1, List.eq_nil_iff_forall_not_mem.2 fun c hc => ?_⟩
    obtain ⟨passed, hlength, hnodup, hpassed⟩ := exists_passed hacyclic hc
    have hentered : ∀ b ∈ c :: passed, t.Enters source b := by
      intro b hb
      rcases List.mem_cons.1 hb with rfl | hb
      · exact ⟨_, hc⟩
      · exact (hpassed b hb).1
    have := length_le_of_enters hnodup hentered
    rw [List.length_cons] at this
    omega
  · rintro ⟨n, hn⟩ c ⟨m, hm⟩ hcycle
    obtain ⟨b, hb, -⟩ := exists_arrivals_of_cycle hm hcycle n
    rw [Nat.add_comm, arrivals_add_eq_nil hn] at hb
    exact List.not_mem_nil hb

end Travel

end SpikeMesh
