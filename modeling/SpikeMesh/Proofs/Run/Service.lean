import SpikeMesh.Proofs.Board.FaultFree
import SpikeMesh.Proofs.Mapping.Placement
import SpikeMesh.Proofs.Mapping.Stages
import SpikeMesh.Proofs.Run.Soundness

set_option autoImplicit false

/-! # Runs on boards without faults

A sound simulator whose board has no faults asks it only for what it admits: data goes to cores that
hold none, executables to cores with data, values are read from cores that run the executable, and
the application that is stopped is the one that runs. The only request that may be refused is a
start, which needs an executable. -/

namespace SpikeMesh

/-! ## Mappings -/

/-- A core is one of those that run an executable. -/
def ExecutableTargets.Runs (t : ExecutableTargets) (image : String) (l : Location) : Prop :=
  ∃ cores, t.byImage[image]? = some cores ∧ l ∈ cores

theorem ExecutableTargets.runs_of_add {t : ExecutableTargets} {image image' : String}
    {l l' : Location} (h : (t.add image l).Runs image' l') :
    (image = image' ∧ l = l') ∨ t.Runs image' l' := by
  obtain ⟨cores, hcores, hl⟩ := h
  rw [add, getElem?_insert_of_lawful] at hcores
  by_cases himage : image = image'
  · rw [if_pos himage] at hcores
    rw [← Option.some.inj hcores, Std.ExtTreeSet.mem_insert,
      Std.LawfulEqCmp.compare_eq_iff_eq] at hl
    rcases hl with hl | hl
    · exact .inl ⟨himage, hl⟩
    · rw [himage, Std.ExtTreeMap.getD_eq_getD_getElem?] at hl
      cases hbefore : t.byImage[image']? with
      | none =>
          rw [hbefore] at hl
          exact absurd hl (by simp)
      | some before =>
          rw [hbefore] at hl
          exact .inr ⟨before, hbefore, hl⟩
  · rw [if_neg himage] at hcores
    exact .inr ⟨cores, hcores, hl⟩

namespace Mapping

variable {m : Mapping} {g : ApplicationGraph} {f : Fabric}

theorem image_of_loadJob {s : SliceId} {l : Location} {job : LoadJob}
    (h : m.loadJob g s l = .ok job) : ∃ u, m.unitOf? g s = some u ∧ job.image = u.model.image := by
  unfold Mapping.loadJob at h
  split at h
  · exact absurd h (by simp)
  · next slice hslice =>
      split at h
      · exact absurd h (by simp)
      · next u hu =>
          split at h
          · refine ⟨u, ?_, ?_⟩
            · rw [unitOf?, hslice]
              exact hu
            · rw [← Except.ok.inj h]
          · exact absurd h (by simp)

/-- An executable runs where slices of units with this executable are placed. -/
theorem exists_of_runs {t : ExecutableTargets} (h : m.targets g f = .ok t) {image : String}
    {l : Location} (hruns : t.Runs image l) : ∃ s u, (s, l) ∈ m.realPlacements f ∧
      m.unitOf? g s = some u ∧ u.model.image = image := by
  refine foldlM_ok_induction (fun done (t : ExecutableTargets) => ∀ image l, t.Runs image l →
    ∃ s u, (s, l) ∈ done ∧ m.unitOf? g s = some u ∧ u.model.image = image) ?_ ?_ h image l hruns
  · rintro done ⟨s, l⟩ t t' ht hstep image' l' hruns'
    simp only at hstep
    split at hstep
    · next u hu =>
        obtain rfl := Except.ok.inj hstep
        rcases ExecutableTargets.runs_of_add hruns' with ⟨himage, rfl⟩ | hruns'
        · exact ⟨s, u, by simp, hu, himage⟩
        · obtain ⟨s', u', hs', hu'⟩ := ht image' l' hruns'
          exact ⟨s', u', List.mem_append_left _ hs', hu'⟩
    · exact absurd hstep (by simp)
  · rintro image' l' ⟨cores, hcores, -⟩
    exact absurd hcores (by simp [ExecutableTargets.empty])

/-- The slices that a compilation places are on cores of their own. -/
theorem pairwise_realPlacements {config : Config} {allocator : KeyAllocator} {mesh : Fabric}
    (h : (compileWith config allocator g mesh).result = .ok m) (f : Fabric) :
    (m.realPlacements f).Pairwise (fun x y => x.2 ≠ y.2) := by
  obtain ⟨budget, p, hby⟩ := compileWith_eq_ok h
  refine List.Pairwise.filter _ ?_
  refine (toList_pairwise_fst_ne m.placements.bySlice).imp_of_mem ?_
  intro x y hx hy hne heq
  have hx' : m.placements.get? x.1 = some x.2 := Std.ExtTreeMap.mem_toList_iff_getElem?_eq_some.1 hx
  have hy' : m.placements.get? y.1 = some y.2 := Std.ExtTreeMap.mem_toList_iff_getElem?_eq_some.1 hy
  exact hne (Fabric.place_injective hby.place_eq hx' (heq ▸ hy'))

end Mapping

namespace Simulator

variable {s : Simulator} {g : ApplicationGraph} {m : Mapping}

/-! ## Stopping -/

/-- **Stopping a board without faults.** All requests are accepted. -/
theorem stop_serves (h : s.Sound) (hfree : s.board.FaultFree) :
    (stop s).1 = .ok () ∧ s.board.Serves (stop s).2.board ∧ (stop s).2.board.FaultFree := by
  rw [stop_eq]
  by_cases hphase : s.phase.holdsTables = true
  · rw [if_pos hphase]
    -- the application that runs, if there is one, is the one that is stopped
    have hown : ∀ r, s.board.contents.running = some r → r.appId = s.config.machine.appId := by
      intro r hr
      have hrunning : s.expectedRunning = some r := h.running_eq ▸ hr
      unfold expectedRunning at hrunning
      split at hrunning
      · rw [← Option.some.inj hrunning]
      · exact absurd hrunning (by simp)
    obtain ⟨b, hsubmit, hfree', hserves, -⟩ := hfree.submitAll_eq_ok
      (fun c => ∀ r, c.running = some r → r.appId = s.config.machine.appId) s.stopRequests (by
        intro r hr c hc
        rw [stopRequests, List.mem_append, List.mem_map] at hr
        rcases hr with ⟨chip, -, rfl⟩ | hr
        · exact ⟨trivial, hc⟩
        · rw [List.mem_singleton.1 hr]
          exact ⟨hc, fun r hr => absurd hr (by simp [Board.Contents.after])⟩) hown
    rw [hsubmit]
    exact ⟨rfl, hserves, hfree'⟩
  · rw [if_neg hphase]
    exact ⟨rfl, .refl _, hfree⟩

/-! ## Loading, starting and reading -/

/-- Data goes to cores of their own, and executables to cores with data. -/
theorem load_serves (hfree : s.board.FaultFree) (hclear : s.board.contents.Clear)
    (htargets : m.targets g s.fabric = .ok s.targets)
    (hapart : (m.realPlacements s.fabric).Pairwise (fun x y => x.2 ≠ y.2)) :
    s.board.Serves (load g m s).2.board ∧ (load g m s).2.board.FaultFree := by
  have hempty : ∀ e ∈ m.realPlacements s.fabric, s.board.cores[e.2]? = none := by
    intro e _
    have hcores : s.board.cores = ∅ := hclear.cores
    rw [hcores, Std.ExtTreeMap.getElem?_empty]
  obtain ⟨hserves, hgenerated⟩ := hfree.serves_generateEach m g hapart hempty
  obtain ⟨done, hdone, hall⟩ := Board.exists_generated s.board m g (m.realPlacements s.fabric)
  rw [load_eq]
  rcases hgenerate : s.board.generateAll m g s.fabric with ⟨e | report, b⟩
  · have hb : (s.board.generateEach m g (m.realPlacements s.fabric)).2 = b :=
      congrArg Prod.snd hgenerate
    exact ⟨hb ▸ hserves, hb ▸ hgenerated⟩
  · have hb : (s.board.generateEach m g (m.realPlacements s.fabric)).2 = b :=
      congrArg Prod.snd hgenerate
    rw [hb] at hserves hgenerated hdone
    have hoks := GenerationOutcome.report_eq_ok (congrArg Prod.fst hgenerate)
    -- every core of the mapping holds data when the executables are loaded
    have hloaded : ∀ e ∈ m.realPlacements s.fabric, ∃ core, b.contents.cores[e.2]? = some core := by
      intro e he
      obtain ⟨job, hjob, hload⟩ := hall hoks e he
      refine ⟨job.core, ?_⟩
      rw [hdone.contents_eq, Board.Contents.afterAll_loadData, ← (Mapping.loadJob_eq_ok hload).2]
      exact getElem?_foldl_insert_of_mem LoadJob.location LoadJob.core done hdone.apart hjob _
    obtain ⟨b', hsubmit, hfree', hserves', -⟩ := hgenerated.submitAll_eq_ok
      (fun c => ∀ e ∈ m.realPlacements s.fabric, ∃ core, c.cores[e.2]? = some core)
      (s.loadRequests m) (by
        intro r hr c hc
        rw [loadRequests, List.mem_append, List.mem_append, List.mem_map, List.mem_map] at hr
        rcases hr with (⟨e, -, rfl⟩ | ⟨⟨image, cores⟩, he, rfl⟩) | hr
        · exact ⟨trivial, hc⟩
        · refine ⟨?_, hc⟩
          intro l hl
          obtain ⟨slice, u, hslice, -⟩ := Mapping.exists_of_runs htargets
            ⟨cores, Std.ExtTreeMap.mem_toList_iff_getElem?_eq_some.1 he, hl⟩
          exact hc (slice, l) hslice
        · split at hr
          · exact absurd hr (by simp)
          · rw [List.mem_singleton.1 hr]
            exact ⟨trivial, hc⟩) hloaded
    simp only [hsubmit]
    exact ⟨hserves.trans hserves', hfree'⟩

/-- Values are read from cores that hold the data for their executable. -/
theorem startAndRead_serves (hfree : s.board.FaultFree)
    (hholds : s.board.contents.Holds m g s.fabric)
    (htargets : m.targets g s.fabric = .ok s.targets) (reads : Bool) :
    s.board.Serves (startAndRead reads s).2.board := by
  have hstart : s.board.Serves (s.board.submit (.start s.config.machine.appId s.timeSteps)).2 :=
    Board.serves_submit (.inr rfl)
  have hfree' := hfree.submit (.start s.config.machine.appId s.timeSteps)
  unfold startAndRead
  rw [start_eq]
  rcases Board.submit_cases s.board (.start s.config.machine.appId s.timeSteps) with
    ⟨b, hsubmit, -, hcontents⟩ | ⟨e, hsubmit⟩
  · rw [hsubmit] at hstart hfree' ⊢
    simp only
    split
    · rw [readProvenance_eq]
      refine hstart.trans (hfree'.serves_readAll ?_)
      rintro ⟨image, cores⟩ he l hl
      obtain ⟨slice, u, hslice, hu, himage⟩ := Mapping.exists_of_runs htargets
        ⟨cores, Std.ExtTreeMap.mem_toList_iff_getElem?_eq_some.1 he, hl⟩
      obtain ⟨core, hcore, rfl⟩ := (hholds.placed_iff slice l).1 hslice
      obtain ⟨job, hjob, hdata⟩ := hholds.data_eq l core hcore
      obtain ⟨u', hu', himage'⟩ := Mapping.image_of_loadJob hjob
      obtain rfl : u = u' := Option.some.inj (hu.symm.trans hu')
      refine ⟨core, ?_, ?_⟩
      · rw [hcontents]
        exact hcore
      · rw [hdata]
        exact himage'.trans himage
    · exact hstart
  · rw [hsubmit] at hstart ⊢
    exact hstart

/-- **Executing on a board without faults.** All requests but a start are accepted. -/
theorem execute_serves (hfree : s.board.FaultFree) (hclear : s.board.contents.Clear)
    (hidle : s.board.running = none) (htargets : m.targets g s.fabric = .ok s.targets)
    (hapart : (m.realPlacements s.fabric).Pairwise (fun x y => x.2 ≠ y.2)) :
    s.board.Serves (execute g m s).2.board := by
  rw [execute_eq]
  by_cases hload : s.config.execution.load = true
  · rw [if_pos hload]
    obtain ⟨hserves, hfree'⟩ := load_serves hfree hclear htargets hapart
    obtain ⟨b, hb, -, hholds⟩ := load_spec hclear hidle htargets
    rcases hrun : load g m s with ⟨e | _, s₁⟩
    · rw [hrun] at hserves
      exact hserves
    · rw [hrun] at hserves hfree' hb hholds
      obtain rfl : s₁ = { s with board := b, phase := .loaded } := hb
      simp only
      split
      · exact hserves.trans (startAndRead_serves hfree' (hholds rfl).1 htargets _)
      · exact hserves
  · rw [if_neg hload]
    exact .refl _

theorem runFresh_serves (h : s.Sound) (hidle : s.phase = .idle) (hfree : s.board.FaultFree)
    (g : ApplicationGraph) (timeSteps : Option UInt64) :
    s.board.Serves (s.runFresh g timeSteps).simulator.board := by
  unfold runFresh
  split
  · exact .refl _
  · next f _ =>
      simp only
      split
      · exact .refl _
      · next m targets hcompiled =>
          obtain ⟨m', hm', hcompiled⟩ := bind_eq_ok_iff.1 hcompiled
          obtain ⟨targets', htargets, hcompiled⟩ := bind_eq_ok_iff.1 hcompiled
          obtain ⟨rfl, rfl⟩ := Prod.mk.inj (Except.ok.inj hcompiled)
          have hclear : s.board.contents.Clear := h.clear (by rw [hidle]; rfl)
          have hrunning : s.board.running = none := by
            rw [h.running_eq, expectedRunning, hidle]
          exact execute_serves
            (s := s.mapped (compile s.config g f).fabric m' targets' timeSteps) hfree hclear
            hrunning htargets (Mapping.pairwise_realPlacements hm' _)

end Simulator

end SpikeMesh
