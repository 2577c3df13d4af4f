import SpikeMesh.Proofs.Run.Loading

set_option autoImplicit false

/-! # What a simulator keeps up

The phase of a simulator tells what is on its board. As long as nothing is loaded the board holds
no data, no executables and no tables; from the start of loading on it holds only what belongs to
the mapping, and it runs exactly in the phase in which it is said to. Each action keeps this up,
wherever a request of it fails. -/

namespace SpikeMesh

namespace Simulator

variable {s : Simulator} {g : ApplicationGraph} {m : Mapping}

/-- The application that the board should be running. -/
def expectedRunning (s : Simulator) : Option RunningApplication :=
  match s.phase with
  | .running => some ⟨s.config.machine.appId, s.timeSteps⟩
  | _ => none

/-- The board is as the phase and the mapping of the simulator say. -/
structure Sound (s : Simulator) : Prop where
  clear : s.phase.holdsTables = false → s.board.contents.Clear
  within : s.phase.holdsTables = true →
    ∃ m, s.mapping = some m ∧ s.board.contents.Within m s.fabric
  running_eq : s.board.running = s.expectedRunning
  idle_iff : s.phase = .idle ↔ s.mapping = none

/-- A simulator with a mapping may be in every phase but the first one. -/
theorem idle_iff_of_some {phase : Phase} {mapping : Option Mapping} (hphase : phase ≠ .idle)
    (hm : mapping = some m) : phase = .idle ↔ mapping = none :=
  ⟨fun hidle => absurd hidle hphase, fun hnone => absurd (hm.symm.trans hnone) (by simp)⟩

/-- A simulator whose board holds the same is as sound. -/
theorem Sound.of_contents_eq (h : s.Sound) {b : Board} (hb : b.contents = s.board.contents) :
    Sound { s with board := b } where
  clear := by
    intro hphase
    show b.contents.Clear
    rw [hb]
    exact h.clear hphase
  within := by
    intro hphase
    show ∃ m, s.mapping = some m ∧ b.contents.Within m s.fabric
    rw [hb]
    exact h.within hphase
  running_eq := by
    show b.contents.running = _
    rw [hb]
    exact h.running_eq
  idle_iff := h.idle_iff

theorem sound_fresh (config : Config) : Sound { config := config } where
  clear := fun _ => ⟨rfl, rfl, rfl⟩
  within := by
    intro hphase
    exact absurd hphase Bool.false_ne_true
  running_eq := rfl
  idle_iff := ⟨fun _ => rfl, fun _ => rfl⟩

/-! ## Stopping -/

/-- The chips whose tables are cleared. -/
def clearedChips (s : Simulator) (m : Mapping) : List ChipCoord :=
  m.routingTables.chipsWithEntries.filter fun c => !s.fabric.isVirtual c

theorem stopRequests_eq (hm : s.mapping = some m) : s.stopRequests
    = (s.clearedChips m).map .clearTable ++ [.stop s.config.machine.appId] := by
  rw [stopRequests, hm]
  rfl

/-- Every table of the board is on a chip that is cleared. -/
theorem mem_clearedChips {c : Board.Contents} (h : c.Within m s.fabric) {chip : ChipCoord}
    {t : RoutingTable} (ht : c.tables[chip]? = some t) : chip ∈ s.clearedChips m := by
  obtain ⟨htable, hentries, hreal⟩ := h.tables chip t ht
  have hmem : (chip, t) ∈ m.routingTables.toList :=
    Std.ExtTreeMap.mem_toList_iff_getElem?_eq_some.2 htable
  refine List.mem_filter.2 ⟨List.mem_map.2 ⟨(chip, t), List.mem_filter.2 ⟨hmem, ?_⟩, rfl⟩, ?_⟩
  · rw [hentries]
    rfl
  · rw [hreal]
    rfl

/-- After all requests for stopping nothing is loaded, and nothing runs. -/
theorem clear_after_stopRequests {c : Board.Contents} (hm : s.mapping = some m)
    (h : c.Within m s.fabric) : (c.afterAll s.stopRequests).Clear ∧
      (c.afterAll s.stopRequests).running = none ∧ (c.afterAll s.stopRequests).tags = c.tags := by
  rw [stopRequests_eq hm, Board.Contents.afterAll_append, Board.Contents.afterAll_clearTable]
  refine ⟨⟨rfl, rfl, ?_⟩, rfl, rfl⟩
  refine Std.ExtTreeMap.ext_getElem? ?_
  intro chip
  show ((s.clearedChips m).foldl (fun tables chip => tables.erase chip) c.tables)[chip]? = _
  rw [getElem?_foldl_erase, Std.ExtTreeMap.getElem?_empty]
  by_cases hchip : chip ∈ s.clearedChips m
  · rw [if_pos hchip]
  · rw [if_neg hchip]
    cases ht : c.tables[chip]? with
    | none => rfl
    | some t => exact absurd (mem_clearedChips h ht) hchip

/-- Requests for clearing tables leave only what belongs to the mapping. -/
theorem within_after_clearTables {c : Board.Contents} {done : List BoardRequest}
    (hdone : ∀ r ∈ done, ∃ chip, r = .clearTable chip) (h : c.Within m s.fabric) :
    (c.afterAll done).Within m s.fabric ∧ (c.afterAll done).running = c.running ∧
      (c.afterAll done).tags = c.tags := by
  refine Board.Contents.afterAll_preserves
    (P := fun c' => c'.Within m s.fabric ∧ c'.running = c.running ∧ c'.tags = c.tags) ?_
    ⟨h, rfl, rfl⟩
  intro r hr c' hc'
  obtain ⟨chip, rfl⟩ := hdone r hr
  refine ⟨⟨hc'.1.cores, ?_⟩, hc'.2⟩
  intro chip' t ht
  rw [Board.Contents.after, getElem?_erase_of_lawful] at ht
  by_cases hchip : chip = chip'
  · rw [if_pos hchip] at ht
    exact absurd ht (by simp)
  · rw [if_neg hchip] at ht
    exact hc'.1.tables chip' t ht

/-- **Stopping.** It keeps the simulator sound wherever it fails, and leaves the tags. If it
    succeeds, nothing is loaded afterwards. -/
theorem stop_spec (h : s.Sound) : ∃ b phase, (stop s).2 = { s with board := b, phase := phase } ∧
    Sound { s with board := b, phase := phase } ∧ b.tags = s.board.tags ∧
    ((stop s).1 = .ok () → phase.holdsTables = false) := by
  rw [stop_eq]
  by_cases hphase : s.phase.holdsTables = true
  · obtain ⟨m, hm, hwithin⟩ := h.within hphase
    rw [if_pos hphase]
    rcases Board.submitAll_cases s.board s.stopRequests with ⟨b, hsubmit, hcontents⟩ |
      ⟨e, b, done, r, rest, hsubmit, hsplit, hcontents⟩
    · rw [hsubmit]
      obtain ⟨hclear, hrunning, htags⟩ := clear_after_stopRequests hm hwithin
      rw [← hcontents] at hclear hrunning htags
      refine ⟨b, .stopped, rfl, ?_, htags, fun _ => rfl⟩
      exact ⟨fun _ => hclear, fun hloaded => absurd hloaded Bool.false_ne_true, hrunning,
        idle_iff_of_some (by simp) hm⟩
    · rw [hsubmit]
      -- the last request is that for halting, so only tables were cleared before the failure
      have hdone : ∀ r ∈ done, ∃ chip, r = .clearTable chip := by
        rw [stopRequests_eq hm] at hsplit
        have hcleared : done <+: (s.clearedChips m).map BoardRequest.clearTable := by
          have hpre : done <+: (s.clearedChips m).map BoardRequest.clearTable
              ++ [.stop s.config.machine.appId] := hsplit ▸ List.prefix_append ..
          rcases List.prefix_concat_iff.1 hpre with heq | hpre
          · rw [heq] at hsplit
            exact absurd (congrArg List.length hsplit) (by simp)
          · exact hpre
        intro r hr
        obtain ⟨chip, -, rfl⟩ := List.mem_map.1 (hcleared.subset hr)
        exact ⟨chip, rfl⟩
      obtain ⟨hwithin', hrunning, htags⟩ := within_after_clearTables hdone hwithin
      rw [← hcontents] at hwithin' hrunning htags
      refine ⟨b, s.phase, rfl, ?_, htags, fun h => absurd h (by simp)⟩
      refine ⟨fun hunloaded => absurd hphase (by simp [hunloaded]), fun _ => ⟨m, hm, hwithin'⟩,
        hrunning.trans h.running_eq, h.idle_iff⟩
  · rw [if_neg hphase]
    exact ⟨s.board, s.phase, rfl, h, rfl, fun _ => by simpa using hphase⟩

/-! ## Executing -/

/-- A simulator that has begun to load a mapping and whose board does not run yet. -/
theorem sound_of_loading (hm : s.mapping = some m) {b : Board} {tags : TagAllocations}
    (h : b.contents.Loading m s.fabric tags) : Sound { s with board := b, phase := .loaded } where
  clear := fun hunloaded => absurd hunloaded (by simp [Phase.holdsTables])
  within := fun _ => ⟨m, hm, h.within⟩
  running_eq := h.running_eq
  idle_iff := idle_iff_of_some (by simp) hm

/-- Starting keeps what is loaded. If it succeeds, the board runs. -/
theorem start_spec (hphase : s.phase = .loaded) (h : s.Sound) :
    ∃ b phase, (start s).2 = { s with board := b, phase := phase } ∧
      Sound { s with board := b, phase := phase } ∧
      ∃ running, b.contents = { s.board.contents with running := running } := by
  obtain ⟨m, hm, hwithin⟩ := h.within (by rw [hphase]; rfl)
  rw [start_eq]
  rcases Board.submit_cases s.board (.start s.config.machine.appId s.timeSteps) with
    ⟨b, hsubmit, -, hcontents⟩ | ⟨e, hsubmit⟩
  · rw [hsubmit]
    refine ⟨b, .running, rfl, ?_, _, hcontents⟩
    refine ⟨fun hunloaded => absurd hunloaded (by simp [Phase.holdsTables]), fun _ => ⟨m, hm, ?_⟩,
      congrArg Board.Contents.running hcontents, idle_iff_of_some (by simp) hm⟩
    show b.contents.Within m s.fabric
    rw [hcontents]
    exact ⟨hwithin.cores, hwithin.tables⟩
  · rw [hsubmit]
    exact ⟨_, s.phase, rfl, h.of_contents_eq rfl, s.board.running, rfl⟩

/-- Reading after the start keeps what is loaded, too. -/
theorem startAndRead_spec (hphase : s.phase = .loaded) (h : s.Sound) (reads : Bool) :
    ∃ b phase, (startAndRead reads s).2 = { s with board := b, phase := phase } ∧
      Sound { s with board := b, phase := phase } ∧
      ∃ running, b.contents = { s.board.contents with running := running } := by
  obtain ⟨b, phase, hb, hsound, running, hcontents⟩ := start_spec hphase h
  unfold startAndRead
  rcases hstart : start s with ⟨e | _, s'⟩
  · rw [hstart] at hb
    exact ⟨b, phase, hb, hsound, running, hcontents⟩
  · rw [hstart] at hb
    obtain rfl : s' = { s with board := b, phase := phase } := hb
    by_cases hreads : reads = true
    · simp only [if_pos hreads]
      have hread := Board.contents_readAll b s.targets.toList
      rw [readProvenance_eq]
      exact ⟨_, phase, rfl, hsound.of_contents_eq hread, running, hread.trans hcontents⟩
    · simp only [if_neg hreads]
      exact ⟨b, phase, rfl, hsound, running, hcontents⟩

/-- **Executing.** It keeps the simulator sound wherever it fails. If it succeeds and loads, the
    board holds all of the mapping. -/
theorem execute_spec (hphase : s.phase = .mapped) (hm : s.mapping = some m) (h : s.Sound)
    (htargets : m.targets g s.fabric = .ok s.targets) :
    ∃ b phase, (execute g m s).2 = { s with board := b, phase := phase } ∧
      Sound { s with board := b, phase := phase } ∧
      (b.tags = s.board.tags ∨ (m.tags.isEmpty = false ∧ b.tags = m.tags)) ∧
      ∀ items, (execute g m s).1 = .ok items → s.config.execution.load = true →
        b.contents.Holds m g s.fabric ∧
        b.tags = if m.tags.isEmpty then s.board.tags else m.tags := by
  have hclear : s.board.contents.Clear := h.clear (by rw [hphase]; rfl)
  have hidle : s.board.running = none := by rw [h.running_eq, expectedRunning, hphase]
  rw [execute_eq]
  by_cases hload : s.config.execution.load = true
  · rw [if_pos hload]
    obtain ⟨b, hb, hloading, hall⟩ := load_spec hclear hidle htargets
    have hsound := sound_of_loading (s := s) hm hloading
    rcases hrun : load g m s with ⟨e | _, s₁⟩
    · rw [hrun] at hb
      exact ⟨b, .loaded, hb, hsound, hloading.tags_eq, fun _ hok => absurd hok (by simp)⟩
    · rw [hrun] at hb hall
      obtain rfl : s₁ = { s with board := b, phase := .loaded } := hb
      obtain ⟨hholds, htags⟩ := hall rfl
      by_cases hstart : s.config.startsApplication = true
      · simp only [if_pos hstart]
        obtain ⟨b', phase, hb', hsound', running, hcontents⟩ :=
          startAndRead_spec rfl hsound s.config.readsProvenance
        have htags' : b'.tags = b.tags := congrArg Board.Contents.tags hcontents
        refine ⟨b', phase, hb', hsound', htags'.symm ▸ hloading.tags_eq, fun _ _ _ => ⟨?_, ?_⟩⟩
        · rw [hcontents]
          exact ⟨hholds.placed_iff, hholds.data_eq, hholds.executables_eq, hholds.tables_iff⟩
        · rw [htags']
          exact htags
      · simp only [if_neg hstart]
        exact ⟨b, .loaded, rfl, hsound, hloading.tags_eq, fun _ _ _ => ⟨hholds, htags⟩⟩
  · rw [if_neg hload]
    exact ⟨s.board, s.phase, rfl, h, .inl rfl, fun _ _ hload' => absurd hload' hload⟩

end Simulator

end SpikeMesh
