import SpikeMesh.Proofs.Run.History
import SpikeMesh.Proofs.Run.Plans

set_option autoImplicit false

/-! # The order of requests

What a run asks of the board, and when. What an earlier run has left is stopped. Then the data of
all slices is offered, also after some of it was refused. Only if none of it was, and none is
missing, tables, executables and tags are loaded, the application is started and its values are
read. Apart from the data, nothing is asked after the first refusal: of the requests that are
planned, a run makes as many as the board lets it. -/

namespace SpikeMesh

/-! ## The parts of a run -/

/-- What is requested for loading tables and executables, and the tags of the mapping if there are
    any. -/
def Mapping.loadPlan (m : Mapping) (tables : List (ChipCoord × RoutingTable))
    (groups : List (String × CoreSet)) : List BoardRequest :=
  (tables.map fun e => .loadTable e.1 e.2) ++ (groups.map fun e => .loadExecutable e.1 e.2)
    ++ (if m.tags.isEmpty then [] else [.loadTags m.tags])

/-- What is requested once everything is loaded: a start, if there is to be one, and after it the
    values of every executable, if they are asked for. -/
def Config.startPlan (config : Config) (steps : Option UInt64) (groups : List (String × CoreSet)) :
    List BoardRequest :=
  if config.execution.run then
    .start config.machine.appId steps ::
      (if config.reports.provenance then groups.map fun e => .readProvenance e.1 e.2 else [])
  else []

namespace Board

/-- What the execution of a mapping asks of a board. -/
inductive Executes (b : Board) (config : Config) (g : ApplicationGraph) (m : Mapping) (f : Fabric)
    (steps : Option UInt64) : List BoardRequest → Prop
  /-- Nothing is to be loaded. -/
  | skipped : config.execution.load = false → b.Executes config g m f steps []
  /-- All data is offered, but some is missing or was refused. -/
  | generating {jobs : List LoadJob} : config.execution.load = true → m.ListsJobs g f jobs →
      ¬ (m.WritesAll g f ∧ b.AcceptsAll (jobs.map .loadData)) →
      b.Executes config g m f steps (jobs.map .loadData)
  /-- All data is on the board. The rest goes on until something is refused. -/
  | launching {jobs : List LoadJob} {tables : List (ChipCoord × RoutingTable)}
      {groups : List (String × CoreSet)} {made : List BoardRequest} :
      config.execution.load = true → m.ListsJobs g f jobs →
      m.WritesAll g f → b.AcceptsAll (jobs.map .loadData) →
      m.ListsTables f tables → m.ListsGroups g f groups →
      (b.afterAll (jobs.map .loadData)).Attempts
        (m.loadPlan tables groups ++ config.startPlan steps groups) made →
      b.Executes config g m f steps (jobs.map .loadData ++ made)

end Board

/-- A graph is compiled to a mapping, on the mesh of the configuration with the virtual chips, and
    the cores of its executables are known. -/
def Config.Compiles (config : Config) (g : ApplicationGraph) (m : Mapping) (f : Fabric) : Prop :=
  ∃ mesh targets, Fabric.ofMachine config.machine = .ok mesh ∧
    (compile config g mesh).result = .ok m ∧ (compile config g mesh).fabric = f ∧
    m.targets g f = .ok targets

namespace Simulator

/-- The length is no whole number of time steps, or spikes are to be recorded without an end. -/
def RefusesLength (s : Simulator) (g : ApplicationGraph) (length : RunLength) : Prop :=
  (∃ e, length.timeSteps s.config.machine.timeStepUs = .error e) ∨
    (length = .unbounded ∧ ∃ u ∈ g.units, u.recordSpikes = true)

/-- What is requested for stopping: if a run was loaded, the tables of the mesh are cleared in the
    order of the coordinates and the application is halted. -/
inductive Stops (s : Simulator) : List BoardRequest → Prop
  | nothing : s.phase ≠ .loaded → s.phase ≠ .running → s.Stops []
  | loaded {m : Mapping} {tables : List (ChipCoord × RoutingTable)} :
      s.phase = .loaded ∨ s.phase = .running → s.mapping = some m →
      m.ListsTables s.fabric tables →
      s.Stops ((tables.map fun e => .clearTable e.1) ++ [.stop s.config.machine.appId])

/-- What a run with some outcome asks of the board. -/
inductive Asks (s : Simulator) (g : ApplicationGraph) (length : RunLength) (out : RunOutcome) :
    List BoardRequest → Prop
  /-- The length is refused, and nothing changes. -/
  | refused {reason : String} : s.RefusesLength g length →
      out = ⟨s, [], .error (.invalidTiming reason)⟩ → s.Asks g length out []
  /-- What is loaded cannot be stopped. -/
  | stopping {stops made : List BoardRequest} : ¬ s.RefusesLength g length → s.Stops stops →
      s.board.Attempts stops made → ¬ s.board.AcceptsAll stops → s.Asks g length out made
  /-- The graph has no mapping. -/
  | unmapped {stops : List BoardRequest} : ¬ s.RefusesLength g length → s.Stops stops →
      s.board.AcceptsAll stops → (∀ m f, ¬ s.config.Compiles g m f) →
      out.simulator.mapping = none → s.Asks g length out stops
  | executing {stops made : List BoardRequest} {m : Mapping} {steps : Option UInt64} :
      ¬ s.RefusesLength g length → s.Stops stops → s.board.AcceptsAll stops →
      out.simulator.mapping = some m → s.config.Compiles g m out.simulator.fabric →
      length.timeSteps s.config.machine.timeStepUs = .ok steps →
      (s.board.afterAll stops).Executes s.config g m out.simulator.fabric steps made →
      s.Asks g length out (stops ++ made)

end Simulator

/-! ## Data -/

namespace Board

/-- The data of all slices is offered. Nothing fails if all of it can be written and is accepted. -/
theorem generateAll_offers (b : Board) (m : Mapping) (g : ApplicationGraph) (f : Fabric) :
    (b.generateAll m g f).2 = b.afterAll ((m.jobs g (m.realPlacements f)).map .loadData) ∧
      ((∃ r, (b.generateAll m g f).1 = .ok r) ↔
        m.WritesAll g f ∧ b.AcceptsAll ((m.jobs g (m.realPlacements f)).map .loadData)) := by
  obtain ⟨hafter, hok⟩ := b.generateEach_offers m g (m.realPlacements f)
  rw [Mapping.writesAll_iff, ← hok]
  exact ⟨hafter, GenerationOutcome.report_eq_ok_iff⟩

end Board

namespace Simulator

variable {s : Simulator} {g : ApplicationGraph} {m : Mapping}

/-! ## Stopping -/

theorem stops_stopRequests (h : s.Sound) (hphase : s.phase.holdsTables = true) :
    s.Stops s.stopRequests := by
  obtain ⟨m, hm, -⟩ := h.within hphase
  have hloaded : s.phase = .loaded ∨ s.phase = .running := by
    unfold Phase.holdsTables at hphase
    split at hphase
    · next hloaded => exact .inl hloaded
    · next hrunning => exact .inr hrunning
    · exact absurd hphase (by simp)
    · exact absurd hphase (by simp)
    · exact absurd hphase (by simp)
  have hchips : s.clearedChips m = (m.realTables s.fabric).map Prod.fst := by
    unfold clearedChips RoutingTables.chipsWithEntries Mapping.realTables
    rw [List.filter_map, List.filter_filter]
    refine congrArg _ (List.filter_congr ?_)
    intro e _
    exact Bool.and_comm ..
  rw [stopRequests_eq hm, hchips, List.map_map]
  exact .loaded hloaded hm (m.listsTables_realTables s.fabric)

/-- Stopping is what attempts to clear the tables and to halt the application. -/
theorem stop_attempts (h : s.Sound) : ∃ stops made, s.Stops stops ∧
    (stop s).2.board = s.board.afterAll made ∧ s.board.Attempts stops made ∧
      ((stop s).1 = .ok () ↔ s.board.AcceptsAll stops) := by
  rw [stop_eq]
  by_cases hphase : s.phase.holdsTables = true
  · obtain ⟨made, hafter, hattempts, hok⟩ := s.board.submitAll_attempts s.stopRequests
    refine ⟨s.stopRequests, made, stops_stopRequests h hphase, ?_, hattempts, ?_⟩
    · rw [if_pos hphase, ← hafter]
      rcases s.board.submitAll s.stopRequests with ⟨e | _, b⟩
      · rfl
      · rfl
    · rw [if_pos hphase, ← hok]
      rcases s.board.submitAll s.stopRequests with ⟨e | _, b⟩
      · simp
      · simp
  · rw [if_neg hphase]
    refine ⟨[], [], .nothing ?_ ?_, rfl, .all trivial, ⟨fun _ => trivial, fun _ => rfl⟩⟩
    · intro hloaded
      simp [hloaded, Phase.holdsTables] at hphase
    · intro hrunning
      simp [hrunning, Phase.holdsTables] at hphase

/-! ## Loading -/

/-- If some data is missing or refused, loading ends with the data. -/
theorem load_of_missing
    (h : ¬ (m.WritesAll g s.fabric ∧
      s.board.AcceptsAll ((m.jobs g (m.realPlacements s.fabric)).map .loadData))) :
    ∃ e, load g m s = (.error e, { s with
      board := s.board.afterAll ((m.jobs g (m.realPlacements s.fabric)).map .loadData)
      phase := .loaded }) := by
  obtain ⟨hafter, hok⟩ := s.board.generateAll_offers m g s.fabric
  rw [load_eq, ← hafter]
  rcases hgenerate : s.board.generateAll m g s.fabric with ⟨e | r, b⟩
  · exact ⟨e, rfl⟩
  · exact absurd (hok.1 ⟨r, by rw [hgenerate]⟩) h

/-- If all data is on the board, loading is what attempts to load the rest. -/
theorem load_attempts (hwrites : m.WritesAll g s.fabric) {offered : List BoardRequest}
    (hoffered : offered = (m.jobs g (m.realPlacements s.fabric)).map .loadData)
    (haccepts : s.board.AcceptsAll offered) :
    ∃ made, (load g m s).2
        = { s with board := (s.board.afterAll offered).afterAll made, phase := .loaded } ∧
      (s.board.afterAll offered).Attempts (s.loadRequests m) made ∧
      ((load g m s).1 = .ok () ↔ (s.board.afterAll offered).AcceptsAll (s.loadRequests m)) := by
  obtain ⟨hafter, hok⟩ := s.board.generateAll_offers m g s.fabric
  rw [← hoffered] at hafter hok
  obtain ⟨made, hmade, hattempts, hloaded⟩ :=
    (s.board.afterAll offered).submitAll_attempts (s.loadRequests m)
  obtain ⟨r, hr⟩ := hok.2 ⟨hwrites, haccepts⟩
  have hgenerate : s.board.generateAll m g s.fabric = (.ok r, s.board.afterAll offered) :=
    Prod.ext hr hafter
  rw [load_eq, hgenerate]
  exact ⟨made, hmade ▸ rfl, hattempts, hloaded⟩

/-! ## Starting and reading -/

theorem startAndRead_attempts (reads : Bool) (s : Simulator) :
    ∃ b phase made, (startAndRead reads s).2 = { s with board := b, phase := phase } ∧
      b = s.board.afterAll made ∧
      s.board.Attempts (.start s.config.machine.appId s.timeSteps ::
        (if reads then s.targets.toList.map fun e => .readProvenance e.1 e.2 else [])) made := by
  unfold startAndRead
  rw [start_eq]
  rcases hsubmit : s.board.submit (.start s.config.machine.appId s.timeSteps) with ⟨e | _, after⟩
  · have hafter : after = s.board.afterAll [.start s.config.machine.appId s.timeSteps] :=
      (congrArg Prod.snd hsubmit).symm
    exact ⟨after, s.phase, _, rfl, hafter, .refused (by simp [hsubmit])⟩
  · have hafter : after = s.board.afterAll [.start s.config.machine.appId s.timeSteps] :=
      (congrArg Prod.snd hsubmit).symm
    have haccepts : (s.board.submit (.start s.config.machine.appId s.timeSteps)).1 = .ok () := by
      rw [hsubmit]
    cases reads with
    | false => exact ⟨after, .running, _, rfl, hafter, .cons haccepts (.all trivial)⟩
    | true =>
        obtain ⟨made, hread, hattempts⟩ := after.readAll_attempts s.targets.toList
        have hmade : after.afterAll made
            = s.board.afterAll (.start s.config.machine.appId s.timeSteps :: made) := by
          rw [hafter]
          rfl
        simp only [readProvenance_eq]
        refine ⟨_, .running, .start s.config.machine.appId s.timeSteps :: made, rfl,
          hread.trans hmade, .cons haccepts ?_⟩
        rw [hsubmit]
        exact hattempts

/-- What is loaded is started, and its values are read, as far as the configuration says. -/
theorem startPlan_attempts (hload : s.config.execution.load = true) :
    ∃ b phase made, (if s.config.startsApplication then startAndRead s.config.readsProvenance s
        else (.ok [], s)).2 = { s with board := b, phase := phase } ∧ b = s.board.afterAll made ∧
      s.board.Attempts (s.config.startPlan s.timeSteps s.targets.toList) made := by
  unfold Config.startPlan
  by_cases hrun : s.config.execution.run = true
  · have hstarts : s.config.startsApplication = true := by
      simp [Config.startsApplication, hload, hrun]
    have hreads : s.config.readsProvenance = s.config.reports.provenance := by
      simp [Config.readsProvenance, hstarts]
    rw [if_pos hstarts, if_pos hrun, hreads]
    exact startAndRead_attempts s.config.reports.provenance s
  · have hstarts : ¬ s.config.startsApplication = true := by
      simp [Config.startsApplication, hrun]
    rw [if_neg hstarts, if_neg hrun]
    exact ⟨s.board, s.phase, [], rfl, rfl, .all trivial⟩

/-! ## Executing -/

/-- **Executing.** Only the board and the phase change, and the board is asked for what the
    execution of the mapping consists of. -/
theorem execute_executes (htargets : m.targets g s.fabric = .ok s.targets) :
    ∃ b phase made, (execute g m s).2 = { s with board := b, phase := phase } ∧
      b = s.board.afterAll made ∧
      s.board.Executes s.config g m s.fabric s.timeSteps made := by
  have hjobs := Mapping.listsJobs_jobs (m := m) (g := g) (.refl (m.realPlacements s.fabric))
  have htables := m.listsTables_realTables s.fabric
  have hgroups := Mapping.listsGroups_targets htargets
  rw [execute_eq]
  by_cases hload : s.config.execution.load = true
  · rw [if_pos hload]
    by_cases hready : m.WritesAll g s.fabric ∧
        s.board.AcceptsAll ((m.jobs g (m.realPlacements s.fabric)).map .loadData)
    · obtain ⟨hwrites, haccepts⟩ := hready
      obtain ⟨made, hmade, hattempts, hok⟩ := load_attempts hwrites rfl haccepts
      rcases hrun : load g m s with ⟨e | _, s₁⟩
      · rw [hrun] at hmade hok
        -- something was refused in loading, so that nothing is started
        have hrefused : ¬ (s.board.afterAll _).AcceptsAll (s.loadRequests m) :=
          fun hall => absurd (hok.2 hall) (by simp)
        refine ⟨_, .loaded, _, hmade, (Board.afterAll_append ..).symm,
          .launching hload hjobs hwrites haccepts htables hgroups
            (hattempts.append_of_not_acceptsAll hrefused _)⟩
      · rw [hrun] at hmade hok
        have hloaded := hok.1 rfl
        obtain rfl := hattempts.eq_of_acceptsAll hloaded
        obtain rfl := hmade
        obtain ⟨b, phase, started, hstarted, hafter, hattempts'⟩ := startPlan_attempts
          (s := { s with board := _, phase := .loaded }) hload
        refine ⟨b, phase, _, hstarted, ?_, .launching hload hjobs hwrites haccepts htables hgroups
          (.append hloaded hattempts')⟩
        rw [hafter, Board.afterAll_append, Board.afterAll_append]
        rfl
    · obtain ⟨e, hmissing⟩ := load_of_missing hready
      rw [hmissing]
      exact ⟨_, .loaded, _, rfl, rfl, .generating hload hjobs hready⟩
  · rw [if_neg hload]
    exact ⟨s.board, s.phase, [], rfl, rfl, .skipped (by simpa using hload)⟩

/-! ## Running -/

/-- The steps of a run are those of its length, unless the length is refused. -/
theorem checkedSteps_cases (s : Simulator) (g : ApplicationGraph) (length : RunLength) :
    (s.RefusesLength g length ∧
      ∃ reason, s.checkedSteps g length = .error (.invalidTiming reason)) ∨
    (¬ s.RefusesLength g length ∧ ∃ steps, s.checkedSteps g length = .ok steps ∧
      length.timeSteps s.config.machine.timeStepUs = .ok steps) := by
  unfold checkedSteps RefusesLength
  cases length with
  | bounded ms =>
      simp only [RunLength.timeSteps]
      cases RunLength.boundedSteps ms s.config.machine.timeStepUs with
      | error e => exact .inl ⟨.inl ⟨_, rfl⟩, _, rfl⟩
      | ok steps => exact .inr ⟨by simp, _, rfl, rfl⟩
  | unbounded =>
      simp only [RunLength.timeSteps]
      cases hfind : g.units.find? (fun u => u.recordSpikes) with
      | none =>
          rw [List.find?_eq_none] at hfind
          exact .inr ⟨by simpa using hfind, _, rfl, rfl⟩
      | some u =>
          have hrecords := List.find?_some hfind
          exact .inl ⟨.inr ⟨trivial, u, List.mem_of_find?_eq_some hfind, hrecords⟩, _, rfl⟩

/-- When nothing is loaded, a run asks the board for what the execution of the mapping consists
    of, if there is a mapping. -/
theorem runFresh_executes (s : Simulator) (g : ApplicationGraph) (steps : Option UInt64)
    (hm : s.mapping = none) :
    ((s.runFresh g steps).simulator.board = s.board ∧
      (s.runFresh g steps).simulator.mapping = none ∧ ∀ m f, ¬ s.config.Compiles g m f) ∨
    ∃ m made, (s.runFresh g steps).simulator.board = s.board.afterAll made ∧
      (s.runFresh g steps).simulator.mapping = some m ∧
      s.config.Compiles g m (s.runFresh g steps).simulator.fabric ∧
      s.board.Executes s.config g m (s.runFresh g steps).simulator.fabric steps made := by
  unfold runFresh
  split
  · next hf =>
      refine .inl ⟨rfl, hm, ?_⟩
      rintro m f ⟨mesh, targets, hmesh, -⟩
      exact absurd (hf.symm.trans hmesh) (by simp)
  · next f hf =>
      simp only
      split
      · next hcompiled =>
          refine .inl ⟨rfl, hm, ?_⟩
          rintro m f' ⟨mesh, targets, hmesh, hm', rfl, htargets⟩
          obtain rfl : f = mesh := Except.ok.inj (hf.symm.trans hmesh)
          rw [compileTargets, hm', ok_bind, htargets] at hcompiled
          exact absurd hcompiled (by simp [pure_eq_ok, ok_bind])
      · next m targets hcompiled =>
          obtain ⟨m', hm', hcompiled⟩ := bind_eq_ok_iff.1 hcompiled
          obtain ⟨targets', htargets, hcompiled⟩ := bind_eq_ok_iff.1 hcompiled
          obtain ⟨rfl, rfl⟩ := Prod.mk.inj (Except.ok.inj hcompiled)
          obtain ⟨b, phase, made, hafter, hb, hexecutes⟩ := execute_executes
            (s := s.mapped (compile s.config g f).fabric m' targets' steps) htargets
          have hcompilation : (s.compileTargets g f).1 = compile s.config g f := rfl
          rw [hcompilation]
          rcases hrun : execute g m' (s.mapped (compile s.config g f).fabric m' targets' steps)
            with ⟨provenance, after⟩
          rw [hrun] at hafter
          obtain rfl : after = _ := hafter
          exact .inr ⟨m', made, hb, rfl, ⟨f, _, hf, hm', rfl, htargets⟩, hexecutes⟩

theorem run_asks (h : s.Sound) (g : ApplicationGraph) (length : RunLength) :
    ∃ made, (s.run g length).simulator.board = s.board.afterAll made ∧
      s.Asks g length (s.run g length) made := by
  unfold run
  rcases checkedSteps_cases s g length with ⟨hrefuses, reason, hsteps⟩ |
    ⟨haccepts, steps, hsteps, htimeSteps⟩
  · rw [hsteps]
    exact ⟨[], rfl, .refused hrefuses rfl⟩
  · rw [hsteps]
    obtain ⟨stops, made, hstops, hafter, hattempts, hok⟩ := stop_attempts h
    obtain ⟨b, phase, hb, -⟩ := stop_spec h
    rcases hstop : stop s with ⟨e | _, after⟩
    · rw [hstop] at hafter hok
      have hrefused : ¬ s.board.AcceptsAll stops := fun hall => absurd (hok.2 hall) (by simp)
      exact ⟨made, hafter, .stopping haccepts hstops hattempts hrefused⟩
    · rw [hstop] at hafter hok hb
      have hstopped := hok.1 rfl
      obtain rfl := hattempts.eq_of_acceptsAll hstopped
      obtain rfl : b = s.board.afterAll made := (congrArg board hb).symm.trans hafter
      obtain rfl : after = { s with board := s.board.afterAll made, phase := phase } := hb
      rcases runFresh_executes (reset { s with board := s.board.afterAll made, phase := phase }) g
        steps rfl with ⟨hboard, hnone, hcompiles⟩ | ⟨m, started, hboard, hm, hcompiles, hexecutes⟩
      · exact ⟨made, hboard, .unmapped haccepts hstops hstopped hcompiles hnone⟩
      · refine ⟨made ++ started, ?_,
          .executing haccepts hstops hstopped hm hcompiles htimeSteps hexecutes⟩
        rw [Board.afterAll_append]
        exact hboard

/-- **The order of requests.** After every history, faults included, the requests that a run makes
    are those that the board records, and they are what a run asks for. -/
theorem requests_of_run (config : Config) (events : List Event) (g : ApplicationGraph)
    (length : RunLength) :
    ∃ made, ((afterEvents config events).run g length).simulator.board.requests
        = (afterEvents config events).board.requests ++ made ∧
      ((afterEvents config events).run g length).simulator.board
        = (afterEvents config events).board.afterAll made ∧
      (afterEvents config events).Asks g length ((afterEvents config events).run g length)
        made := by
  obtain ⟨made, hboard, hasks⟩ := run_asks (afterEvents_sound config events).2 g length
  refine ⟨made, ?_, hboard, hasks⟩
  rw [hboard, Board.requests_afterAll]

end Simulator

end SpikeMesh
