import SpikeMesh.Proofs.Board.Alike
import SpikeMesh.Proofs.Run.History
import SpikeMesh.Proofs.Run.Service

set_option autoImplicit false

/-! # Recovery

Once the faults are cleared, whatever went wrong before is forgotten. What is left on the board can
be stopped, and then the simulator cannot be told from a fresh one by any run. -/

namespace SpikeMesh

namespace Simulator

variable {s t : Simulator} {g : ApplicationGraph} {m : Mapping}

/-! ## Simulators that cannot be told apart -/

/-- The boards are alike, and all else is the same. -/
def Alike (s t : Simulator) : Prop := ∃ b, t = { s with board := b } ∧ s.board.Alike b

theorem Alike.load (h : s.Alike t) (g : ApplicationGraph) (m : Mapping) :
    Agree Alike (load g m s) (load g m t) := by
  obtain ⟨b, rfl, hboard⟩ := h
  obtain ⟨outcome, a', b', ha, hb, hgenerated⟩ := hboard.generateAll m g s.fabric
  rw [load_eq, load_eq]
  simp only [ha, hb]
  cases outcome with
  | error e => exact .intro _ ⟨b', rfl, hgenerated⟩
  | ok report =>
      have hread : ∀ r ∈ s.loadRequests m, r.operation ≠ .readProvenance := by
        intro r hr
        rw [loadRequests, List.mem_append, List.mem_append, List.mem_map, List.mem_map] at hr
        rcases hr with (⟨e, -, rfl⟩ | ⟨e, -, rfl⟩) | hr
        · simp [BoardRequest.operation]
        · simp [BoardRequest.operation]
        · split at hr
          · exact absurd hr (by simp)
          · simp [List.mem_singleton.1 hr, BoardRequest.operation]
      obtain ⟨outcome, a'', b'', ha', hb', hloaded⟩ := hgenerated.submitAll hread
      have hrequests : ({ s with board := b } : Simulator).loadRequests m = s.loadRequests m := rfl
      simp only [hrequests, ha', hb']
      exact .intro _ ⟨b'', rfl, hloaded⟩

/-- Values that are read after a start are those of the application that was started. -/
theorem Alike.startAndRead (h : s.Alike t) (reads : Bool) :
    Agree Alike (startAndRead reads s) (startAndRead reads t) := by
  obtain ⟨b, rfl, hboard⟩ := h
  obtain ⟨outcome, a', b', ha, hb, hstarted⟩ :=
    hboard.submit (.start s.config.machine.appId s.timeSteps)
      (fun hr => absurd hr (by simp [BoardRequest.operation]))
  rw [Simulator.startAndRead, Simulator.startAndRead, start_eq, start_eq]
  simp only [ha, hb]
  cases outcome with
  | error e => exact .intro _ ⟨b', rfl, hstarted⟩
  | ok _ =>
      cases reads with
      | false => exact .intro _ ⟨b', rfl, hstarted⟩
      | true =>
          have hrunning : a'.running.isSome = true := by
            rcases Board.submit_cases s.board (.start s.config.machine.appId s.timeSteps) with
              ⟨a, hsubmit, -, hcontents⟩ | ⟨e, hsubmit⟩
            · rw [ha] at hsubmit
              obtain rfl := (Prod.mk.inj hsubmit).2
              have hrunning := congrArg Board.Contents.running hcontents
              exact congrArg Option.isSome hrunning
            · rw [ha] at hsubmit
              exact absurd (Prod.mk.inj hsubmit).1 (by simp)
          obtain ⟨items, a'', b'', ha', hb', hread⟩ := hstarted.readAll hrunning s.targets.toList
          simp only [if_true, readProvenance_eq, ha', hb']
          exact .intro _ ⟨b'', rfl, hread⟩

theorem Alike.execute (h : s.Alike t) (g : ApplicationGraph) (m : Mapping) :
    Agree Alike (execute g m s) (execute g m t) := by
  obtain ⟨outcome, s', t', hs, ht, hloaded⟩ := h.load g m
  have hconfig : t.config = s.config := by
    obtain ⟨b, rfl, -⟩ := h
    rfl
  rw [execute_eq, execute_eq, hconfig]
  split
  · simp only [hs, ht]
    cases outcome with
    | error e => exact .intro _ hloaded
    | ok _ =>
        simp only
        split
        · exact hloaded.startAndRead _
        · exact .intro _ hloaded
  · exact .intro _ h

/-- Two runs have the same outcome, up to the boards that they leave. -/
structure RunOutcome.Alike (x y : RunOutcome) : Prop where
  result_eq : x.result = y.result
  findings_eq : x.findings = y.findings
  simulator : x.simulator.Alike y.simulator

theorem Alike.runFresh (h : s.Alike t) (g : ApplicationGraph) (timeSteps : Option UInt64) :
    (s.runFresh g timeSteps).Alike (t.runFresh g timeSteps) := by
  obtain ⟨b, rfl, hboard⟩ := h
  unfold Simulator.runFresh
  simp only
  split
  · exact ⟨rfl, rfl, b, rfl, hboard⟩
  · next f _ =>
      have hcompiled : ({ s with board := b } : Simulator).compileTargets g f
          = s.compileTargets g f := rfl
      simp only [hcompiled]
      split
      · exact ⟨rfl, rfl, b, rfl, hboard⟩
      · next m targets _ =>
          have hready : (s.mapped (s.compileTargets g f).1.fabric m targets timeSteps).Alike
              (({ s with board := b } : Simulator).mapped (s.compileTargets g f).1.fabric m targets
                timeSteps) := ⟨b, rfl, hboard⟩
          obtain ⟨provenance, s', t', hs, ht, hafter⟩ := hready.execute g m
          simp only [hs, ht]
          refine ⟨?_, rfl, hafter⟩
          obtain ⟨b', rfl, -⟩ := hafter
          rfl

/-! ## Starting afresh -/

/-- After a stop nothing is left, and the simulator is as good as a fresh one. -/
theorem exists_stopped (h : s.Sound) (hfree : s.board.FaultFree) :
    ∃ after, stop s = (.ok (), after) ∧ s.board.Serves after.board ∧ after.board.FaultFree ∧
      after.reset.Sound ∧ after.reset.Alike { config := s.config } := by
  obtain ⟨hok, hserves, hfree'⟩ := stop_serves h hfree
  obtain ⟨b, phase, hb, hsound, -, hunloaded⟩ := stop_spec h
  rw [hb] at hserves hfree'
  have hphase := hunloaded hok
  have hreset := hsound.reset hphase
  have hclear : b.contents.Clear := hsound.clear hphase
  have hidle : b.running = none := hreset.running_eq
  have hboard : b.Alike {} :=
    ⟨hclear.cores, hclear.executables, hclear.tables, hidle,
      fun hrunning => absurd hrunning (by simp [hidle]), hfree'.faults_eq, hfree'.failingCores_eq⟩
  exact ⟨{ s with board := b, phase := phase }, Prod.ext hok hb, hserves, hfree', hreset, {}, rfl,
    hboard⟩

/-- A run fails before it uses the board, as it does on a fresh simulator, or it stops what is left
    and then goes as on a fresh simulator. -/
theorem run_cases (h : s.Sound) (hfree : s.board.FaultFree) (g : ApplicationGraph)
    (length : RunLength) :
    (∃ e, s.run g length = ⟨s, [], .error e⟩ ∧
      run { config := s.config } g length = ⟨{ config := s.config }, [], .error e⟩) ∨
    ((s.run g length).Alike (run { config := s.config } g length) ∧
      s.board.Serves (s.run g length).simulator.board) := by
  obtain ⟨after, hstop, hserves, hfree', hreset, halike⟩ := exists_stopped h hfree
  have hfresh : stop { config := s.config } = (.ok (), { config := s.config }) := by
    rw [stop_eq]
    rfl
  have hsteps : ({ config := s.config } : Simulator).checkedSteps g length
      = s.checkedSteps g length := rfl
  simp only [run, hsteps, hstop, hfresh]
  cases s.checkedSteps g length with
  | error e => exact .inl ⟨e, rfl, rfl⟩
  | ok steps =>
      obtain ⟨hresult, hfindings, hsimulator⟩ := halike.runFresh g steps
      have hwarned := congrArg (fun findings =>
        (if length.isUnbounded then [unboundedWarning] else []) ++ findings) hfindings
      exact .inr ⟨⟨hresult, hwarned, hsimulator⟩,
        hserves.trans (runFresh_serves hreset rfl hfree' g steps)⟩

/-- The board can be stopped, and every run goes as on a fresh simulator with a board of its own. A
    run that succeeds leaves the same on the board. Of what is requested in a run the board refuses
    nothing, except that it may refuse to start. -/
structure Recovered (config : Config) (s : Simulator) : Prop where
  stops : (stop s).1 = .ok ()
  result_eq : ∀ g length, (s.run g length).result = (run { config := config } g length).result
  findings_eq : ∀ g length,
    (s.run g length).findings = (run { config := config } g length).findings
  alike : ∀ g length summary, (s.run g length).result = .ok summary →
    (s.run g length).simulator.Alike (run { config := config } g length).simulator
  accepts : ∀ g length, ∃ made, (s.run g length).simulator.board = s.board.afterAll made ∧
    (s.run g length).simulator.board.requests = s.board.requests ++ made ∧ s.board.Accepts made

theorem Sound.recovered (h : s.Sound) (hfree : s.board.FaultFree) : Recovered s.config s where
  stops := (stop_serves h hfree).1
  result_eq := by
    intro g length
    rcases run_cases h hfree g length with ⟨e, hs, hfresh⟩ | ⟨hsame, -⟩
    · rw [hs, hfresh]
    · exact hsame.result_eq
  findings_eq := by
    intro g length
    rcases run_cases h hfree g length with ⟨e, hs, hfresh⟩ | ⟨hsame, -⟩
    · rw [hs, hfresh]
    · exact hsame.findings_eq
  alike := by
    intro g length summary hok
    rcases run_cases h hfree g length with ⟨e, hs, -⟩ | ⟨hsame, -⟩
    · rw [hs] at hok
      exact absurd hok (by simp)
    · exact hsame.simulator
  accepts := by
    intro g length
    rcases run_cases h hfree g length with ⟨e, hs, -⟩ | ⟨-, hserves⟩
    · rw [hs]
      exact (Board.Serves.refl s.board).exists_recorded
    · exact hserves.exists_recorded

/-- **Recovery.** When the faults are cleared after any history, the simulator has recovered. -/
theorem recovered_after_clearFaults (config : Config) (events : List Event) :
    Recovered config (afterEvents config (events ++ [.clearFaults])) := by
  obtain ⟨hconfig, hsound⟩ := afterEvents_sound config (events ++ [.clearFaults])
  have hfree : (afterEvents config (events ++ [.clearFaults])).board.FaultFree := by
    rw [afterEvents_concat]
    exact Board.faultFree_clearFaults _
  have hrecovered := hsound.recovered hfree
  rwa [hconfig] at hrecovered

end Simulator

end SpikeMesh
