import Mathlib.Data.List.Induction
import SpikeMesh.Proofs.Fallible
import SpikeMesh.Proofs.Run.Soundness

set_option autoImplicit false

/-! # Histories

Runs, stops and faults in any order, from a fresh simulator on. Every one of them keeps the
simulator sound, whether it succeeds or not. After a run that succeeds the board holds all of its
mapping and nothing else, except for tags: these are replaced by a mapping that has some and never
taken away, so that a mapping without tags runs with those of an earlier one. -/

namespace SpikeMesh

/-- What can be done with a simulator and its board. -/
inductive Event
  | run (g : ApplicationGraph) (length : RunLength)
  | stop
  | inject (operation : BoardOperation) (fault : Fault)
  | failLoadAt (l : Location)
  | clearFaults

/-- The simulator after an event, whatever comes of it. -/
def Event.apply (s : Simulator) : Event → Simulator
  | run g length => (s.run g length).simulator
  | stop => (Simulator.stop s).2
  | inject operation fault => { s with board := s.board.inject operation fault }
  | failLoadAt l => { s with board := s.board.failLoadAt l }
  | clearFaults => { s with board := s.board.clearFaults }

namespace Simulator

/-- A simulator on a board of its own after some events. -/
def afterEvents (config : Config) (events : List Event) : Simulator :=
  events.foldl Event.apply { config := config }

variable {s : Simulator} {g : ApplicationGraph} {m : Mapping}

/-! ## Runs -/

/-- What a run leaves that started with some tags on the board. -/
structure Ran (out : RunOutcome) (config : Config) (g : ApplicationGraph) (tags : TagAllocations) :
    Prop where
  config_eq : out.simulator.config = config
  sound : out.simulator.Sound
  tags_eq : out.simulator.board.tags = tags ∨
    ∃ m, out.simulator.mapping = some m ∧ m.tags.isEmpty = false ∧ out.simulator.board.tags = m.tags
  loaded : ∀ summary, out.result = .ok summary → config.execution.load = true →
    ∃ m, out.simulator.mapping = some m ∧
      out.simulator.board.contents.Holds m g out.simulator.fabric ∧
      out.simulator.board.tags = if m.tags.isEmpty then tags else m.tags

/-- A run that fails before its mapping is made changes nothing. -/
theorem ran_of_error (h : s.Sound) {findings : List Diagnostic} {e : PipelineError} :
    Ran ⟨s, findings, .error e⟩ s.config g s.board.tags :=
  ⟨rfl, h, .inl rfl, fun _ hok => absurd hok (by simp)⟩

theorem runFresh_ran (h : s.Sound) (hidle : s.phase = .idle) (timeSteps : Option UInt64) :
    Ran (s.runFresh g timeSteps) s.config g s.board.tags := by
  unfold runFresh
  split
  · exact ran_of_error h
  · next f _ =>
      simp only
      split
      · exact ran_of_error h
      · next m targets hcompiled =>
          obtain ⟨m', -, hcompiled⟩ := bind_eq_ok_iff.1 hcompiled
          obtain ⟨targets', htargets, hcompiled⟩ := bind_eq_ok_iff.1 hcompiled
          obtain ⟨rfl, rfl⟩ := Prod.mk.inj (Except.ok.inj hcompiled)
          have hclear : s.board.contents.Clear := h.clear (by rw [hidle]; rfl)
          have hready : (s.mapped (compile s.config g f).fabric m' targets' timeSteps).Sound := by
            refine ⟨fun _ => hclear, fun hloaded => absurd hloaded Bool.false_ne_true, ?_,
              idle_iff_of_some (by simp [mapped]) rfl⟩
            show s.board.running = none
            rw [h.running_eq, expectedRunning, hidle]
          obtain ⟨b, phase, hb, hsound, htags, hall⟩ := execute_spec rfl rfl hready htargets
          have hcompilation : (s.compileTargets g f).1 = compile s.config g f := rfl
          rw [hcompilation]
          rcases hrun : execute g m' (s.mapped (compile s.config g f).fabric m' targets' timeSteps)
            with ⟨provenance, after⟩
          rw [hrun] at hb hall
          obtain rfl : after = _ := hb
          refine ⟨rfl, hsound, htags.imp id (fun htags => ⟨m', rfl, htags⟩), ?_⟩
          intro summary hok hload
          cases provenance with
          | error e => exact absurd hok (by simp [Except.map])
          | ok items => exact ⟨m', rfl, hall items rfl hload⟩

/-- A simulator without a mapping is sound if nothing is loaded. -/
theorem Sound.reset (h : s.Sound) (hphase : s.phase.holdsTables = false) : s.reset.Sound where
  clear := fun _ => h.clear hphase
  within := fun hloaded => absurd hloaded Bool.false_ne_true
  running_eq := by
    show s.board.running = none
    rw [h.running_eq, expectedRunning]
    split
    · next hrunning => exact absurd hphase (by simp [hrunning, Phase.holdsTables])
    · rfl
  idle_iff := ⟨fun _ => rfl, fun _ => rfl⟩

/-- **Running.** A run keeps the simulator sound wherever it fails. -/
theorem run_ran (h : s.Sound) (g : ApplicationGraph) (length : RunLength) :
    Ran (s.run g length) s.config g s.board.tags := by
  unfold run
  split
  · exact ran_of_error h
  · -- what is left of an earlier run is stopped first, which may fail
    obtain ⟨b, phase, hb, hsound, htags, hunloaded⟩ := stop_spec h
    simp only
    split
    · next e after hstop =>
        rw [hstop] at hb
        obtain rfl : after = { s with board := b, phase := phase } := hb
        rw [← htags]
        exact ran_of_error hsound
    · next after hstop =>
        rw [hstop] at hb hunloaded
        obtain rfl : after = { s with board := b, phase := phase } := hb
        rw [← htags]
        obtain ⟨hconfig, hsound', htags', hloaded⟩ :=
          runFresh_ran (g := g) (hsound.reset (hunloaded rfl)) rfl _
        exact ⟨hconfig, hsound', htags', hloaded⟩

/-! ## Histories -/

theorem Event.apply_sound (h : s.Sound) (e : Event) :
    (e.apply s).config = s.config ∧ (e.apply s).Sound := by
  cases e with
  | run g length => exact ⟨(run_ran h g length).config_eq, (run_ran h g length).sound⟩
  | stop =>
      obtain ⟨b, phase, hb, hsound, -, -⟩ := stop_spec h
      rw [Event.apply, hb]
      exact ⟨rfl, hsound⟩
  | inject operation fault => exact ⟨rfl, h.of_contents_eq rfl⟩
  | failLoadAt l => exact ⟨rfl, h.of_contents_eq rfl⟩
  | clearFaults => exact ⟨rfl, h.of_contents_eq rfl⟩

theorem afterEvents_concat (config : Config) (events : List Event) (e : Event) :
    afterEvents config (events ++ [e]) = e.apply (afterEvents config events) := by
  rw [afterEvents, List.foldl_append]
  rfl

theorem afterEvents_sound (config : Config) (events : List Event) :
    (afterEvents config events).config = config ∧ (afterEvents config events).Sound := by
  induction events using List.reverseRecOn with
  | nil => exact ⟨rfl, sound_fresh config⟩
  | append_singleton events e ih =>
      obtain ⟨hconfig, hsound⟩ := ih
      rw [afterEvents_concat]
      obtain ⟨hconfig', hsound'⟩ := Event.apply_sound hsound e
      exact ⟨hconfig'.trans hconfig, hsound'⟩

/-- **The board is as the simulator says, after every history.** As long as nothing is loaded, the
    board holds no data, no executables and no tables; otherwise it holds only what belongs to the
    mapping. It runs exactly in the phase for it, as the configuration and the state say. After a
    run that succeeds and loads, it holds all of the mapping and nothing else. -/
theorem board_follows_history (config : Config) (events : List Event) :
    (afterEvents config events).config = config ∧ (afterEvents config events).Sound ∧
    ∀ g length summary, ((afterEvents config events).run g length).result = .ok summary →
      config.execution.load = true →
      ∃ m, ((afterEvents config events).run g length).simulator.mapping = some m ∧
        ((afterEvents config events).run g length).simulator.board.contents.Holds m g
          ((afterEvents config events).run g length).simulator.fabric := by
  obtain ⟨hconfig, hsound⟩ := afterEvents_sound config events
  refine ⟨hconfig, hsound, ?_⟩
  intro g length summary hok hload
  obtain ⟨m, hm, hholds, -⟩ :=
    (run_ran hsound g length).loaded summary hok (by rw [hconfig]; exact hload)
  exact ⟨m, hm, hholds⟩

/-- One unit of one atom, with a notification tag or without one. -/
def singleUnit (tag : Option NotificationTagRequest) : ApplicationGraph where
  units :=
    [{ label := "a", atoms := 1, model := .linear ⟨"model", .zero, .zero, 4⟩,
       notificationTag := tag }]
  connections := []

/-- The unit with a tag runs. -/
def taggedHistory : List Event := [.run (singleUnit (some ⟨none, "host", 80⟩)) .unbounded]

/-- The unit without a tag runs next. -/
def untaggedRun : RunOutcome := (afterEvents {} taggedHistory).run (singleUnit none) .unbounded

theorem board_follows_taggedHistory : ∃ summary m, untaggedRun.result = .ok summary ∧
    untaggedRun.simulator.mapping = some m ∧
    untaggedRun.simulator.board.contents.Holds m (singleUnit none)
      untaggedRun.simulator.fabric := by
  obtain ⟨summary, hok⟩ := exists_eq_ok_of_isOk
    (by decide +kernel : untaggedRun.result.isOk = true)
  unfold untaggedRun at hok ⊢
  obtain ⟨-, -, hloaded⟩ := board_follows_history {} taggedHistory
  obtain ⟨m, hm, hholds⟩ := hloaded (singleUnit none) .unbounded summary hok rfl
  exact ⟨summary, m, hok, hm, hholds⟩

/-! ## Tags -/

/-- The tags on the board are those of the mapping of some run in the history. -/
def TagsOfRun (config : Config) (events : List Event) : Prop :=
  ∃ before g length m, before ++ [.run g length] <+: events ∧
    (afterEvents config (before ++ [.run g length])).mapping = some m ∧
    m.tags.isEmpty = false ∧ (afterEvents config events).board.tags = m.tags

/-- Tags stay when an event leaves them. -/
theorem TagsOfRun.concat {config : Config} {events : List Event} (h : TagsOfRun config events)
    {e : Event} (htags : (afterEvents config (events ++ [e])).board.tags
      = (afterEvents config events).board.tags) : TagsOfRun config (events ++ [e]) := by
  obtain ⟨before, g, length, m, hbefore, hm, hsome, htags'⟩ := h
  exact ⟨before, g, length, m, hbefore.trans (List.prefix_append events [e]), hm, hsome,
    htags.trans htags'⟩

/-- A board has no tags, or those of a run. -/
theorem afterEvents_tags (config : Config) (events : List Event) :
    (afterEvents config events).board.tags = .empty ∨ TagsOfRun config events := by
  induction events using List.reverseRecOn with
  | nil => exact .inl rfl
  | append_singleton events e ih =>
      have hsound := (afterEvents_sound config events).2
      have hkept : (afterEvents config (events ++ [e])).board.tags
          = (afterEvents config events).board.tags →
          (afterEvents config (events ++ [e])).board.tags = .empty ∨
            TagsOfRun config (events ++ [e]) :=
        fun htags => ih.imp htags.trans (fun h => h.concat htags)
      rw [afterEvents_concat] at hkept ⊢
      -- only a run changes the tags
      cases e with
      | run g length =>
          rcases (run_ran hsound g length).tags_eq with htags | ⟨m, hm, hsome, htags⟩
          · exact hkept htags
          · refine .inr ⟨events, g, length, m, List.prefix_rfl, ?_, hsome, ?_⟩
            · rw [afterEvents_concat]
              exact hm
            · rw [afterEvents_concat]
              exact htags
      | stop =>
          obtain ⟨b, phase, hb, -, htags, -⟩ := stop_spec hsound
          refine hkept ?_
          rw [Event.apply, hb]
          exact htags
      | inject operation fault => exact hkept rfl
      | failLoadAt l => exact hkept rfl
      | clearFaults => exact hkept rfl

/-- **Tags after a run.** If the mapping of a run that succeeds and loads has tags, these are on the
    board. If it has none, the board keeps the tags that it had: none, or those of an earlier
    run. -/
theorem tags_after_run {config : Config} {events : List Event} {length : RunLength}
    {summary : RunSummary} (hload : config.execution.load = true)
    (hok : ((afterEvents config events).run g length).result = .ok summary) :
    (∃ m, ((afterEvents config events).run g length).simulator.mapping = some m ∧
      ((afterEvents config events).run g length).simulator.board.tags
        = if m.tags.isEmpty then (afterEvents config events).board.tags else m.tags) ∧
    ((afterEvents config events).board.tags = .empty ∨ TagsOfRun config events) := by
  obtain ⟨hconfig, hsound⟩ := afterEvents_sound config events
  obtain ⟨m, hm, -, htags⟩ :=
    (run_ran hsound g length).loaded summary hok (by rw [hconfig]; exact hload)
  exact ⟨⟨m, hm, htags⟩, afterEvents_tags config events⟩

theorem tags_after_taggedHistory : ∃ summary m, untaggedRun.result = .ok summary ∧
    untaggedRun.simulator.mapping = some m ∧
    untaggedRun.simulator.board.tags
      = if m.tags.isEmpty then (afterEvents {} taggedHistory).board.tags else m.tags := by
  obtain ⟨summary, hok⟩ := exists_eq_ok_of_isOk
    (by decide +kernel : untaggedRun.result.isOk = true)
  unfold untaggedRun at hok ⊢
  obtain ⟨⟨m, hm, htags⟩, -⟩ := tags_after_run rfl hok
  exact ⟨summary, m, hok, hm, htags⟩

/-- The unit without a tag runs with the tag of the unit that ran before it. -/
theorem stale_tags : ¬ ∀ config events g length summary, config.execution.load = true →
    ((afterEvents config events).run g length).result = .ok summary →
    ∃ m, ((afterEvents config events).run g length).simulator.mapping = some m ∧
      ((afterEvents config events).run g length).simulator.board.tags = m.tags := by
  intro hclaim
  obtain ⟨summary, hok⟩ := exists_eq_ok_of_isOk
    (by decide +kernel : untaggedRun.result.isOk = true)
  have hboard : untaggedRun.simulator.board.tags.isEmpty = false := by decide +kernel
  have hmapping : untaggedRun.simulator.mapping.map (fun m => m.tags.isEmpty) = some true := by
    decide +kernel
  unfold untaggedRun at hok hboard hmapping
  obtain ⟨m, hm, htags⟩ := hclaim {} taggedHistory (singleUnit none) .unbounded summary rfl hok
  rw [hm] at hmapping
  have hnone : m.tags.isEmpty = true := Option.some.inj hmapping
  rw [htags, hnone] at hboard
  exact absurd hboard (by simp)

end Simulator

end SpikeMesh
