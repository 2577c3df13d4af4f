import SpikeMesh.Proofs.Run.Generation
import SpikeMesh.Run.Simulator

set_option autoImplicit false

/-! # Actions of a simulator, state by state

Each action as a function of the state in which it is taken: its outcome, and the state that it
leaves. -/

namespace SpikeMesh

namespace Simulator

/-! ## Sequences -/

theorem bind_run {α β : Type} (x : Action α) (f : α → Action β) (s : Simulator) :
    (x >>= f) s = match x s with
      | (.ok a, s') => f a s'
      | (.error e, s') => (.error e, s') := by
  show (match x s with | (r, s') => ExceptT.bindCont f r s') = _
  rcases x s with ⟨_ | _, s'⟩
  · rfl
  · rfl

theorem get_run (s : Simulator) : (get : Action Simulator) s = (.ok s, s) := rfl

theorem enter_run (phase : Phase) (s : Simulator) :
    enter phase s = (.ok (), { s with phase := phase }) := rfl

theorem discard_run {α : Type} (x : Action α) (s : Simulator) :
    (discard x) s = match x s with
      | (.ok _, s') => (.ok (), s')
      | (.error e, s') => (.error e, s') := by
  have hmap : discard x = x >>= fun _ => pure () := map_eq_pure_bind _ x
  rw [hmap, bind_run]
  rfl

/-- Requests that are made one after the other change the board only. -/
theorem forM_submit (requests : List BoardRequest) (s : Simulator) :
    (requests.forM submit) s = ((s.board.submitAll requests).1,
      { s with board := (s.board.submitAll requests).2 }) := by
  induction requests generalizing s with
  | nil => rfl
  | cons r rest ih =>
      show (submit r >>= fun _ => rest.forM submit) s = _
      rw [bind_run]
      simp only [submit, onBoard, Board.submitAll]
      rcases hsubmit : s.board.submit r with ⟨_ | _, after⟩
      · rfl
      · exact ih _

/-! ## Stopping, loading and starting -/

theorem stop_eq (s : Simulator) : stop s =
    if s.phase.holdsTables then
      match s.board.submitAll s.stopRequests with
      | (.ok (), b) => (.ok (), { s with board := b, phase := .stopped })
      | (.error e, b) => (.error e, { s with board := b })
    else (.ok (), s) := by
  unfold stop
  rw [bind_run, get_run]
  show (if s.phase.holdsTables = true then _ else _ : Action Unit) s = _
  split
  · rw [bind_run, forM_submit]
    rcases s.board.submitAll s.stopRequests with ⟨_ | _, b⟩
    · rfl
    · rfl
  · rfl

theorem load_eq (g : ApplicationGraph) (m : Mapping) (s : Simulator) : load g m s =
    match s.board.generateAll m g s.fabric with
    | (.ok _, b) => ((b.submitAll (s.loadRequests m)).1,
        { s with board := (b.submitAll (s.loadRequests m)).2, phase := .loaded })
    | (.error e, b) => (.error e, { s with board := b, phase := .loaded }) := by
  simp only [load, bind_run, enter_run, get_run, discard_run, onBoard]
  rcases s.board.generateAll m g s.fabric with ⟨_ | _, b⟩
  · rfl
  · exact forM_submit _ _

theorem start_eq (s : Simulator) : start s =
    match s.board.submit (.start s.config.machine.appId s.timeSteps) with
    | (.ok (), b) => (.ok (), { s with board := b, phase := .running })
    | (.error e, b) =>
      (.error (.boardFailure BoardOperation.start.text e), { s with board := b }) := by
  simp only [start, bind_run, get_run, submit, onBoard]
  rcases s.board.submit (.start s.config.machine.appId s.timeSteps) with ⟨_ | _, b⟩
  · rfl
  · rfl

/-! ## Reading -/

/-- Ask for the values of the cores of an executable. -/
def readGroup (group : String × CoreSet) : Action (List ProvenanceItem) :=
  onBoard fun b =>
    (blame .readProvenance (b.readProvenance group.1 group.2).1,
      (b.readProvenance group.1 group.2).2)

theorem mapM_readGroup (groups : List (String × CoreSet)) (s : Simulator) :
    ((groups.mapM readGroup s).1.map List.flatten, (groups.mapM readGroup s).2) =
      ((s.board.readAll groups).1, { s with board := (s.board.readAll groups).2 }) := by
  induction groups generalizing s with
  | nil => rfl
  | cons group rest ih =>
      rw [List.mapM_cons, bind_run]
      simp only [readGroup, onBoard, Board.readAll]
      rcases s.board.readProvenance group.1 group.2 with ⟨e | items, after⟩
      · rfl
      · have hrest : ((rest.mapM readGroup { s with board := after }).1.map List.flatten,
            (rest.mapM readGroup { s with board := after }).2) =
            ((after.readAll rest).1, { s with board := (after.readAll rest).2 }) :=
          ih { s with board := after }
        simp only [blame, bind_run]
        -- both go on with the rest in the same way
        rcases hread : rest.mapM readGroup { s with board := after } with ⟨e | read, s'⟩ <;>
          rcases hmore : after.readAll rest with ⟨e' | more, last⟩ <;>
          rw [hread, hmore] at hrest
        · exact hrest
        · exact absurd (congrArg Prod.fst hrest) (by simp [Except.map])
        · exact absurd (congrArg Prod.fst hrest) (by simp [Except.map])
        · obtain ⟨hitems, hstate⟩ := Prod.mk.inj hrest
          obtain rfl : read.flatten = more := Except.ok.inj hitems
          exact Prod.ext rfl hstate

theorem readProvenance_eq (s : Simulator) : readProvenance s =
    ((s.board.readAll s.targets.toList).1,
      { s with board := (s.board.readAll s.targets.toList).2 }) := by
  have hgroups := mapM_readGroup s.targets.toList s
  show (s.targets.toList.mapM readGroup >>= fun groups => pure groups.flatten) s = _
  rw [bind_run]
  rcases hrun : s.targets.toList.mapM readGroup s with ⟨e | groups, s'⟩
  · rw [hrun] at hgroups
    exact hgroups
  · rw [hrun] at hgroups
    exact hgroups

/-! ## Executing -/

/-- Start what is loaded, and read its provenance if this is asked for. -/
def startAndRead (reads : Bool) (s : Simulator) :
    Except PipelineError (List ProvenanceItem) × Simulator :=
  match start s with
  | (.error e, s') => (.error e, s')
  | (.ok (), s') => if reads then readProvenance s' else (.ok [], s')

/-- An execution loads, starts and reads as far as the configuration says and nothing fails. -/
theorem execute_eq (g : ApplicationGraph) (m : Mapping) (s : Simulator) : execute g m s =
    if s.config.execution.load then
      match load g m s with
      | (.error e, s') => (.error e, s')
      | (.ok (), s') =>
        if s.config.startsApplication then startAndRead s.config.readsProvenance s'
        else (.ok [], s')
    else (.ok [], s) := by
  simp only [execute, bind_run, get_run]
  by_cases hload : s.config.execution.load = true
  · rw [if_pos hload, if_pos hload, bind_run]
    rcases load g m s with ⟨_ | _, s₁⟩
    · rfl
    · by_cases hstart : s.config.startsApplication = true
      · simp only [if_pos hstart, bind_run, startAndRead]
        rcases start s₁ with ⟨_ | _, s₂⟩
        · rfl
        · by_cases hread : s.config.readsProvenance = true
          · simp only [if_pos hread]
          · simp only [if_neg hread]
            rfl
      · have hread : s.config.readsProvenance = false := by
          simp [Config.readsProvenance, hstart]
        simp only [if_neg hstart, hread]
        rfl
  · have hstart : s.config.startsApplication = false := by simp [Config.startsApplication, hload]
    have hread : s.config.readsProvenance = false := by simp [Config.readsProvenance, hstart]
    simp only [if_neg hload, hstart, hread]
    rfl

end Simulator

end SpikeMesh
