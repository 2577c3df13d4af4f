import SpikeMesh.Proofs.Board.Requests
import SpikeMesh.Run.Generation

set_option autoImplicit false

/-! # Boards that cannot be told apart

Two boards may differ in their tags, in what they have recorded, and in the steps of an application
that was stopped. No request tells them apart: it has the same outcome on both, and leaves both
alike. -/

namespace SpikeMesh

/-- Two computations have the same outcome and leave related states. -/
def Agree {α σ : Type} (R : σ → σ → Prop) (x y : α × σ) : Prop :=
  ∃ outcome s t, x = (outcome, s) ∧ y = (outcome, t) ∧ R s t

theorem Agree.intro {α σ : Type} {R : σ → σ → Prop} (outcome : α) {s t : σ} (h : R s t) :
    Agree R (outcome, s) (outcome, t) :=
  ⟨outcome, s, t, rfl, rfl, h⟩

namespace Board

/-- The same is loaded, runs and is faulty. -/
structure Alike (a b : Board) : Prop where
  cores_eq : a.cores = b.cores
  executables_eq : a.executables = b.executables
  tables_eq : a.tables = b.tables
  running_eq : a.running = b.running
  steps_eq : a.running.isSome = true → a.stepsCompleted = b.stepsCompleted
  faults_eq : a.faults = b.faults
  failingCores_eq : a.failingCores = b.failingCores

variable {a b : Board}

theorem Alike.record (h : a.Alike b) (r : BoardRequest) : (a.record r).Alike (b.record r) :=
  ⟨h.cores_eq, h.executables_eq, h.tables_eq, h.running_eq, h.steps_eq, h.faults_eq,
    h.failingCores_eq⟩

/-- Boards that run alike report the same values. -/
theorem Alike.provenance_eq (h : a.Alike b) (hrunning : a.running.isSome = true) (image : String)
    (cores : CoreSet) : a.provenance image cores = b.provenance image cores := by
  have hcore : a.coreProvenance image = b.coreProvenance image := by
    funext l
    rw [coreProvenance, coreProvenance, h.cores_eq, h.steps_eq hrunning]
  rw [provenance, provenance, hcore]

/-- A request is carried out on both boards or refused by both, for one reason. -/
theorem Alike.effect (h : a.Alike b) (r : BoardRequest)
    (hread : r.operation = .readProvenance → a.running.isSome = true) :
    (∃ a' b', a.effect r = .ok a' ∧ b.effect r = .ok b' ∧ a'.Alike b') ∨
      ∃ e, a.effect r = .error e ∧ b.effect r = .error e := by
  cases r with
  | loadData job =>
      simp only [Board.effect, loadData, h.failingCores_eq, h.cores_eq]
      split
      · exact .inr ⟨_, rfl, rfl⟩
      · split
        · exact .inr ⟨_, rfl, rfl⟩
        · exact .inl ⟨_, _, rfl, rfl, rfl, h.executables_eq, h.tables_eq, h.running_eq, h.steps_eq,
            h.faults_eq, rfl⟩
  | loadTable chip table =>
      have htables : a.tables.insert chip table = b.tables.insert chip table := by rw [h.tables_eq]
      exact .inl ⟨_, _, rfl, rfl, { h with tables_eq := htables }⟩
  | loadExecutable image cores =>
      simp only [Board.effect, loadExecutable, h.cores_eq, h.executables_eq]
      split
      · exact .inr ⟨_, rfl, rfl⟩
      · exact .inl ⟨_, _, rfl, rfl, rfl, rfl, h.tables_eq, h.running_eq, h.steps_eq, h.faults_eq,
          h.failingCores_eq⟩
  | loadTags tags => exact .inl ⟨_, _, rfl, rfl, { h with }⟩
  | start appId timeSteps =>
      simp only [Board.effect, start, h.executables_eq]
      split
      · exact .inr ⟨_, rfl, rfl⟩
      · exact .inl ⟨_, _, rfl, rfl, h.cores_eq, rfl, h.tables_eq, rfl, fun _ => rfl, h.faults_eq,
          h.failingCores_eq⟩
  | stop appId =>
      have hhalted : a.halted.Alike b.halted :=
        ⟨rfl, rfl, h.tables_eq, rfl, fun hrunning => absurd hrunning (by simp [halted]),
          h.faults_eq, h.failingCores_eq⟩
      simp only [Board.effect, stop, h.running_eq]
      split
      · split
        · exact .inl ⟨_, _, rfl, rfl, hhalted⟩
        · exact .inr ⟨_, rfl, rfl⟩
      · exact .inl ⟨_, _, rfl, rfl, hhalted⟩
  | readProvenance image cores =>
      simp only [Board.effect, h.provenance_eq (hread rfl) image cores]
      cases b.provenance image cores with
      | error e => exact .inr ⟨e, rfl, rfl⟩
      | ok items => exact .inl ⟨a, b, rfl, rfl, h⟩
  | clearTable chip =>
      have htables : a.tables.erase chip = b.tables.erase chip := by rw [h.tables_eq]
      exact .inl ⟨_, _, rfl, rfl, { h with tables_eq := htables }⟩

/-- **No request tells the boards apart.** Values are read only while an application runs. -/
theorem Alike.submit (h : a.Alike b) (r : BoardRequest)
    (hread : r.operation = .readProvenance → a.running.isSome = true) :
    Agree Alike (a.submit r) (b.submit r) := by
  unfold Board.submit
  simp only [h.faults_eq]
  split
  · exact .intro _ (h.record r)
  · rcases (h.record r).effect r hread with ⟨a', b', ha, hb, halike⟩ | ⟨e, ha, hb⟩
    · rw [ha, hb]
      exact .intro _ halike
    · rw [ha, hb]
      exact .intro _ (h.record r)

/-! ## Many requests -/

theorem Alike.submitAll (h : a.Alike b) {requests : List BoardRequest}
    (hread : ∀ r ∈ requests, r.operation ≠ .readProvenance) :
    Agree Alike (a.submitAll requests) (b.submitAll requests) := by
  induction requests generalizing a b with
  | nil => exact .intro _ h
  | cons r rest ih =>
      obtain ⟨outcome, a', b', ha, hb, halike⟩ :=
        h.submit r (fun hr => absurd hr (hread r List.mem_cons_self))
      simp only [Board.submitAll, ha, hb]
      cases outcome with
      | error e => exact .intro _ halike
      | ok _ => exact ih halike (fun r' hr' => hread r' (List.mem_cons_of_mem r hr'))

/-- Values that are read while an application runs are the same. -/
theorem Alike.readProvenance (h : a.Alike b) (hrunning : a.running.isSome = true) (image : String)
    (cores : CoreSet) :
    Agree Alike (a.readProvenance image cores) (b.readProvenance image cores) := by
  obtain ⟨outcome, a', b', ha, hb, halike⟩ :=
    h.submit (.readProvenance image cores) (fun _ => hrunning)
  have hkept := contents_readProvenance a image cores
  simp only [Board.readProvenance, ha, hb] at hkept ⊢
  cases outcome with
  | error e => exact .intro _ halike
  | ok _ =>
      have hrunning' : a'.running = a.running := congrArg Contents.running hkept
      simp only [halike.provenance_eq (hrunning' ▸ hrunning) image cores]
      exact .intro _ halike

theorem Alike.readAll (h : a.Alike b) (hrunning : a.running.isSome = true)
    (groups : List (String × CoreSet)) : Agree Alike (a.readAll groups) (b.readAll groups) := by
  induction groups generalizing a b with
  | nil => exact .intro _ h
  | cons group rest ih =>
      obtain ⟨image, cores⟩ := group
      obtain ⟨outcome, a', b', ha, hb, halike⟩ := h.readProvenance hrunning image cores
      have hkept := contents_readProvenance a image cores
      simp only [ha, Board.readAll, hb] at hkept ⊢
      cases outcome with
      | error e => exact .intro _ halike
      | ok items =>
          have hrunning' : a'.running = a.running := congrArg Contents.running hkept
          obtain ⟨outcome, a'', b'', ha', hb', halike'⟩ := ih halike (hrunning' ▸ hrunning)
          simp only [ha', hb']
          cases outcome with
          | error e => exact .intro _ halike'
          | ok more => exact .intro _ halike'

/-! ## Generating data -/

theorem Alike.generate (h : a.Alike b) (m : Mapping) (g : ApplicationGraph) (s : SliceId)
    (l : Location) : Agree Alike (a.generate m g s l) (b.generate m g s l) := by
  unfold Board.generate
  cases m.loadJob g s l with
  | error e => exact .intro _ h
  | ok job =>
      obtain ⟨outcome, a', b', ha, hb, halike⟩ :=
        h.submit (.loadData job) (fun hr => absurd hr (by simp [BoardRequest.operation]))
      simp only [ha, hb]
      cases outcome with
      | error e => exact .intro _ halike
      | ok _ => exact .intro _ halike

theorem Alike.generateEach (h : a.Alike b) (m : Mapping) (g : ApplicationGraph)
    (order : List (SliceId × Location)) :
    Agree Alike (a.generateEach m g order) (b.generateEach m g order) := by
  induction order generalizing a b with
  | nil => exact .intro _ h
  | cons e rest ih =>
      obtain ⟨s, l⟩ := e
      obtain ⟨outcome, a', b', ha, hb, halike⟩ := h.generate m g s l
      obtain ⟨outcomes, a'', b'', ha', hb', halike'⟩ := ih halike
      simp only [Board.generateEach, ha, hb, ha', hb']
      exact .intro _ halike'

theorem Alike.generateAll (h : a.Alike b) (m : Mapping) (g : ApplicationGraph) (f : Fabric) :
    Agree Alike (a.generateAll m g f) (b.generateAll m g f) := by
  obtain ⟨outcomes, a', b', ha, hb, halike⟩ := h.generateEach m g (m.realPlacements f)
  simp only [Board.generateAll, generateIn, ha, hb]
  exact .intro _ halike

end Board

end SpikeMesh
