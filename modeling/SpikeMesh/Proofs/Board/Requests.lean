import SpikeMesh.Board.Basic
import SpikeMesh.Error
import SpikeMesh.Proofs.Collections

set_option autoImplicit false

/-! # Requests change what a board holds

What a board holds is changed by the requests that succeed, and by nothing else: a request that
fails is recorded only. Of a list of requests that are made until one fails, the ones before the
first failure therefore tell what the board holds afterwards. Reading changes nothing of it. -/

namespace SpikeMesh

namespace Board

/-- What a board holds and whether it runs. -/
structure Contents where
  cores : Std.ExtTreeMap Location LoadedCore
  executables : Std.ExtTreeMap String CoreSet
  tables : Std.ExtTreeMap ChipCoord RoutingTable
  tags : TagAllocations
  running : Option RunningApplication

def contents (b : Board) : Contents := ⟨b.cores, b.executables, b.tables, b.tags, b.running⟩

end Board

/-- What the core of a job holds after the job was done. -/
def LoadJob.core (job : LoadJob) : LoadedCore := ⟨job.slice, job.image, job.state.length⟩

namespace Board

namespace Contents

/-- What a board holds after a request that succeeds. -/
def after (c : Contents) : BoardRequest → Contents
  | .loadData job => { c with cores := c.cores.insert job.location job.core }
  | .loadTable chip table => { c with tables := c.tables.insert chip table }
  | .loadExecutable image cores => { c with executables := c.executables.insert image cores }
  | .loadTags tags => { c with tags := tags }
  | .start appId timeSteps => { c with running := some ⟨appId, timeSteps⟩ }
  | .stop _ => { c with running := none, cores := ∅, executables := ∅ }
  | .readProvenance _ _ => c
  | .clearTable chip => { c with tables := c.tables.erase chip }

/-- What a board holds after requests that all succeed. -/
def afterAll (c : Contents) (requests : List BoardRequest) : Contents := requests.foldl after c

end Contents

variable {b b' : Board}

/-! ## One request -/

/-- The effect of a request is that on what the board holds. -/
theorem contents_effect {r : BoardRequest} (h : b.effect r = .ok b') :
    b'.contents = b.contents.after r := by
  cases r with
  | loadData job =>
      simp only [effect, loadData] at h
      split at h
      · exact absurd h (by simp)
      · split at h
        · exact absurd h (by simp)
        · rw [← Except.ok.inj h]
          rfl
  | loadTable chip table =>
      rw [← Except.ok.inj h]
      rfl
  | loadExecutable image cores =>
      simp only [effect, loadExecutable] at h
      split at h
      · exact absurd h (by simp)
      · rw [← Except.ok.inj h]
        rfl
  | loadTags tags =>
      rw [← Except.ok.inj h]
      rfl
  | start appId timeSteps =>
      simp only [effect, start] at h
      split at h
      · exact absurd h (by simp)
      · rw [← Except.ok.inj h]
        rfl
  | stop appId =>
      simp only [effect, stop] at h
      split at h
      · split at h
        · rw [← Except.ok.inj h]
          rfl
        · exact absurd h (by simp)
      · rw [← Except.ok.inj h]
        rfl
  | readProvenance image cores =>
      simp only [effect] at h
      cases hp : b.provenance image cores with
      | error e =>
          rw [hp] at h
          exact absurd h (by simp [Except.map])
      | ok items =>
          rw [hp] at h
          rw [← Except.ok.inj h]
          rfl
  | clearTable chip =>
      rw [← Except.ok.inj h]
      rfl

theorem free_of_not_contains {l : Location} (h : ¬ b.cores.contains l = true) :
    b.cores[l]? = none := by
  rwa [Std.ExtTreeMap.contains_eq_isSome_getElem?, Bool.not_eq_true, Option.isSome_eq_false_iff,
    Option.isNone_iff_eq_none] at h

/-- A core takes data only if it holds none. -/
theorem free_of_loadData {job : LoadJob} (h : b.effect (.loadData job) = .ok b') :
    b.cores[job.location]? = none := by
  simp only [effect, loadData] at h
  split at h
  · exact absurd h (by simp)
  · split at h
    · exact absurd h (by simp)
    · next hfree => exact free_of_not_contains hfree

/-- A request succeeds and has its effect, or fails and leaves what the board holds. -/
theorem submit_cases (b : Board) (r : BoardRequest) :
    (∃ b', b.submit r = (.ok (), b') ∧ (b.record r).effect r = .ok b' ∧
      b'.contents = b.contents.after r) ∨
    ∃ e, b.submit r = (.error e, b.record r) := by
  simp only [submit]
  split
  · next fault _ => exact .inr ⟨_, rfl⟩
  · split
    · next b' heffect =>
        have hcontents : b'.contents = (b.record r).contents.after r := contents_effect heffect
        exact .inl ⟨b', rfl, heffect, hcontents⟩
    · next e _ => exact .inr ⟨e, rfl⟩

/-! ## Requests until one fails -/

/-- Make requests one after the other, up to the first that fails. -/
def submitAll (b : Board) : List BoardRequest → Except PipelineError Unit × Board
  | [] => (.ok (), b)
  | r :: rest =>
    match b.submit r with
    | (.ok (), after) => after.submitAll rest
    | (.error e, after) => (.error (.boardFailure r.operation.text e), after)

/-- All requests succeed, or those before the first failure do. -/
theorem submitAll_cases (b : Board) (requests : List BoardRequest) :
    (∃ b', b.submitAll requests = (.ok (), b') ∧
      b'.contents = b.contents.afterAll requests) ∨
    ∃ e b' done r rest, b.submitAll requests = (.error e, b') ∧ requests = done ++ r :: rest ∧
      b'.contents = b.contents.afterAll done := by
  induction requests generalizing b with
  | nil => exact .inl ⟨b, rfl, rfl⟩
  | cons r rest ih =>
      rcases submit_cases b r with ⟨b₁, hsubmit, -, hcontents⟩ | ⟨e, hsubmit⟩
      · have hstep : b.submitAll (r :: rest) = b₁.submitAll rest := by
          simp only [submitAll, hsubmit]
        rw [hstep]
        rcases ih b₁ with ⟨b', hall, hafter⟩ | ⟨e, b', done, r', rest', hall, hsplit, hafter⟩
        · refine .inl ⟨b', hall, ?_⟩
          rw [hafter, hcontents]
          rfl
        · refine .inr ⟨e, b', r :: done, r', rest', hall, by rw [hsplit]; rfl, ?_⟩
          rw [hafter, hcontents]
          rfl
      · refine .inr ⟨.boardFailure r.operation.text e, b.record r, [], r, rest, ?_, rfl, rfl⟩
        simp only [submitAll, hsubmit]

/-- What every request keeps up holds after all of them. -/
theorem Contents.afterAll_preserves {P : Contents → Prop} {requests : List BoardRequest}
    (hstep : ∀ r ∈ requests, ∀ c, P c → P (c.after r)) {c : Contents} (hc : P c) :
    P (c.afterAll requests) := by
  induction requests generalizing c with
  | nil => exact hc
  | cons r rest ih =>
      exact ih (fun r' hr' => hstep r' (List.mem_cons_of_mem r hr'))
        (hstep r List.mem_cons_self c hc)

/-- What every request keeps up holds after all that were made. -/
theorem submitAll_preserves {P : Contents → Prop} {requests : List BoardRequest}
    (hstep : ∀ r ∈ requests, ∀ c, P c → P (c.after r)) (hb : P b.contents) :
    P (b.submitAll requests).2.contents := by
  rcases submitAll_cases b requests with ⟨b', hall, hafter⟩ |
    ⟨e, b', done, r, rest, hall, hsplit, hafter⟩
  · rw [hall, hafter]
    exact Contents.afterAll_preserves hstep hb
  · rw [hall, hafter]
    refine Contents.afterAll_preserves (fun r' hr' => hstep r' ?_) hb
    rw [hsplit]
    exact List.mem_append_left _ hr'

/-! ## Reading -/

/-- Read the values of one group of cores after the other, up to the first that fails. -/
def readAll (b : Board) :
    List (String × CoreSet) → Except PipelineError (List ProvenanceItem) × Board
  | [] => (.ok [], b)
  | (image, cores) :: rest =>
    match b.readProvenance image cores with
    | (.ok items, after) =>
      match after.readAll rest with
      | (.ok more, last) => (.ok (items ++ more), last)
      | (.error e, last) => (.error e, last)
    | (.error e, after) => (.error (.boardFailure BoardOperation.readProvenance.text e), after)

theorem contents_readProvenance (b : Board) (image : String) (cores : CoreSet) :
    (b.readProvenance image cores).2.contents = b.contents := by
  unfold readProvenance
  rcases submit_cases b (.readProvenance image cores) with ⟨b', hsubmit, -, hcontents⟩ |
    ⟨e, hsubmit⟩
  · rw [hsubmit]
    exact hcontents
  · rw [hsubmit]
    rfl

/-- Reading leaves what a board holds. -/
theorem contents_readAll (b : Board) (groups : List (String × CoreSet)) :
    (b.readAll groups).2.contents = b.contents := by
  induction groups generalizing b with
  | nil => rfl
  | cons group rest ih =>
      obtain ⟨image, cores⟩ := group
      have hfirst := contents_readProvenance b image cores
      rw [readAll]
      rcases hread : b.readProvenance image cores with ⟨e | items, after⟩
      · rw [hread] at hfirst
        exact hfirst
      · rw [hread] at hfirst
        have hrest := (ih after).trans hfirst
        simp only
        rcases hmore : after.readAll rest with ⟨e | more, last⟩
        · rw [hmore] at hrest
          exact hrest
        · rw [hmore] at hrest
          exact hrest

/-! ## Requests of one kind -/

namespace Contents

theorem afterAll_append (c : Contents) (first second : List BoardRequest) :
    c.afterAll (first ++ second) = (c.afterAll first).afterAll second :=
  List.foldl_append ..

theorem afterAll_loadData (c : Contents) (jobs : List LoadJob) :
    c.afterAll (jobs.map .loadData) = { c with
      cores := jobs.foldl (fun cores job => cores.insert job.location job.core) c.cores } := by
  induction jobs generalizing c with
  | nil => rfl
  | cons job rest ih => exact ih _

theorem afterAll_loadTable (c : Contents) (tables : List (ChipCoord × RoutingTable)) :
    c.afterAll (tables.map fun e => .loadTable e.1 e.2) = { c with
      tables := tables.foldl (fun tables e => tables.insert e.1 e.2) c.tables } := by
  induction tables generalizing c with
  | nil => rfl
  | cons e rest ih => exact ih _

theorem afterAll_loadExecutable (c : Contents) (executables : List (String × CoreSet)) :
    c.afterAll (executables.map fun e => .loadExecutable e.1 e.2) = { c with
      executables := executables.foldl (fun all e => all.insert e.1 e.2) c.executables } := by
  induction executables generalizing c with
  | nil => rfl
  | cons e rest ih => exact ih _

theorem afterAll_clearTable (c : Contents) (chips : List ChipCoord) :
    c.afterAll (chips.map .clearTable) = { c with
      tables := chips.foldl (fun tables chip => tables.erase chip) c.tables } := by
  induction chips generalizing c with
  | nil => rfl
  | cons chip rest ih => exact ih _

end Contents

end Board

end SpikeMesh
