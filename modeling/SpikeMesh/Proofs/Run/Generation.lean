import SpikeMesh.Proofs.Board.Requests
import SpikeMesh.Run.Generation

set_option autoImplicit false

/-! # What data generation leaves on a board

Generation writes the data of some of the slices that it deals with, each to a core that held
none before. If it reports no failure, it has written the data of all of them. -/

namespace SpikeMesh

variable {m : Mapping} {g : ApplicationGraph} {b : Board}

/-- The data of a slice is for the slice and for its core. -/
theorem Mapping.loadJob_eq_ok {s : SliceId} {l : Location} {job : LoadJob}
    (h : m.loadJob g s l = .ok job) : job.slice = s ∧ job.location = l := by
  unfold Mapping.loadJob at h
  split at h
  · exact absurd h (by simp)
  · split at h
    · exact absurd h (by simp)
    · split at h
      · rw [← Except.ok.inj h]
        exact ⟨rfl, rfl⟩
      · exact absurd h (by simp)

namespace Board

/-- The data of a slice is written to a core without data, or the board holds what it held. -/
theorem generate_cases (b : Board) (m : Mapping) (g : ApplicationGraph) (s : SliceId)
    (l : Location) :
    (∃ job b', m.loadJob g s l = .ok job ∧ b.generate m g s l = (.ok job.state.length, b') ∧
      b.cores[job.location]? = none ∧ b'.contents = b.contents.after (.loadData job)) ∨
    ∃ e b', b.generate m g s l = (.error e, b') ∧ b'.contents = b.contents := by
  unfold generate
  cases hjob : m.loadJob g s l with
  | error e => exact .inr ⟨e, b, rfl, rfl⟩
  | ok job =>
      rcases submit_cases b (.loadData job) with ⟨b', hsubmit, heffect, hcontents⟩ | ⟨e, hsubmit⟩
      · have hfree : (b.record (.loadData job)).cores[job.location]? = none :=
          free_of_loadData heffect
        refine .inl ⟨job, b', rfl, ?_, hfree, hcontents⟩
        simp only [hsubmit]
      · refine .inr ⟨.board e, b.record (.loadData job), ?_, rfl⟩
        simp only [hsubmit]

/-- Of the slices in some order, the data of some was written, each to a core of its own that held
    none before. -/
structure Generated (b : Board) (m : Mapping) (g : ApplicationGraph)
    (order : List (SliceId × Location)) (done : List LoadJob) (after : Board) : Prop where
  contents_eq : after.contents = b.contents.afterAll (done.map .loadData)
  mem_order : ∀ job ∈ done, ∃ e ∈ order, m.loadJob g e.1 e.2 = .ok job
  free : ∀ job ∈ done, b.cores[job.location]? = none
  apart : done.Pairwise (fun x y => x.location ≠ y.location)

theorem Generated.refl (b : Board) (m : Mapping) (g : ApplicationGraph) :
    b.Generated m g [] [] b :=
  ⟨rfl, by simp, by simp, .nil⟩

/-- A slice without data changes nothing. -/
theorem Generated.skip {b₁ after : Board} {order : List (SliceId × Location)}
    {done : List LoadJob} (h : b₁.Generated m g order done after) (e : SliceId × Location)
    (hcontents : b₁.contents = b.contents) : b.Generated m g (e :: order) done after where
  contents_eq := hcontents ▸ h.contents_eq
  mem_order := by
    intro job hjob
    obtain ⟨e', he', hload⟩ := h.mem_order job hjob
    exact ⟨e', List.mem_cons_of_mem e he', hload⟩
  free := by
    intro job hjob
    have hcores : b₁.cores = b.cores := congrArg Contents.cores hcontents
    rw [← hcores]
    exact h.free job hjob
  apart := h.apart

/-- A slice with data comes before the others. -/
theorem Generated.cons {b₁ after : Board} {order : List (SliceId × Location)}
    {done : List LoadJob} (h : b₁.Generated m g order done after) {e : SliceId × Location}
    {job : LoadJob} (hload : m.loadJob g e.1 e.2 = .ok job)
    (hfree : b.cores[job.location]? = none)
    (hcontents : b₁.contents = b.contents.after (.loadData job)) :
    b.Generated m g (e :: order) (job :: done) after := by
  have hcores : b₁.cores = b.cores.insert job.location job.core :=
    congrArg Contents.cores hcontents
  -- a core that was free after the first job is neither that of the job nor taken before
  have hbefore : ∀ later ∈ done, b.cores[later.location]? = none ∧
      job.location ≠ later.location := by
    intro later hlater
    have hnone := h.free later hlater
    rw [hcores, getElem?_insert_of_lawful] at hnone
    by_cases heq : job.location = later.location
    · rw [if_pos heq] at hnone
      exact absurd hnone (by simp)
    · rw [if_neg heq] at hnone
      exact ⟨hnone, heq⟩
  refine ⟨?_, ?_, ?_, ?_⟩
  · rw [h.contents_eq, hcontents]
    rfl
  · intro job' hjob'
    rcases List.mem_cons.1 hjob' with rfl | hjob'
    · exact ⟨e, List.mem_cons_self, hload⟩
    · obtain ⟨e', he', hload'⟩ := h.mem_order job' hjob'
      exact ⟨e', List.mem_cons_of_mem e he', hload'⟩
  · intro job' hjob'
    rcases List.mem_cons.1 hjob' with rfl | hjob'
    · exact hfree
    · exact (hbefore job' hjob').1
  · exact List.pairwise_cons.2 ⟨fun later hlater => (hbefore later hlater).2, h.apart⟩

/-- What comes of a slice that is dealt with next. -/
def outcome (b : Board) (m : Mapping) (g : ApplicationGraph) (e : SliceId × Location) :
    GenerationOutcome :=
  ⟨e.1, e.2, (b.generate m g e.1 e.2).1⟩

theorem generateEach_cons (b : Board) (m : Mapping) (g : ApplicationGraph)
    (e : SliceId × Location) (rest : List (SliceId × Location)) :
    b.generateEach m g (e :: rest)
      = (b.outcome m g e :: ((b.generate m g e.1 e.2).2.generateEach m g rest).1,
        ((b.generate m g e.1 e.2).2.generateEach m g rest).2) := rfl

/-- **Data generation.** The data of some slices is written; if no slice fails, that of all. -/
theorem exists_generated (b : Board) (m : Mapping) (g : ApplicationGraph)
    (order : List (SliceId × Location)) :
    ∃ done, b.Generated m g order done (b.generateEach m g order).2 ∧
      ((∀ o ∈ (b.generateEach m g order).1, ∃ n, o.result = .ok n) →
        ∀ e ∈ order, ∃ job ∈ done, m.loadJob g e.1 e.2 = .ok job) := by
  induction order generalizing b with
  | nil => exact ⟨[], .refl b m g, by simp⟩
  | cons e rest ih =>
      -- the data of the first slice is written or not; generation goes on with the rest anyway
      rcases generate_cases b m g e.1 e.2 with ⟨job, b₁, hload, hgenerate, hfree, hcontents⟩ |
        ⟨failure, b₁, hgenerate, hcontents⟩
      · obtain ⟨done, hdone, hall⟩ := ih b₁
        rw [generateEach_cons, outcome, hgenerate]
        refine ⟨job :: done, hdone.cons hload hfree hcontents, ?_⟩
        intro hok e' he'
        rcases List.mem_cons.1 he' with rfl | he'
        · exact ⟨job, List.mem_cons_self, hload⟩
        · obtain ⟨job', hjob', hload'⟩ :=
            hall (fun o ho => hok o (List.mem_cons_of_mem _ ho)) e' he'
          exact ⟨job', List.mem_cons_of_mem job hjob', hload'⟩
      · obtain ⟨done, hdone, -⟩ := ih b₁
        rw [generateEach_cons, outcome, hgenerate]
        refine ⟨done, hdone.skip e hcontents, ?_⟩
        intro hok
        obtain ⟨n, hn⟩ := hok _ List.mem_cons_self
        exact absurd hn (by simp)

end Board

namespace GenerationOutcome

variable {outcomes : List GenerationOutcome}

theorem failures_eq_nil_iff :
    failures outcomes = [] ↔ ∀ o ∈ outcomes, ∃ n, o.result = .ok n := by
  rw [failures, List.filterMap_eq_nil_iff]
  refine forall₂_congr fun o _ => ?_
  cases o.result with
  | ok n => simp
  | error e => simp

/-- If nothing fails, the slices and bytes are counted. -/
theorem report_of_complete (h : ∀ o ∈ outcomes, ∃ n, o.result = .ok n) :
    report outcomes = .ok ⟨outcomes.length, total bytes outcomes⟩ := by
  unfold report
  rw [failures_eq_nil_iff.2 h]

/-- A report tells of no failure only if there is none. -/
theorem report_eq_ok {r : GenerationReport} (h : report (inOrder outcomes) = .ok r) :
    ∀ o ∈ outcomes, ∃ n, o.result = .ok n := by
  have hnone : failures (inOrder outcomes) = [] := by
    unfold report at h
    split at h
    · assumption
    · split at h
      · exact absurd h (by simp)
      · exact absurd h (by simp)
  intro o ho
  exact failures_eq_nil_iff.1 hnone o (List.mem_mergeSort.2 ho)

end GenerationOutcome

end SpikeMesh
