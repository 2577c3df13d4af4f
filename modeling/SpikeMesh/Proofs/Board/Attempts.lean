import SpikeMesh.Proofs.Board.FaultFree

set_option autoImplicit false

/-! # Which of the planned requests are made

Requests that are planned one after the other are made up to the first that the board refuses. The
data of slices is the exception: all of it is offered, whatever comes of each slice. In either case
the requests that were made, and nothing else, tell what became of the board. -/

namespace SpikeMesh

namespace Board

variable {b : Board} {plan made first second : List BoardRequest}

/-! ## Accepting and refusing -/

/-- All requests are accepted, each in its turn. -/
def AcceptsAll (b : Board) : List BoardRequest → Prop
  | [] => True
  | r :: rest => (b.submit r).1 = .ok () ∧ (b.submit r).2.AcceptsAll rest

theorem afterAll_append (b : Board) (first second : List BoardRequest) :
    b.afterAll (first ++ second) = (b.afterAll first).afterAll second :=
  List.foldl_append ..

theorem acceptsAll_append (b : Board) (first second : List BoardRequest) :
    b.AcceptsAll (first ++ second) ↔ b.AcceptsAll first ∧ (b.afterAll first).AcceptsAll second := by
  induction first generalizing b with
  | nil => exact (and_iff_right trivial).symm
  | cons r rest ih => exact (and_congr_right fun _ => ih (b.submit r).2).trans and_assoc.symm

/-- Of planned requests all are made and accepted, or those before the first that is refused are,
    and this one is made as well. -/
inductive Attempts (b : Board) (plan : List BoardRequest) : List BoardRequest → Prop
  | all : b.AcceptsAll plan → b.Attempts plan plan
  | upTo {done rest : List BoardRequest} {r : BoardRequest} : plan = done ++ r :: rest →
      b.AcceptsAll done → ((b.afterAll done).submit r).1 ≠ .ok () → b.Attempts plan (done ++ [r])

/-- A plan begins with one more request that is accepted. -/
theorem Attempts.cons {r : BoardRequest} (haccepts : (b.submit r).1 = .ok ())
    (h : (b.submit r).2.Attempts plan made) : b.Attempts (r :: plan) (r :: made) := by
  cases h with
  | all hall => exact .all ⟨haccepts, hall⟩
  | @upTo done rest last hplan hdone hrefused =>
      have hsplit : r :: plan = r :: done ++ last :: rest := by rw [hplan, List.cons_append]
      exact .upTo hsplit ⟨haccepts, hdone⟩ hrefused

/-- The first request of a plan is refused. -/
theorem Attempts.refused {r : BoardRequest} (hrefused : (b.submit r).1 ≠ .ok ()) :
    b.Attempts (r :: plan) [r] := by
  have hsplit : r :: plan = [] ++ r :: plan := rfl
  exact .upTo hsplit trivial hrefused

/-- After a plan that was accepted comes another one. -/
theorem Attempts.append (hfirst : b.AcceptsAll first)
    (h : (b.afterAll first).Attempts second made) :
    b.Attempts (first ++ second) (first ++ made) := by
  induction first generalizing b with
  | nil => exact h
  | cons r rest ih => exact .cons hfirst.1 (ih hfirst.2 h)

/-- After a plan of which something was refused comes nothing. -/
theorem Attempts.append_of_not_acceptsAll (h : b.Attempts first made)
    (hfirst : ¬ b.AcceptsAll first) (second : List BoardRequest) :
    b.Attempts (first ++ second) made := by
  cases h with
  | all hall => exact absurd hall hfirst
  | @upTo done rest r hplan hdone hrefused =>
      have hsplit : first ++ second = done ++ r :: (rest ++ second) := by
        rw [hplan, List.append_assoc, List.cons_append]
      exact .upTo hsplit hdone hrefused

/-- If a plan is accepted, all of it is made. -/
theorem Attempts.eq_of_acceptsAll (h : b.Attempts plan made) (hall : b.AcceptsAll plan) :
    made = plan := by
  cases h with
  | all => rfl
  | upTo hplan hdone hrefused =>
      rw [hplan, acceptsAll_append] at hall
      exact absurd hall.2.1 hrefused

/-! ## Requests until one fails -/

/-- Making requests until one fails is what attempts a plan; it succeeds if all are accepted. -/
theorem submitAll_attempts (b : Board) (plan : List BoardRequest) :
    ∃ made, (b.submitAll plan).2 = b.afterAll made ∧ b.Attempts plan made ∧
      ((b.submitAll plan).1 = .ok () ↔ b.AcceptsAll plan) := by
  induction plan generalizing b with
  | nil => exact ⟨[], rfl, .all trivial, ⟨fun _ => trivial, fun _ => rfl⟩⟩
  | cons r rest ih =>
      rcases hsubmit : b.submit r with ⟨e | _, after⟩
      · have hrefused : (b.submit r).1 ≠ .ok () := by simp [hsubmit]
        refine ⟨[r], ?_, .refused hrefused, ?_⟩
        · simp only [submitAll, hsubmit, afterAll, List.foldl_cons, List.foldl_nil]
        · simp [submitAll, AcceptsAll, hsubmit]
      · obtain ⟨made, hafter, hattempts, hok⟩ := ih after
        have hattempts : (b.submit r).2.Attempts rest made := by rwa [hsubmit]
        refine ⟨r :: made, ?_, .cons (by rw [hsubmit]) hattempts, ?_⟩
        · simp only [submitAll, hsubmit, afterAll, List.foldl_cons]
          exact hafter
        · simp [submitAll, AcceptsAll, hsubmit, hok]

/-- A request for values that is accepted gives values. -/
theorem readProvenance_eq_ok_iff (b : Board) (image : String) (cores : CoreSet) :
    (∃ items, (b.readProvenance image cores).1 = .ok items) ↔
      (b.submit (.readProvenance image cores)).1 = .ok () := by
  unfold readProvenance
  rcases submit_cases b (.readProvenance image cores) with ⟨b', hsubmit, heffect, -⟩ |
    ⟨e, hsubmit⟩
  · -- the values are looked up on the board that the request left as it was
    simp only [effect] at heffect
    cases hitems : (b.record (.readProvenance image cores)).provenance image cores with
    | error e =>
        rw [hitems] at heffect
        exact absurd heffect (by simp [Except.map])
    | ok items =>
        rw [hitems] at heffect
        obtain rfl := Except.ok.inj heffect
        rw [hsubmit]
        exact ⟨fun _ => rfl, fun _ => ⟨items, hitems⟩⟩
  · simp [hsubmit]

theorem board_readProvenance (b : Board) (image : String) (cores : CoreSet) :
    (b.readProvenance image cores).2 = (b.submit (.readProvenance image cores)).2 := by
  unfold readProvenance
  rcases b.submit (.readProvenance image cores) with ⟨e | _, after⟩
  · rfl
  · rfl

/-- Reading group after group is what attempts to read all of them. -/
theorem readAll_attempts (b : Board) (groups : List (String × CoreSet)) :
    ∃ made, (b.readAll groups).2 = b.afterAll made ∧
      b.Attempts (groups.map fun e => .readProvenance e.1 e.2) made := by
  induction groups generalizing b with
  | nil => exact ⟨[], rfl, .all trivial⟩
  | cons group rest ih =>
      obtain ⟨image, cores⟩ := group
      have hboard := board_readProvenance b image cores
      have hok := readProvenance_eq_ok_iff b image cores
      rcases hread : b.readProvenance image cores with ⟨e | items, after⟩
      · rw [hread] at hboard hok
        have hrefused : (b.submit (.readProvenance image cores)).1 ≠ .ok () := by
          rw [Ne, ← hok]
          simp
        refine ⟨[.readProvenance image cores], ?_, .refused hrefused⟩
        simp only [readAll, hread, afterAll, List.foldl_cons, List.foldl_nil]
        exact hboard
      · rw [hread] at hboard hok
        obtain ⟨made, hafter, hattempts⟩ := ih (b.submit (.readProvenance image cores)).2
        refine ⟨.readProvenance image cores :: made, ?_, .cons (hok.1 ⟨items, rfl⟩) hattempts⟩
        have hstep : (b.readAll ((image, cores) :: rest)).2 = (after.readAll rest).2 := by
          simp only [readAll, hread]
          rcases after.readAll rest with ⟨e | more, last⟩
          · rfl
          · rfl
        rw [hstep, show after = (b.submit (.readProvenance image cores)).2 from hboard, hafter]
        rfl

end Board

/-! ## The data of slices -/

/-- The data that can be generated for slices, in their order. -/
def Mapping.jobs (m : Mapping) (g : ApplicationGraph) (order : List (SliceId × Location)) :
    List LoadJob :=
  order.filterMap fun e => (m.loadJob g e.1 e.2).toOption

theorem Mapping.jobs_cons_of_ok {m : Mapping} {g : ApplicationGraph} {e : SliceId × Location}
    {job : LoadJob} (h : m.loadJob g e.1 e.2 = .ok job) (rest : List (SliceId × Location)) :
    m.jobs g (e :: rest) = job :: m.jobs g rest := by
  simp [jobs, h, Except.toOption]

theorem Mapping.jobs_cons_of_error {m : Mapping} {g : ApplicationGraph} {e : SliceId × Location}
    {failure : GenerationFailure} (h : m.loadJob g e.1 e.2 = .error failure)
    (rest : List (SliceId × Location)) : m.jobs g (e :: rest) = m.jobs g rest := by
  simp [jobs, h, Except.toOption]

namespace Board

variable {m : Mapping} {g : ApplicationGraph}

/-- The data of a slice is offered to the board if it can be generated; the slice does not fail if
    it is accepted. -/
theorem generate_of_loadJob {b : Board} {s : SliceId} {l : Location} {job : LoadJob}
    (h : m.loadJob g s l = .ok job) :
    (b.generate m g s l).2 = (b.submit (.loadData job)).2 ∧
      ((∃ n, (b.generate m g s l).1 = .ok n) ↔ (b.submit (.loadData job)).1 = .ok ()) := by
  unfold generate
  rw [h]
  rcases hsubmit : b.submit (.loadData job) with ⟨e | _, after⟩
  · simp [hsubmit]
  · simp [hsubmit]

/-- All data that can be generated is offered to the board. Nothing fails if that of every slice
    can be, and all of it is accepted. -/
theorem generateEach_offers (b : Board) (m : Mapping) (g : ApplicationGraph)
    (order : List (SliceId × Location)) :
    (b.generateEach m g order).2 = b.afterAll ((m.jobs g order).map .loadData) ∧
      ((∀ o ∈ (b.generateEach m g order).1, ∃ n, o.result = .ok n) ↔
        (∀ e ∈ order, ∃ job, m.loadJob g e.1 e.2 = .ok job) ∧
          b.AcceptsAll ((m.jobs g order).map .loadData)) := by
  induction order generalizing b with
  | nil => simp [generateEach, Mapping.jobs, afterAll, AcceptsAll]
  | cons e rest ih =>
      obtain ⟨hafter, hok⟩ := ih (b.generate m g e.1 e.2).2
      rw [generateEach_cons, hafter, List.forall_mem_cons, List.forall_mem_cons, hok, outcome]
      cases hload : m.loadJob g e.1 e.2 with
      | error failure =>
          have hgenerate : b.generate m g e.1 e.2 = (.error failure, b) := by rw [generate, hload]
          rw [Mapping.jobs_cons_of_error hload, hgenerate]
          exact ⟨rfl, by simp⟩
      | ok job =>
          obtain ⟨hboard, haccepted⟩ := generate_of_loadJob (b := b) hload
          rw [Mapping.jobs_cons_of_ok hload, hboard, haccepted, List.map_cons]
          exact ⟨rfl, by simp [AcceptsAll, and_left_comm]⟩

end Board

/-- A report tells of no failure exactly if there is none. -/
theorem GenerationOutcome.report_eq_ok_iff {outcomes : List GenerationOutcome} :
    (∃ r, report (inOrder outcomes) = .ok r) ↔ ∀ o ∈ outcomes, ∃ n, o.result = .ok n := by
  constructor
  · rintro ⟨r, h⟩
    exact report_eq_ok h
  · intro h
    exact ⟨_, report_of_complete fun o ho => h o (List.mem_mergeSort.1 ho)⟩

end SpikeMesh
