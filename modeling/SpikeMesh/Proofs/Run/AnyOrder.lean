import SpikeMesh.Proofs.Mapping.Delivery
import SpikeMesh.Proofs.Run.Plans

set_option autoImplicit false

/-! # Data generation in any order

What comes of a slice depends on the faults of the board and on its own core only, which no other
slice touches. So the slices have the same outcomes in whatever order they are dealt with, and as
the outcomes are told in the order of the slices, the same is reported. -/

namespace SpikeMesh

variable {m : Mapping} {g : ApplicationGraph} {f : Fabric} {b : Board} {s : SliceId}
  {l l' : Location} {order : List (SliceId × Location)}

namespace Board

/-! ## One slice -/

/-- The error with which data for a core is answered, if it is not written. -/
def dataError? (b : Board) (l : Location) : Option BoardError :=
  match b.faults .loadData with
  | some fault => some (fault.error .loadData)
  | none =>
    if b.failingCores.contains l then
      some (.rejected ("core " ++ l.description ++ " refused its data"))
    else if b.cores.contains l then
      some (.rejected ("core " ++ l.description ++ " is already loaded"))
    else none

/-- The board after data was written. -/
def holding (b : Board) (job : LoadJob) : Board :=
  { b.record (.loadData job) with cores := b.cores.insert job.location job.core }

theorem submit_loadData (b : Board) (job : LoadJob) : b.submit (.loadData job) =
    match b.dataError? job.location with
    | some e => (.error e, b.record (.loadData job))
    | none => (.ok (), b.holding job) := by
  unfold submit dataError?
  simp only [BoardRequest.operation]
  cases b.faults .loadData with
  | some fault => rfl
  | none =>
      simp only [effect, loadData, record, holding, LoadJob.core]
      by_cases hfailing : b.failingCores.contains job.location = true
      · simp [hfailing]
      · by_cases hloaded : b.cores.contains job.location = true
        · simp [hfailing, hloaded]
        · simp [hfailing, hloaded]

/-- What comes of a slice, by its data and by the answer of its core. -/
theorem generate_eq (b : Board) (m : Mapping) (g : ApplicationGraph) (s : SliceId) (l : Location) :
    b.generate m g s l =
      match m.loadJob g s l, b.dataError? l with
      | .error e, _ => (.error e, b)
      | .ok job, some e => (.error (.board e), b.record (.loadData job))
      | .ok job, none => (.ok job.state.length, b.holding job) := by
  unfold generate
  cases hload : m.loadJob g s l with
  | error e => rfl
  | ok job =>
      obtain ⟨-, rfl⟩ := Mapping.loadJob_eq_ok hload
      simp only [submit_loadData]
      cases b.dataError? job.location with
      | some e => rfl
      | none => rfl

/-- A slice has the same outcome on boards whose cores answer alike. -/
theorem outcome_congr {a : Board} {e : SliceId × Location}
    (h : a.dataError? e.2 = b.dataError? e.2) : a.outcome m g e = b.outcome m g e := by
  rw [outcome, outcome, generate_eq, generate_eq, h]
  cases m.loadJob g e.1 e.2 with
  | error e' => rfl
  | ok job =>
      cases b.dataError? e.2 with
      | some e' => rfl
      | none => rfl

/-- Dealing with a slice does not change how other cores answer. -/
theorem dataError?_generate (b : Board) (m : Mapping) (g : ApplicationGraph) (s : SliceId)
    (hne : l ≠ l') : (b.generate m g s l).2.dataError? l' = b.dataError? l' := by
  rw [generate_eq]
  cases hload : m.loadJob g s l with
  | error e => rfl
  | ok job =>
      cases b.dataError? l with
      | some e => rfl
      | none =>
          obtain ⟨-, rfl⟩ := Mapping.loadJob_eq_ok hload
          have hloaded : (b.cores.insert job.location job.core).contains l'
              = b.cores.contains l' := by
            rw [Std.ExtTreeMap.contains_eq_isSome_getElem?,
              Std.ExtTreeMap.contains_eq_isSome_getElem?, getElem?_insert_of_lawful, if_neg hne]
          simp only [dataError?, holding, record, hloaded]

theorem free_of_dataError? (h : b.dataError? l = none) : b.cores[l]? = none := by
  unfold dataError? at h
  split at h
  · exact absurd h (by simp)
  · split at h
    · exact absurd h (by simp)
    · split at h
      · exact absurd h (by simp)
      · next hloaded => exact free_of_not_contains hloaded

/-- The core of a slice holds its data afterwards if it was written, and other cores hold what they
    held. -/
theorem cores_generate_iff {core : LoadedCore} :
    (b.generate m g s l).2.cores[l']? = some core ↔ b.cores[l']? = some core ∨
      l' = l ∧ ∃ job, m.loadJob g s l = .ok job ∧ b.dataError? l = none ∧ core = job.core := by
  rw [generate_eq]
  cases hload : m.loadJob g s l with
  | error e => simp
  | ok job =>
      cases hanswer : b.dataError? l with
      | some e => simp [record]
      | none =>
          obtain ⟨-, rfl⟩ := Mapping.loadJob_eq_ok hload
          have hfree := free_of_dataError? hanswer
          show (b.cores.insert job.location job.core)[l']? = some core ↔ _
          rw [getElem?_insert_of_lawful]
          by_cases hl : job.location = l'
          · subst hl
            rw [if_pos rfl, hfree]
            simp [eq_comm]
          · rw [if_neg hl]
            simp [Ne.symm hl]

/-! ## All slices -/

/-- Each slice has the outcome that it would have if it were dealt with first. -/
theorem outcomes_generateEach (b : Board) (m : Mapping) (g : ApplicationGraph)
    (h : order.Pairwise fun x y => x.2 ≠ y.2) :
    (b.generateEach m g order).1 = order.map (b.outcome m g) := by
  induction order generalizing b with
  | nil => rfl
  | cons e rest ih =>
      obtain ⟨hfirst, hrest⟩ := List.pairwise_cons.1 h
      rw [generateEach_cons, List.map_cons, ih _ hrest]
      refine congrArg _ (List.map_congr_left fun e' he' => ?_)
      exact outcome_congr (dataError?_generate b m g e.1 (hfirst e' he'))

/-- The cores of slices hold their data afterwards if they took it, and other cores hold what they
    held. -/
theorem cores_generateEach_iff (h : order.Pairwise fun x y => x.2 ≠ y.2) {core : LoadedCore} :
    (b.generateEach m g order).2.cores[l]? = some core ↔ b.cores[l]? = some core ∨
      ∃ s job, (s, l) ∈ order ∧ m.loadJob g s l = .ok job ∧ b.dataError? l = none ∧
        core = job.core := by
  induction order generalizing b with
  | nil => simp [generateEach]
  | cons e rest ih =>
      obtain ⟨hfirst, hrest⟩ := List.pairwise_cons.1 h
      rw [generateEach_cons, ih hrest, cores_generate_iff, or_assoc]
      refine or_congr_right ⟨?_, ?_⟩
      · rintro (⟨rfl, job, hload, hanswer, hcore⟩ | ⟨s, job, hs, hload, hanswer, hcore⟩)
        · exact ⟨e.1, job, List.mem_cons_self, hload, hanswer, hcore⟩
        · rw [dataError?_generate b m g e.1 (hfirst _ hs)] at hanswer
          exact ⟨s, job, List.mem_cons_of_mem e hs, hload, hanswer, hcore⟩
      · rintro ⟨s, job, hs, hload, hanswer, hcore⟩
        rcases List.mem_cons.1 hs with rfl | hs
        · exact .inl ⟨rfl, job, hload, hanswer, hcore⟩
        · refine .inr ⟨s, job, hs, hload, ?_, hcore⟩
          rwa [dataError?_generate b m g e.1 (hfirst _ hs)]

/-- What is not a core stays as it was. -/
theorem contents_generateEach (b : Board) (m : Mapping) (g : ApplicationGraph)
    (order : List (SliceId × Location)) : (b.generateEach m g order).2.contents
      = { b.contents with cores := (b.generateEach m g order).2.cores } := by
  obtain ⟨done, hdone, -⟩ := exists_generated b m g order
  have hcontents := hdone.contents_eq
  rw [Contents.afterAll_loadData] at hcontents
  have hcores : (b.generateEach m g order).2.cores
      = done.foldl (fun cores job => cores.insert job.location job.core) b.cores :=
    congrArg Contents.cores hcontents
  rw [hcontents, hcores]
  rfl

/-- The board holds the same after slices were dealt with in another order. -/
theorem contents_generateEach_perm {order' : List (SliceId × Location)}
    (h : order.Pairwise fun x y => x.2 ≠ y.2) (hperm : order.Perm order') :
    (b.generateEach m g order).2.contents = (b.generateEach m g order').2.contents := by
  have h' : order'.Pairwise fun x y => x.2 ≠ y.2 := hperm.pairwise h Ne.symm
  have hcores : (b.generateEach m g order).2.cores = (b.generateEach m g order').2.cores := by
    refine Std.ExtTreeMap.ext_getElem? fun l => Option.ext fun core => ?_
    simp only [cores_generateEach_iff h, cores_generateEach_iff h', hperm.mem_iff]
  rw [contents_generateEach, contents_generateEach b m g order', hcores]

end Board

/-! ## The order of the slices -/

theorem Id.index_lt_of_compare {kind : IdKind} {a b : Id kind} (h : compare a b = .lt) :
    a.index < b.index := by
  have h : compare a.raw b.raw = .lt := h
  rwa [Std.compare_eq_lt, UInt32.lt_iff_toNat_lt] at h

theorem Mapping.ascending_realPlacements (m : Mapping) (f : Fabric) :
    (m.realPlacements f).Pairwise fun x y => compare x.1 y.1 = .lt :=
  m.placements.bySlice.ordered_keys_toList.filter _

namespace Board

/-- Told in the order of the slices, the outcomes are the same for every order. -/
theorem inOrder_outcomes (hperm : order.Perm (m.realPlacements f)) :
    GenerationOutcome.inOrder (order.map (b.outcome m g))
      = (m.realPlacements f).map (b.outcome m g) := by
  have hascending := m.ascending_realPlacements f
  refine List.Perm.eq_of_pairwise ?_
    (pairwise_mergeSort_isLE GenerationOutcome.slice _) ?_
    ((List.mergeSort_perm _ _).trans (hperm.map _))
  · -- no two slices have the same number
    intro x y hx hy hxy hyx
    obtain ⟨e, he, rfl⟩ := List.mem_map.1 (List.mem_mergeSort.1 hx)
    obtain ⟨e', he', rfl⟩ := List.mem_map.1 hy
    have hslice : e.1 = e'.1 :=
      Std.LawfulEqCmp.eq_of_compare (Std.OrientedCmp.isLE_antisymm hxy hyx)
    rw [eq_of_pairwise_ne Prod.fst (m.distinct_realPlacements f) (hperm.mem_iff.1 he) he' hslice]
  · rw [List.pairwise_map]
    refine hascending.imp ?_
    intro x y hlt
    show (compare x.1 y.1).isLE = true
    rw [hlt]
    rfl

/-- The report is that on the outcomes of all slices, for every order. -/
theorem generateIn_fst (h : (m.realPlacements f).Pairwise fun x y => x.2 ≠ y.2)
    (hperm : order.Perm (m.realPlacements f)) : (b.generateIn m g order).1
      = GenerationOutcome.report ((m.realPlacements f).map (b.outcome m g)) := by
  show GenerationOutcome.report (GenerationOutcome.inOrder (b.generateEach m g order).1) = _
  rw [outcomes_generateEach b m g (hperm.symm.pairwise h Ne.symm), inOrder_outcomes hperm]

end Board

/-! ## The report -/

namespace GenerationOutcome

variable {outcomes front back : List GenerationOutcome} {o : GenerationOutcome}
  {e : GenerationFailure}

theorem mem_failures_iff : (l, e) ∈ failures outcomes ↔
    ∃ o ∈ outcomes, o.location = l ∧ o.result = .error e := by
  rw [failures, List.mem_filterMap]
  refine exists_congr fun o => and_congr_right fun _ => ?_
  cases o.result with
  | ok n => simp
  | error e' => simp

theorem length_failures (outcomes : List GenerationOutcome) :
    (failures outcomes).length = outcomes.countP fun o => !o.result.isOk := by
  rw [failures, List.length_filterMap_eq_countP]
  refine List.countP_congr fun o _ => ?_
  cases o.result with
  | ok n => simp [Except.isOk, Except.toBool]
  | error e' => simp [Except.isOk, Except.toBool]

theorem failures_of_first (hfront : ∀ x ∈ front, ∃ n, x.result = .ok n) (ho : o.result = .error e) :
    failures (front ++ o :: back) = (o.location, e) :: failures back := by
  refine List.filterMap_eq_cons_iff.2 ⟨front, o, back, rfl, ?_, by simp [ho], rfl⟩
  intro x hx
  obtain ⟨n, hn⟩ := hfront x hx
  rw [hn]

theorem boardFailures?_cons_board {cause : BoardError}
    {failures : List (Location × GenerationFailure)} :
    boardFailures? ((l, .board cause) :: failures)
      = (boardFailures? failures).map (cause :: ·) := by
  rw [boardFailures?, List.mapM_cons]
  show (boardFailures? failures).bind (fun causes => some (cause :: causes)) = _
  cases boardFailures? failures with
  | none => rfl
  | some causes => rfl

/-- The board alone is to blame unless some data could not be generated. -/
theorem boardFailures?_eq_none_iff {failures : List (Location × GenerationFailure)} :
    boardFailures? failures = none ↔ ∃ l reason, (l, .generate reason) ∈ failures := by
  induction failures with
  | nil => simp [boardFailures?]
  | cons e rest ih =>
      obtain ⟨l, failure⟩ := e
      cases failure with
      | generate reason =>
          refine iff_of_true ?_ ⟨l, reason, List.mem_cons_self⟩
          rw [boardFailures?, List.mapM_cons]
          rfl
      | board cause =>
          rw [boardFailures?_cons_board, Option.map_eq_none_iff, ih]
          simp

/-- If the board is to blame for all failures, its first one is reported. -/
theorem report_of_board {cause : BoardError} (hfront : ∀ x ∈ front, ∃ n, x.result = .ok n)
    (ho : o.result = .error (.board cause))
    (hback : ∀ x ∈ back, ∀ reason, x.result ≠ .error (.generate reason)) :
    report (front ++ o :: back) = .error (.boardFailure BoardOperation.loadData.text cause) := by
  cases hcauses : boardFailures? (failures back) with
  | none =>
      obtain ⟨l, reason, hmem⟩ := boardFailures?_eq_none_iff.1 hcauses
      obtain ⟨x, hx, -, hresult⟩ := mem_failures_iff.1 hmem
      exact absurd hresult (hback x hx reason)
  | some causes =>
      simp only [report, failures_of_first hfront ho, boardFailures?_cons_board, hcauses,
        Option.map_some]

/-- If some data could not be generated, all failures are counted and the first one is told. -/
theorem report_of_generate {reason : String} {x : GenerationOutcome}
    (hfront : ∀ x ∈ front, ∃ n, x.result = .ok n) (ho : o.result = .error e)
    (hx : x ∈ front ++ o :: back) (hgenerate : x.result = .error (.generate reason)) :
    report (front ++ o :: back) = .error (.dataGenerationFailed
      ((front ++ o :: back).countP fun o => !o.result.isOk) (front ++ o :: back).length
      ("core " ++ o.location.description ++ ": " ++ e.message)) := by
  have hfailures : failures (front ++ o :: back) = (o.location, e) :: failures back :=
    failures_of_first hfront ho
  have hnone : boardFailures? ((o.location, e) :: failures back) = none :=
    boardFailures?_eq_none_iff.2
      ⟨x.location, reason, hfailures ▸ mem_failures_iff.2 ⟨x, hx, rfl, hgenerate⟩⟩
  rw [← length_failures, hfailures]
  simp only [report, hfailures, hnone, List.length_cons]

end GenerationOutcome

namespace Board

/-! ## All orders -/

/-- A slice on the mesh fails. -/
def FailsAt (b : Board) (m : Mapping) (g : ApplicationGraph) (f : Fabric) (s : SliceId)
    (l : Location) (e : GenerationFailure) : Prop :=
  m.OnMesh f s l ∧ (b.generate m g s l).1 = .error e

/-- A slice on the mesh fails, and none with a lower number does. -/
structure FirstFailure (b : Board) (m : Mapping) (g : ApplicationGraph) (f : Fabric) (s : SliceId)
    (l : Location) (e : GenerationFailure) : Prop where
  fails : b.FailsAt m g f s l e
  lowest : ∀ s' l' e', b.FailsAt m g f s' l' e' → s.index ≤ s'.index

/-- What is reported: the number of slices on the mesh and the length of all their states if none
    fails, the first failure if the board is to blame for all of them, and otherwise the number of
    failures and of slices and the first failure. -/
inductive Reports (b : Board) (m : Mapping) (g : ApplicationGraph) (f : Fabric) :
    Except PipelineError GenerationReport → Prop
  | complete : (∀ s l, m.OnMesh f s l → ∃ n, (b.generate m g s l).1 = .ok n) →
      b.Reports m g f (.ok ⟨(m.realPlacements f).length,
        total (fun job => job.state.length) (m.jobs g (m.realPlacements f))⟩)
  | refused {s : SliceId} {l : Location} {cause : BoardError} :
      b.FirstFailure m g f s l (.board cause) →
      (∀ s l e, b.FailsAt m g f s l e → ∃ cause, e = .board cause) →
      b.Reports m g f (.error (.boardFailure "generate_and_load" cause))
  | failed {s s' : SliceId} {l l' : Location} {e : GenerationFailure} {reason : String} :
      b.FirstFailure m g f s l e → b.FailsAt m g f s' l' (.generate reason) →
      b.Reports m g f (.error (.dataGenerationFailed
        ((m.realPlacements f).countP fun e => !(b.generate m g e.1 e.2).1.isOk)
        (m.realPlacements f).length ("core " ++ l.description ++ ": " ++ e.message)))

/-- The bytes written for slices that do not fail are those of their data. -/
theorem total_bytes_outcomes (h : ∀ e ∈ order, ∃ n, (b.generate m g e.1 e.2).1 = .ok n) :
    total GenerationOutcome.bytes (order.map (b.outcome m g))
      = total (fun job => job.state.length) (m.jobs g order) := by
  induction order with
  | nil => rfl
  | cons e rest ih =>
      obtain ⟨n, hn⟩ := h e List.mem_cons_self
      rw [List.map_cons, total_cons, ih fun e' he' => h e' (List.mem_cons_of_mem e he')]
      rw [generate_eq] at hn
      cases hload : m.loadJob g e.1 e.2 with
      | error e' => simp [hload] at hn
      | ok job =>
          cases hanswer : b.dataError? e.2 with
          | some e' => simp [hload, hanswer] at hn
          | none =>
              have hbytes : (b.outcome m g e).bytes = job.state.length := by
                simp [GenerationOutcome.bytes, outcome, generate_eq, hload, hanswer]
              rw [Mapping.jobs_cons_of_ok hload, total_cons, hbytes]

/-- Of slices of which some fails there is a first one that does. -/
theorem exists_first_failure (h : ¬ ∀ e ∈ order, ∃ n, (b.generate m g e.1 e.2).1 = .ok n) :
    ∃ front e back failure, order = front ++ e :: back ∧
      (∀ x ∈ front, ∃ n, (b.generate m g x.1 x.2).1 = .ok n) ∧
      (b.generate m g e.1 e.2).1 = .error failure := by
  induction order with
  | nil => exact absurd (by simp) h
  | cons e rest ih =>
      cases hresult : (b.generate m g e.1 e.2).1 with
      | error failure => exact ⟨[], e, rest, failure, rfl, by simp, hresult⟩
      | ok n =>
          rw [List.forall_mem_cons, not_and] at h
          obtain ⟨front, e', back, failure, rfl, hfront, hfails⟩ := ih (h ⟨n, hresult⟩)
          refine ⟨e :: front, e', back, failure, rfl, ?_, hfails⟩
          rw [List.forall_mem_cons]
          exact ⟨⟨n, hresult⟩, hfront⟩

/-- The first failure in the order of the slices is that of the slice with the lowest number. -/
theorem firstFailure_of_split {front back : List (SliceId × Location)} {e : SliceId × Location}
    {failure : GenerationFailure} (hsplit : m.realPlacements f = front ++ e :: back)
    (hfront : ∀ x ∈ front, ∃ n, (b.generate m g x.1 x.2).1 = .ok n)
    (hfails : (b.generate m g e.1 e.2).1 = .error failure) :
    b.FirstFailure m g f e.1 e.2 failure := by
  have hascending := m.ascending_realPlacements f
  rw [hsplit] at hascending
  refine ⟨⟨Mapping.mem_realPlacements_iff.1 (by simp [hsplit]), hfails⟩, ?_⟩
  rintro s' l' e' ⟨hmesh, hfails'⟩
  have hmem := Mapping.mem_realPlacements_iff.2 hmesh
  rw [hsplit] at hmem
  rcases List.mem_append.1 hmem with hmem | hmem
  · obtain ⟨n, hn⟩ := hfront _ hmem
    exact absurd (hn.symm.trans hfails') (by simp)
  · rcases List.mem_cons.1 hmem with rfl | hmem
    · exact Nat.le_refl _
    · have hlater := (List.pairwise_cons.1 (List.pairwise_append.1 hascending).2.1).1 _ hmem
      exact Nat.le_of_lt (Id.index_lt_of_compare hlater)

/-- What is reported on the outcomes of all slices on the mesh. -/
theorem reports_outcomes (b : Board) (m : Mapping) (g : ApplicationGraph) (f : Fabric) :
    b.Reports m g f (GenerationOutcome.report ((m.realPlacements f).map (b.outcome m g))) := by
  by_cases hall : ∀ e ∈ m.realPlacements f, ∃ n, (b.generate m g e.1 e.2).1 = .ok n
  · rw [GenerationOutcome.report_of_complete (List.forall_mem_map.2 hall), List.length_map,
      total_bytes_outcomes hall]
    exact .complete fun s l hmesh => hall (s, l) (Mapping.mem_realPlacements_iff.2 hmesh)
  · obtain ⟨front, e, back, failure, hsplit, hfront, hfails⟩ := exists_first_failure hall
    have hfirst := firstFailure_of_split hsplit hfront hfails
    have hoks : ∀ o ∈ front.map (b.outcome m g), ∃ n, o.result = .ok n :=
      List.forall_mem_map.2 hfront
    have houtcomes : (m.realPlacements f).map (b.outcome m g)
        = front.map (b.outcome m g) ++ b.outcome m g e :: back.map (b.outcome m g) := by
      rw [hsplit, List.map_append, List.map_cons]
    by_cases hgenerate : ∃ s l reason, b.FailsAt m g f s l (.generate reason)
    · obtain ⟨s, l, reason, hmesh, hreason⟩ := hgenerate
      have hmem : b.outcome m g (s, l) ∈ (m.realPlacements f).map (b.outcome m g) :=
        List.mem_map_of_mem (Mapping.mem_realPlacements_iff.2 hmesh)
      rw [houtcomes] at hmem
      have hreport := GenerationOutcome.report_of_generate hoks hfails hmem hreason
      rw [← houtcomes, List.countP_map, List.length_map] at hreport
      rw [hreport]
      exact .failed hfirst ⟨hmesh, hreason⟩
    · -- no data failed to be generated, so the board refused all that failed
      have hboard : ∀ s l failure, b.FailsAt m g f s l failure →
          ∃ cause, failure = .board cause := by
        rintro s l (reason | cause) hfails
        · exact absurd ⟨s, l, reason, hfails⟩ hgenerate
        · exact ⟨cause, rfl⟩
      obtain ⟨cause, rfl⟩ := hboard _ _ _ hfirst.fails
      have hback : ∀ o ∈ back.map (b.outcome m g), ∀ reason,
          o.result ≠ .error (.generate reason) := by
        intro o ho reason hreason
        obtain ⟨e', he', rfl⟩ := List.mem_map.1 ho
        have hmesh : m.OnMesh f e'.1 e'.2 :=
          Mapping.mem_realPlacements_iff.1 (by simp [hsplit, he'])
        exact hgenerate ⟨e'.1, e'.2, reason, hmesh, hreason⟩
      rw [houtcomes, GenerationOutcome.report_of_board hoks hfails hback]
      exact .refused hfirst hboard

/-- An error is worth another try exactly if the board is to blame for all failures. -/
theorem Reports.isRetryable_iff {e : PipelineError} (h : b.Reports m g f (.error e)) :
    e.isRetryable = true ↔ ∀ s l failure, b.FailsAt m g f s l failure →
      ∃ cause, failure = .board cause := by
  cases h with
  | refused _ hboard => exact iff_of_true rfl hboard
  | failed _ hgenerate =>
      refine iff_of_false (by simp [PipelineError.isRetryable]) fun hboard => ?_
      obtain ⟨cause, hcause⟩ := hboard _ _ _ hgenerate
      exact absurd hcause (by simp)

/-- The outcomes of the slices on the mesh, one for each, and whatever comes of the others. -/
structure ListsOutcomes (b : Board) (m : Mapping) (g : ApplicationGraph) (f : Fabric)
    (outcomes : List GenerationOutcome) : Prop where
  apart : outcomes.Pairwise fun x y => x.slice ≠ y.slice
  mem_iff : ∀ o, o ∈ outcomes ↔
    m.OnMesh f o.slice o.location ∧ o.result = (b.generate m g o.slice o.location).1

theorem listsOutcomes_outcomes (hperm : order.Perm (m.realPlacements f)) :
    b.ListsOutcomes m g f (order.map (b.outcome m g)) where
  apart := by
    rw [List.pairwise_map]
    exact hperm.symm.pairwise (m.distinct_realPlacements f) Ne.symm
  mem_iff := by
    intro o
    rw [List.mem_map]
    constructor
    · rintro ⟨e, he, rfl⟩
      exact ⟨Mapping.mem_realPlacements_iff.1 (hperm.mem_iff.1 he), rfl⟩
    · rintro ⟨hmesh, hresult⟩
      refine ⟨(o.slice, o.location),
        hperm.mem_iff.2 (Mapping.mem_realPlacements_iff.2 hmesh), ?_⟩
      rw [outcome, ← hresult]

/-- **Data generation in any order.** The slices of a compiled graph on the mesh are dealt with once
    each, also after failures, and all data that can be generated is offered to the board. In
    whatever order that happens, the same is reported and the board holds the same. -/
theorem generateIn_any_order {config : Config} {allocator : KeyAllocator}
    {graph : ApplicationGraph} {mesh : Fabric}
    (h : (compileWith config allocator graph mesh).result = .ok m) (g : ApplicationGraph)
    (f : Fabric) (b : Board) (hperm : order.Perm (m.realPlacements f)) :
    b.ListsOutcomes m g f (b.generateEach m g order).1 ∧
    (∃ jobs, m.ListsJobs g f jobs ∧
      (b.generateIn m g order).2.requests = b.requests ++ jobs.map .loadData) ∧
    (b.generateIn m g order).1 = (b.generateAll m g f).1 ∧
    (b.generateIn m g order).2.contents = (b.generateAll m g f).2.contents ∧
    b.Reports m g f (b.generateIn m g order).1 ∧
    ∀ e, (b.generateIn m g order).1 = .error e →
      (e.isRetryable = true ↔ ∀ s l failure, b.FailsAt m g f s l failure →
        ∃ cause, failure = .board cause) := by
  have hcores := Mapping.pairwise_realPlacements h f
  have hcores' : order.Pairwise fun x y => x.2 ≠ y.2 := hperm.symm.pairwise hcores Ne.symm
  have hreport := generateIn_fst (b := b) (g := g) hcores hperm
  have hreports : b.Reports m g f (b.generateIn m g order).1 := by
    rw [hreport]
    exact b.reports_outcomes m g f
  refine ⟨?_, ⟨m.jobs g order, Mapping.listsJobs_jobs hperm, ?_⟩, ?_, ?_, hreports, ?_⟩
  · rw [outcomes_generateEach b m g hcores']
    exact listsOutcomes_outcomes hperm
  · show (b.generateEach m g order).2.requests = _
    rw [(b.generateEach_offers m g order).1, requests_afterAll]
  · exact hreport.trans (generateIn_fst hcores (.refl _)).symm
  · exact contents_generateEach_perm hcores' hperm
  · intro e he
    exact Reports.isRetryable_iff (he ▸ hreports)

/-- Two cores refuse their data, that of the second slice and that of the third one. -/
def refusingBoard : Board := (({} : Board).failLoadAt ⟨⟨0, 0⟩, 2⟩).failLoadAt ⟨⟨0, 1⟩, 1⟩

/-- Of slices that are dealt with backwards the third one fails first, but the second one is
    reported. -/
theorem generateIn_reverse_pair :
    ∃ m, (compile pairConfig pairGraph pairFabric).result = .ok m ∧
      (m.realPlacements pairFabric).reverse.Perm (m.realPlacements pairFabric) ∧
      (∃ jobs, m.ListsJobs pairGraph pairFabric jobs ∧
        (refusingBoard.generateIn m pairGraph (m.realPlacements pairFabric).reverse).2.requests
          = jobs.map .loadData) ∧
      (refusingBoard.generateIn m pairGraph (m.realPlacements pairFabric).reverse).1
        = .error (.boardFailure "generate_and_load"
            (.rejected "core (0, 0, 2) refused its data")) := by
  obtain ⟨m, h⟩ := exists_eq_ok_of_isOk
    (by decide +kernel : (compile pairConfig pairGraph pairFabric).result.isOk = true)
  have hperm := (m.realPlacements pairFabric).reverse_perm
  have hrefused : (compile pairConfig pairGraph pairFabric).result.toOption.map
      (fun m => GenerationOutcome.report
        ((m.realPlacements pairFabric).map (refusingBoard.outcome m pairGraph)))
        = some (.error (.boardFailure "generate_and_load"
            (.rejected "core (0, 0, 2) refused its data"))) := by
    decide +kernel
  rw [h] at hrefused
  obtain ⟨-, hoffered, hsame, -⟩ :=
    generateIn_any_order h pairGraph pairFabric refusingBoard hperm
  have hall := generateIn_fst (b := refusingBoard) (g := pairGraph)
    (Mapping.pairwise_realPlacements h pairFabric) (.refl _)
  exact ⟨m, h, hperm, hoffered, hsame.trans (hall.trans (Option.some.inj hrefused))⟩

end Board

end SpikeMesh
