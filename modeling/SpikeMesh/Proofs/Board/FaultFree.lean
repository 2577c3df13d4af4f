import SpikeMesh.Proofs.Board.Requests
import SpikeMesh.Proofs.Fallible
import SpikeMesh.Proofs.Run.Generation

set_option autoImplicit false

/-! # Boards without faults

A board without faults accepts a request if what it holds admits it. Requests of which each is
admitted when its turn comes are therefore all accepted. -/

namespace SpikeMesh

namespace Board

/-- No operation fails, and every core takes its data. -/
structure FaultFree (b : Board) : Prop where
  faults_eq : b.faults = fun _ => none
  failingCores_eq : b.failingCores = ∅

theorem faultFree_clearFaults (b : Board) : b.clearFaults.FaultFree := ⟨rfl, rfl⟩

/-- What a board has to hold for a request. -/
def Contents.Admits (c : Contents) : BoardRequest → Prop
  | .loadData job => c.cores[job.location]? = none
  | .loadExecutable _ cores => ∀ l ∈ cores, ∃ core, c.cores[l]? = some core
  | .start _ _ => c.executables.isEmpty = false
  | .stop appId => ∀ r, c.running = some r → r.appId = appId
  | .readProvenance image cores => ∀ l ∈ cores, ∃ core, c.cores[l]? = some core ∧ core.image = image
  | .loadTable _ _ | .loadTags _ | .clearTable _ => True

variable {b : Board}

/-- A request that is admitted is carried out, unless a core refuses data. -/
theorem effect_eq_ok (hcores : b.failingCores = ∅) {r : BoardRequest} (h : b.contents.Admits r) :
    ∃ b', b.effect r = .ok b' := by
  cases r with
  | loadData job =>
      have hfree : b.cores.contains job.location = false := by
        rw [Std.ExtTreeMap.contains_eq_isSome_getElem?]
        exact (congrArg Option.isSome h : (b.cores[job.location]?).isSome = _)
      simp only [effect, loadData, hcores, hfree]
      exact ⟨_, rfl⟩
  | loadTable chip table => exact ⟨_, rfl⟩
  | loadExecutable image cores =>
      have hloaded : cores.toList.find? (fun l => !b.cores.contains l) = none := by
        rw [List.find?_eq_none]
        intro l hl
        obtain ⟨core, hcore⟩ := h l (Std.ExtTreeSet.mem_toList.1 hl)
        have hcore : b.cores[l]? = some core := hcore
        simp [Std.ExtTreeMap.contains_eq_isSome_getElem?, hcore]
      simp only [effect, loadExecutable, hloaded]
      exact ⟨_, rfl⟩
  | loadTags tags => exact ⟨_, rfl⟩
  | start appId timeSteps =>
      have hsome : b.executables.isEmpty = false := h
      simp only [effect, start, hsome]
      exact ⟨_, rfl⟩
  | stop appId =>
      simp only [effect, stop]
      split
      · next r hr =>
          rw [if_pos (by simp [h r hr])]
          exact ⟨_, rfl⟩
      · exact ⟨_, rfl⟩
  | readProvenance image cores =>
      obtain ⟨items, hitems⟩ : ∃ items, cores.toList.mapM (b.coreProvenance image) = .ok items := by
        refine exists_mapM_eq_ok ?_
        intro l hl
        obtain ⟨core, hcore, himage⟩ := h l (Std.ExtTreeSet.mem_toList.1 hl)
        have hcore : b.cores[l]? = some core := hcore
        simp only [coreProvenance, hcore, Option.filter_some, himage, beq_self_eq_true, if_true]
        exact ⟨_, rfl⟩
      simp only [effect, provenance, hitems, ok_bind]
      exact ⟨_, rfl⟩
  | clearTable chip => exact ⟨_, rfl⟩

/-- No request changes what is faulty or what was recorded before. -/
theorem frame_effect {b' : Board} {r : BoardRequest} (h : b.effect r = .ok b') :
    b'.faults = b.faults ∧ b'.failingCores = b.failingCores ∧ b'.requests = b.requests := by
  cases r with
  | loadTable | loadTags | clearTable =>
      rw [← Except.ok.inj h]
      exact ⟨rfl, rfl, rfl⟩
  | readProvenance image cores =>
      simp only [effect] at h
      cases hp : b.provenance image cores with
      | error e =>
          rw [hp] at h
          exact absurd h (by simp [Except.map])
      | ok items =>
          rw [hp] at h
          rw [← Except.ok.inj h]
          exact ⟨rfl, rfl, rfl⟩
  | loadData | loadExecutable | start | stop =>
      simp only [effect, loadData, loadExecutable, start, stop] at h
      repeat' split at h
      all_goals cases h
      all_goals exact ⟨rfl, rfl, rfl⟩

theorem FaultFree.submit (h : b.FaultFree) (r : BoardRequest) : (b.submit r).2.FaultFree := by
  rcases submit_cases b r with ⟨b', hsubmit, heffect, -⟩ | ⟨e, hsubmit⟩
  · obtain ⟨hfaults, hcores, -⟩ := frame_effect heffect
    rw [hsubmit]
    exact ⟨hfaults.trans h.faults_eq, hcores.trans h.failingCores_eq⟩
  · rw [hsubmit]
    exact ⟨h.faults_eq, h.failingCores_eq⟩

/-- **A board without faults accepts what it admits.** -/
theorem FaultFree.submit_eq_ok (h : b.FaultFree) {r : BoardRequest} (hr : b.contents.Admits r) :
    ∃ b', b.submit r = (.ok (), b') ∧ b'.FaultFree ∧ b'.contents = b.contents.after r := by
  obtain ⟨b', heffect⟩ : ∃ b', (b.record r).effect r = .ok b' :=
    effect_eq_ok (b := b.record r) h.failingCores_eq hr
  have hsubmit : b.submit r = (.ok (), b') := by
    simp only [Board.submit, h.faults_eq, heffect]
  have hfree := h.submit r
  rw [hsubmit] at hfree
  exact ⟨b', hsubmit, hfree, contents_effect (b := b.record r) heffect⟩

/-! ## Requests that are accepted -/

/-- The board after requests, whatever comes of each. -/
def afterAll (b : Board) (requests : List BoardRequest) : Board :=
  requests.foldl (fun b r => (b.submit r).2) b

/-- Every request is accepted, in its turn, except that a start may be refused. -/
def Accepts (b : Board) : List BoardRequest → Prop
  | [] => True
  | r :: rest => ((b.submit r).1 = .ok () ∨ r.operation = .start) ∧ (b.submit r).2.Accepts rest

theorem accepts_append (b : Board) (first second : List BoardRequest) :
    b.Accepts (first ++ second) ↔ b.Accepts first ∧ (b.afterAll first).Accepts second := by
  induction first generalizing b with
  | nil => exact (and_iff_right trivial).symm
  | cons r rest ih => exact (and_congr_right fun _ => ih (b.submit r).2).trans and_assoc.symm

/-- A board has become another one by requests that were accepted. -/
def Serves (b b' : Board) : Prop := ∃ made, b' = b.afterAll made ∧ b.Accepts made

theorem Serves.refl (b : Board) : b.Serves b := ⟨[], rfl, trivial⟩

theorem Serves.trans {b₁ b₂ : Board} (h : b.Serves b₁) (h' : b₁.Serves b₂) : b.Serves b₂ := by
  obtain ⟨made, rfl, haccepts⟩ := h
  obtain ⟨made', rfl, haccepts'⟩ := h'
  refine ⟨made ++ made', ?_, (accepts_append ..).2 ⟨haccepts, haccepts'⟩⟩
  rw [afterAll, afterAll, afterAll, List.foldl_append]

theorem serves_submit {r : BoardRequest} (h : (b.submit r).1 = .ok () ∨ r.operation = .start) :
    b.Serves (b.submit r).2 :=
  ⟨[r], rfl, h, trivial⟩

/-- Every request is recorded, so that a board tells by which requests it came about. -/
theorem requests_afterAll (b : Board) (made : List BoardRequest) :
    (b.afterAll made).requests = b.requests ++ made := by
  induction made generalizing b with
  | nil => exact (List.append_nil _).symm
  | cons r rest ih =>
      have hrecorded : (b.submit r).2.requests = b.requests ++ [r] := by
        rcases submit_cases b r with ⟨b', hsubmit, heffect, -⟩ | ⟨e, hsubmit⟩
        · rw [hsubmit]
          exact (frame_effect heffect).2.2
        · rw [hsubmit]
          rfl
      show ((b.submit r).2.afterAll rest).requests = _
      rw [ih, hrecorded, List.append_assoc, List.singleton_append]

theorem Serves.exists_recorded {b' : Board} (h : b.Serves b') :
    ∃ made, b' = b.afterAll made ∧ b'.requests = b.requests ++ made ∧ b.Accepts made := by
  obtain ⟨made, rfl, haccepts⟩ := h
  exact ⟨made, rfl, requests_afterAll b made, haccepts⟩

/-- Requests are all accepted if something that is kept up admits each of them. -/
theorem FaultFree.submitAll_eq_ok (h : b.FaultFree) (P : Contents → Prop)
    (requests : List BoardRequest)
    (hstep : ∀ r ∈ requests, ∀ c, P c → c.Admits r ∧ P (c.after r)) (hb : P b.contents) :
    ∃ b', b.submitAll requests = (.ok (), b') ∧ b'.FaultFree ∧ b.Serves b' ∧
      b'.contents = b.contents.afterAll requests := by
  induction requests generalizing b with
  | nil => exact ⟨b, rfl, h, .refl b, rfl⟩
  | cons r rest ih =>
      obtain ⟨hadmits, hP⟩ := hstep r List.mem_cons_self b.contents hb
      obtain ⟨b₁, hsubmit, hfree, hcontents⟩ := h.submit_eq_ok hadmits
      obtain ⟨b', hall, hfree', hserves, hcontents'⟩ :=
        ih hfree (fun r' hr' => hstep r' (List.mem_cons_of_mem r hr')) (by rwa [hcontents])
      refine ⟨b', ?_, hfree', ?_, ?_⟩
      · simp only [submitAll, hsubmit, hall]
      · have hfirst := serves_submit (.inl (congrArg Prod.fst hsubmit))
        rw [hsubmit] at hfirst
        exact hfirst.trans hserves
      · rw [hcontents', hcontents]
        rfl

/-! ## Reading and generating -/

/-- Values are read from groups of cores that run their executables. -/
theorem FaultFree.serves_readAll (h : b.FaultFree) {groups : List (String × CoreSet)}
    (hgroups : ∀ e ∈ groups, b.contents.Admits (.readProvenance e.1 e.2)) :
    b.Serves (b.readAll groups).2 := by
  induction groups generalizing b with
  | nil => exact .refl b
  | cons group rest ih =>
      obtain ⟨image, cores⟩ := group
      obtain ⟨b₁, hsubmit, hfree, hcontents⟩ :=
        h.submit_eq_ok (hgroups (image, cores) List.mem_cons_self)
      have hfirst := serves_submit (.inl (congrArg Prod.fst hsubmit))
      rw [hsubmit] at hfirst
      have hrest := ih hfree
        (fun e he => hcontents ▸ hgroups e (List.mem_cons_of_mem (image, cores) he))
      simp only [readAll, readProvenance, hsubmit]
      rcases b₁.provenance image cores with e | items
      · exact hfirst
      · simp only
        rcases hread : b₁.readAll rest with ⟨e | more, last⟩ <;> rw [hread] at hrest
        · exact hfirst.trans hrest
        · exact hfirst.trans hrest

/-- The data of slices is written to cores of their own that hold none. -/
theorem FaultFree.serves_generateEach (h : b.FaultFree) (m : Mapping) (g : ApplicationGraph)
    {order : List (SliceId × Location)} (hapart : order.Pairwise (fun x y => x.2 ≠ y.2))
    (hcores : ∀ e ∈ order, b.cores[e.2]? = none) :
    b.Serves (b.generateEach m g order).2 ∧ (b.generateEach m g order).2.FaultFree := by
  induction order generalizing b with
  | nil => exact ⟨.refl b, h⟩
  | cons e rest ih =>
      obtain ⟨s, l⟩ := e
      rw [List.pairwise_cons] at hapart
      have hrest := fun e he => hcores e (List.mem_cons_of_mem (s, l) he)
      cases hload : m.loadJob g s l with
      | error e =>
          simp only [generateEach, generate, hload]
          exact ih h hapart.2 hrest
      | ok job =>
          obtain ⟨-, rfl⟩ := Mapping.loadJob_eq_ok hload
          obtain ⟨b₁, hsubmit, hfree, hcontents⟩ :=
            h.submit_eq_ok (r := .loadData job) (hcores _ List.mem_cons_self)
          have hfirst := serves_submit (.inl (congrArg Prod.fst hsubmit))
          rw [hsubmit] at hfirst
          -- the cores of the other slices are still without data
          have hcores' : b₁.cores = b.cores.insert job.location job.core :=
            congrArg Contents.cores hcontents
          obtain ⟨hserves, hlast⟩ := ih hfree hapart.2 (by
            intro e he
            rw [hcores', getElem?_insert_of_lawful, if_neg (hapart.1 e he)]
            exact hrest e he)
          simp only [generateEach, generate, hload, hsubmit]
          exact ⟨hfirst.trans hserves, hlast⟩

end Board

end SpikeMesh
