import SpikeMesh.Proofs.Run.Steps

set_option autoImplicit false

/-! # What loading leaves on a board

A mapping is loaded onto a board that holds nothing. Wherever loading stops, the board holds only
data and tables of the mapping for the chips of the mesh; if loading succeeds, it holds all of
them. -/

namespace SpikeMesh

namespace Board.Contents

/-- Nothing is loaded. -/
structure Clear (c : Contents) : Prop where
  cores : c.cores = ∅
  executables : c.executables = ∅
  tables : c.tables = ∅

/-- Every loaded core is where the mapping places the slice that it holds, and every table is the
    one that the mapping has for the chip. None of this is on a virtual chip. -/
structure Within (c : Contents) (m : Mapping) (f : Fabric) : Prop where
  cores : ∀ l core, c.cores[l]? = some core → (core.slice, l) ∈ m.realPlacements f
  tables : ∀ chip t, c.tables[chip]? = some t →
    m.routingTables.table? chip = some t ∧ t.isEmpty = false ∧ f.isVirtual chip = false

/-- The data of all slices, all executables and all tables with entries are loaded, and nothing
    else. None of this is on a virtual chip. -/
structure Holds (c : Contents) (m : Mapping) (g : ApplicationGraph) (f : Fabric) : Prop where
  placed_iff : ∀ s l, (s, l) ∈ m.realPlacements f ↔
    ∃ core, c.cores[l]? = some core ∧ core.slice = s
  data_eq : ∀ l core, c.cores[l]? = some core →
    ∃ job, m.loadJob g core.slice l = .ok job ∧ core = job.core
  executables_eq : m.targets g f = .ok ⟨c.executables⟩
  tables_iff : ∀ chip t, c.tables[chip]? = some t ↔
    m.routingTables.table? chip = some t ∧ t.isEmpty = false ∧ f.isVirtual chip = false

variable {c : Contents} {m : Mapping} {g : ApplicationGraph} {f : Fabric}

theorem Clear.within (h : c.Clear) (m : Mapping) (f : Fabric) : c.Within m f where
  cores := by
    intro l core hcore
    rw [h.cores] at hcore
    exact absurd hcore (by simp)
  tables := by
    intro chip t ht
    rw [h.tables] at ht
    exact absurd ht (by simp)

/-- The data of a placed slice stays within the mapping. -/
theorem Within.loadData (h : c.Within m f) {s : SliceId} {l : Location} {job : LoadJob}
    (hs : (s, l) ∈ m.realPlacements f) (hjob : m.loadJob g s l = .ok job) :
    (c.after (.loadData job)).Within m f where
  cores := by
    intro l' core hcore
    obtain ⟨rfl, rfl⟩ := Mapping.loadJob_eq_ok hjob
    rw [after, getElem?_insert_of_lawful] at hcore
    by_cases hl : job.location = l'
    · rw [if_pos hl] at hcore
      rw [← Option.some.inj hcore, ← hl]
      exact hs
    · rw [if_neg hl] at hcore
      exact h.cores l' core hcore
  tables := h.tables

/-- A table of the mapping stays within the mapping. -/
theorem Within.loadTable (h : c.Within m f) {chip : ChipCoord} {t : RoutingTable}
    (ht : m.routingTables.table? chip = some t) (hentries : t.isEmpty = false)
    (hreal : f.isVirtual chip = false) : (c.after (.loadTable chip t)).Within m f where
  cores := h.cores
  tables := by
    intro chip' t' ht'
    rw [after, getElem?_insert_of_lawful] at ht'
    by_cases hchip : chip = chip'
    · rw [if_pos hchip] at ht'
      rw [← hchip, ← Option.some.inj ht']
      exact ⟨ht, hentries, hreal⟩
    · rw [if_neg hchip] at ht'
      exact h.tables chip' t' ht'

/-- A mapping is being loaded onto a board that had some tags before: only what belongs to the
    mapping is loaded, nothing runs, and the tags are still those or already the ones of the
    mapping. -/
structure Loading (c : Contents) (m : Mapping) (f : Fabric) (tags : TagAllocations) : Prop where
  within : c.Within m f
  running_eq : c.running = none
  tags_eq : c.tags = tags ∨ (m.tags.isEmpty = false ∧ c.tags = m.tags)

end Board.Contents

/-! ## The tables to load -/

namespace Mapping

/-- The tables with entries of the chips of the mesh. -/
def realTables (m : Mapping) (f : Fabric) : List (ChipCoord × RoutingTable) :=
  m.routingTables.toList.filter fun e => !e.2.isEmpty && !f.isVirtual e.1

theorem mem_realTables_iff {m : Mapping} {f : Fabric} {chip : ChipCoord} {t : RoutingTable} :
    (chip, t) ∈ m.realTables f ↔
      m.routingTables.table? chip = some t ∧ t.isEmpty = false ∧ f.isVirtual chip = false := by
  rw [realTables, List.mem_filter, RoutingTables.toList,
    Std.ExtTreeMap.mem_toList_iff_getElem?_eq_some, Bool.and_eq_true, Bool.not_eq_true',
    Bool.not_eq_true']
  rfl

theorem pairwise_realTables (m : Mapping) (f : Fabric) :
    (m.realTables f).Pairwise (fun a b => a.1 ≠ b.1) :=
  (toList_pairwise_fst_ne m.routingTables.tables).filter _

end Mapping

/-! ## Loading -/

namespace Simulator

variable {s : Simulator} {m : Mapping} {g : ApplicationGraph}

/-- What a board holds after everything that is requested for loading has been loaded. -/
theorem afterAll_loadRequests (s : Simulator) (m : Mapping) (c : Board.Contents) :
    c.afterAll (s.loadRequests m) = { c with
      tables := (m.realTables s.fabric).foldl (fun tables e => tables.insert e.1 e.2) c.tables
      executables := s.targets.toList.foldl (fun all e => all.insert e.1 e.2) c.executables
      tags := if m.tags.isEmpty then c.tags else m.tags } := by
  rw [loadRequests, Board.Contents.afterAll_append, Board.Contents.afterAll_append,
    Board.Contents.afterAll_loadTable, Board.Contents.afterAll_loadExecutable]
  by_cases htags : m.tags.isEmpty = true
  · rw [if_pos htags, if_pos htags]
    rfl
  · rw [if_neg htags, if_neg htags]
    rfl

/-- The data of placed slices is part of loading. -/
theorem loading_after_loadData {tags : TagAllocations} {c : Board.Contents} {r : BoardRequest}
    {done : List LoadJob}
    (hdone : ∀ job ∈ done, ∃ e ∈ m.realPlacements s.fabric, m.loadJob g e.1 e.2 = .ok job)
    (hr : r ∈ done.map .loadData) (h : c.Loading m s.fabric tags) :
    (c.after r).Loading m s.fabric tags := by
  obtain ⟨job, hjob, rfl⟩ := List.mem_map.1 hr
  obtain ⟨⟨slice, l⟩, he, hload⟩ := hdone job hjob
  exact ⟨h.within.loadData he hload, h.running_eq, h.tags_eq⟩

/-- The requests for loading are part of loading. -/
theorem loading_after_loadRequest {tags : TagAllocations} {c : Board.Contents} {r : BoardRequest}
    (hr : r ∈ s.loadRequests m) (h : c.Loading m s.fabric tags) :
    (c.after r).Loading m s.fabric tags := by
  rw [loadRequests, List.mem_append, List.mem_append] at hr
  rcases hr with (hr | hr) | hr
  · obtain ⟨⟨chip, t⟩, he, rfl⟩ := List.mem_map.1 hr
    obtain ⟨ht, hentries, hreal⟩ := Mapping.mem_realTables_iff.1 he
    exact ⟨h.within.loadTable ht hentries hreal, h.running_eq, h.tags_eq⟩
  · obtain ⟨e, -, rfl⟩ := List.mem_map.1 hr
    exact ⟨⟨h.within.cores, h.within.tables⟩, h.running_eq, h.tags_eq⟩
  · by_cases htags : m.tags.isEmpty = true
    · rw [if_pos htags] at hr
      exact absurd hr (by simp)
    · rw [if_neg htags] at hr
      rw [List.mem_singleton.1 hr]
      exact ⟨⟨h.within.cores, h.within.tables⟩, h.running_eq, .inr ⟨by simpa using htags, rfl⟩⟩

/-- What a board holds after the data of all slices, and then all else, was loaded onto it. -/
theorem holds_of_generated {b b₁ : Board} {done : List LoadJob} (hclear : b.contents.Clear)
    (htargets : m.targets g s.fabric = .ok s.targets)
    (hdone : b.Generated m g (m.realPlacements s.fabric) done b₁)
    (hall : ∀ e ∈ m.realPlacements s.fabric, ∃ job ∈ done, m.loadJob g e.1 e.2 = .ok job) :
    (b₁.contents.afterAll (s.loadRequests m)).Holds m g s.fabric := by
  have hempty : b.contents.cores = ∅ ∧ b.contents.executables = ∅ ∧ b.contents.tables = ∅ :=
    ⟨hclear.cores, hclear.executables, hclear.tables⟩
  rw [afterAll_loadRequests, hdone.contents_eq, Board.Contents.afterAll_loadData, hempty.1,
    hempty.2.1, hempty.2.2]
  have hcores : ∀ l core, (done.foldl (fun cores job => cores.insert job.location job.core)
      (∅ : Std.ExtTreeMap Location LoadedCore))[l]? = some core ↔
      ∃ job ∈ done, job.location = l ∧ job.core = core :=
    getElem?_foldl_insert_eq_some_iff LoadJob.location LoadJob.core done hdone.apart
  refine ⟨?_, ?_, ?_, ?_⟩
  · intro slice l
    constructor
    · intro he
      obtain ⟨job, hjob, hload⟩ := hall (slice, l) he
      obtain ⟨hslice, hl⟩ := Mapping.loadJob_eq_ok hload
      exact ⟨job.core, (hcores l job.core).2 ⟨job, hjob, hl, rfl⟩, hslice⟩
    · rintro ⟨core, hcore, rfl⟩
      obtain ⟨job, hjob, rfl, rfl⟩ := (hcores l core).1 hcore
      obtain ⟨⟨slice, l⟩, he, hload⟩ := hdone.mem_order job hjob
      obtain ⟨rfl, rfl⟩ := Mapping.loadJob_eq_ok hload
      exact he
  · intro l core hcore
    obtain ⟨job, hjob, rfl, rfl⟩ := (hcores l core).1 hcore
    obtain ⟨⟨slice, l⟩, -, hload⟩ := hdone.mem_order job hjob
    obtain ⟨rfl, rfl⟩ := Mapping.loadJob_eq_ok hload
    exact ⟨job, hload, rfl⟩
  · rw [htargets, ExecutableTargets.toList, foldl_insert_toList]
  · intro chip t
    rw [← Mapping.mem_realTables_iff]
    have htables := getElem?_foldl_insert_eq_some_iff Prod.fst Prod.snd _
      (m.pairwise_realTables s.fabric) chip t
    refine Iff.trans htables ?_
    constructor
    · rintro ⟨e, he, rfl, rfl⟩
      exact he
    · intro he
      exact ⟨(chip, t), he, rfl, rfl⟩

/-- **Loading.** Wherever it stops, the board holds only what belongs to the mapping; if it
    succeeds, the board holds all of it. Tags are replaced if there are any. -/
theorem load_spec (hclear : s.board.contents.Clear) (hidle : s.board.running = none)
    (htargets : m.targets g s.fabric = .ok s.targets) :
    ∃ b, (load g m s).2 = { s with board := b, phase := .loaded } ∧
      b.contents.Loading m s.fabric s.board.tags ∧
      ((load g m s).1 = .ok () → b.contents.Holds m g s.fabric ∧
        b.tags = if m.tags.isEmpty then s.board.tags else m.tags) := by
  obtain ⟨done, hdone, hall⟩ := Board.exists_generated s.board m g (m.realPlacements s.fabric)
  have hstart : s.board.contents.Loading m s.fabric s.board.tags :=
    ⟨hclear.within m s.fabric, hidle, .inl rfl⟩
  have hgenerated : (s.board.generateEach m g (m.realPlacements s.fabric)).2.contents.Loading m
      s.fabric s.board.tags := by
    rw [hdone.contents_eq]
    exact Board.Contents.afterAll_preserves (P := fun c => c.Loading m s.fabric s.board.tags)
      (fun r hr c hc => loading_after_loadData hdone.mem_order hr hc) hstart
  rcases hgenerate : s.board.generateAll m g s.fabric with ⟨e | report, b⟩
  · have hb : (s.board.generateEach m g (m.realPlacements s.fabric)).2 = b :=
      congrArg Prod.snd hgenerate
    rw [hb] at hgenerated
    -- generation failed, and nothing else was requested
    have hload : load g m s = (.error e, { s with board := b, phase := .loaded }) := by
      rw [load_eq, hgenerate]
    rw [hload]
    exact ⟨b, rfl, hgenerated, fun h => absurd h (by simp)⟩
  · have hb : (s.board.generateEach m g (m.realPlacements s.fabric)).2 = b :=
      congrArg Prod.snd hgenerate
    rw [hb] at hdone hgenerated
    have hload : load g m s = ((b.submitAll (s.loadRequests m)).1,
        { s with board := (b.submitAll (s.loadRequests m)).2, phase := .loaded }) := by
      rw [load_eq, hgenerate]
    rw [hload]
    refine ⟨_, rfl, Board.submitAll_preserves (P := fun c => c.Loading m s.fabric s.board.tags)
      (fun r hr c hc => loading_after_loadRequest hr hc) hgenerated, ?_⟩
    intro hok
    rcases Board.submitAll_cases b (s.loadRequests m) with ⟨b', hsubmit, hcontents⟩ |
      ⟨e, b', done', r, rest, hsubmit, -, -⟩
    · -- nothing failed: no slice in generation, and none of the requests after it
      rw [hsubmit]
      have hoks := GenerationOutcome.report_eq_ok (congrArg Prod.fst hgenerate)
      have htags : b.tags = s.board.tags := by
        have := congrArg Board.Contents.tags hdone.contents_eq
        rwa [Board.Contents.afterAll_loadData] at this
      refine ⟨hcontents ▸ holds_of_generated hclear htargets hdone (hall hoks), ?_⟩
      have := congrArg Board.Contents.tags hcontents
      rw [afterAll_loadRequests] at this
      rw [← htags]
      exact this
    · rw [hsubmit] at hok
      exact absurd hok (by simp)

end Simulator

end SpikeMesh
