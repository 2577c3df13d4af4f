import SpikeMesh.Proofs.Board.Attempts
import SpikeMesh.Proofs.Run.Service

set_option autoImplicit false

/-! # What there is to load

The tables, the data and the executables of a mapping, each described by what has to be listed and
in which order, apart from how the lists come about. The data of slices is listed in no particular
order: every slice is dealt with for itself. -/

namespace SpikeMesh

namespace Mapping

/-! ## Lists -/

/-- The tables with entries of the chips of the mesh, in the order of the coordinates. -/
structure ListsTables (m : Mapping) (f : Fabric) (tables : List (ChipCoord × RoutingTable)) :
    Prop where
  ascending : tables.Pairwise (fun a b => compare a.1 b.1 = .lt)
  mem_iff : ∀ chip t, (chip, t) ∈ tables ↔
    m.routingTables.table? chip = some t ∧ t.isEmpty = false ∧ f.isVirtual chip = false

/-- A slice is placed on a core of a chip of the mesh. -/
def OnMesh (m : Mapping) (f : Fabric) (s : SliceId) (l : Location) : Prop :=
  m.placements.get? s = some l ∧ f.isVirtual l.chip = false

/-- The state of a slice can be written, for the executable of its unit. -/
def Writes (m : Mapping) (g : ApplicationGraph) (s : SliceId) (image : String)
    (state : List UInt8) : Prop :=
  ∃ slice u, m.partitioned.slice? s = some slice ∧ g.unit? slice.unit = some u ∧
    u.model.state slice.atoms = .ok state ∧ image = u.model.image

/-- The data of every slice on the mesh whose state can be written, once each. -/
structure ListsJobs (m : Mapping) (g : ApplicationGraph) (f : Fabric) (jobs : List LoadJob) :
    Prop where
  apart : jobs.Pairwise (fun a b => a.slice ≠ b.slice)
  mem_iff : ∀ job, job ∈ jobs ↔
    m.OnMesh f job.slice job.location ∧ m.Writes g job.slice job.image job.state

/-- The state of every slice on the mesh can be written. -/
def WritesAll (m : Mapping) (g : ApplicationGraph) (f : Fabric) : Prop :=
  ∀ s l, m.OnMesh f s l → ∃ image state, m.Writes g s image state

/-- The executables in the order of their names, each with the cores on which slices of units with
    this executable are placed. -/
structure ListsGroups (m : Mapping) (g : ApplicationGraph) (f : Fabric)
    (groups : List (String × CoreSet)) : Prop where
  ascending : groups.Pairwise (fun a b => compare a.1 b.1 = .lt)
  inhabited : ∀ e ∈ groups, ∃ l, l ∈ e.2
  mem_iff : ∀ image l, (∃ cores, (image, cores) ∈ groups ∧ l ∈ cores) ↔
    ∃ s u, m.OnMesh f s l ∧ m.unitOf? g s = some u ∧ u.model.image = image

variable {m : Mapping} {g : ApplicationGraph} {f : Fabric}

/-! ## Tables and data -/

theorem listsTables_realTables (m : Mapping) (f : Fabric) : m.ListsTables f (m.realTables f) where
  ascending := m.routingTables.tables.ordered_keys_toList.filter _
  mem_iff := fun _ _ => mem_realTables_iff

theorem mem_realPlacements_iff {s : SliceId} {l : Location} :
    (s, l) ∈ m.realPlacements f ↔ m.OnMesh f s l := by
  rw [realPlacements, List.mem_filter, Placements.toList,
    Std.ExtTreeMap.mem_toList_iff_getElem?_eq_some, Bool.not_eq_true']
  rfl

theorem loadJob_eq_ok_iff {s : SliceId} {l : Location} {job : LoadJob} :
    m.loadJob g s l = .ok job ↔
      job.slice = s ∧ job.location = l ∧ m.Writes g s job.image job.state := by
  constructor
  · intro h
    obtain ⟨hslice, hl⟩ := loadJob_eq_ok h
    refine ⟨hslice, hl, ?_⟩
    unfold loadJob at h
    split at h
    · exact absurd h (by simp)
    · next slice hs =>
        split at h
        · exact absurd h (by simp)
        · next u hu =>
            split at h
            · next state hstate =>
                rw [← Except.ok.inj h]
                exact ⟨slice, u, hs, hu, hstate, rfl⟩
            · exact absurd h (by simp)
  · rintro ⟨rfl, rfl, slice, u, hs, hu, hstate, himage⟩
    simp only [loadJob, hs, hu, hstate, ← himage]

theorem mem_jobs_iff {order : List (SliceId × Location)} {job : LoadJob} :
    job ∈ m.jobs g order ↔
      (job.slice, job.location) ∈ order ∧ m.Writes g job.slice job.image job.state := by
  have hjob : ∀ e : SliceId × Location,
      (m.loadJob g e.1 e.2).toOption = some job ↔ m.loadJob g e.1 e.2 = .ok job := by
    intro e
    cases m.loadJob g e.1 e.2 with
    | error => simp [Except.toOption]
    | ok => simp [Except.toOption]
  simp only [jobs, List.mem_filterMap, hjob, loadJob_eq_ok_iff]
  constructor
  · rintro ⟨⟨s, l⟩, he, rfl, rfl, hwrites⟩
    exact ⟨he, hwrites⟩
  · rintro ⟨he, hwrites⟩
    exact ⟨_, he, rfl, rfl, hwrites⟩

theorem pairwise_jobs {order : List (SliceId × Location)}
    (h : order.Pairwise (fun a b => a.1 ≠ b.1)) :
    (m.jobs g order).Pairwise (fun a b => a.slice ≠ b.slice) := by
  have hslice : ∀ (e : SliceId × Location) job, (m.loadJob g e.1 e.2).toOption = some job →
      job.slice = e.1 := by
    intro e job hjob
    cases hload : m.loadJob g e.1 e.2 with
    | error => simp [hload, Except.toOption] at hjob
    | ok job' =>
        rw [hload] at hjob
        rw [← Option.some.inj hjob]
        exact (loadJob_eq_ok hload).1
  refine List.pairwise_filterMap.2 (h.imp ?_)
  intro e e' hne job hjob job' hjob'
  rw [hslice e job hjob, hslice e' job' hjob']
  exact hne

theorem distinct_realPlacements (m : Mapping) (f : Fabric) :
    (m.realPlacements f).Pairwise (fun a b => a.1 ≠ b.1) :=
  (toList_pairwise_fst_ne m.placements.bySlice).filter _

theorem listsJobs_jobs {order : List (SliceId × Location)}
    (h : order.Perm (m.realPlacements f)) : m.ListsJobs g f (m.jobs g order) where
  apart := pairwise_jobs (h.symm.pairwise (m.distinct_realPlacements f) Ne.symm)
  mem_iff := by
    intro job
    rw [mem_jobs_iff, h.mem_iff, mem_realPlacements_iff]

theorem writesAll_iff : m.WritesAll g f ↔
    ∀ e ∈ m.realPlacements f, ∃ job, m.loadJob g e.1 e.2 = .ok job := by
  constructor
  · intro h e he
    obtain ⟨image, state, hwrites⟩ := h e.1 e.2 (mem_realPlacements_iff.1 he)
    exact ⟨⟨e.1, e.2, image, state⟩, loadJob_eq_ok_iff.2 ⟨rfl, rfl, hwrites⟩⟩
  · intro h s l hl
    obtain ⟨job, hjob⟩ := h (s, l) (mem_realPlacements_iff.2 hl)
    exact ⟨job.image, job.state, (loadJob_eq_ok_iff.1 hjob).2.2⟩

end Mapping

/-! ## Executables -/

theorem ExecutableTargets.runs_add_iff {t : ExecutableTargets} {image image' : String}
    {l l' : Location} :
    (t.add image l).Runs image' l' ↔ (image = image' ∧ l = l') ∨ t.Runs image' l' := by
  constructor
  · exact runs_of_add
  · intro h
    unfold Runs
    rw [add, getElem?_insert_of_lawful]
    by_cases himage : image = image'
    · rw [if_pos himage]
      refine ⟨_, rfl, ?_⟩
      rw [Std.ExtTreeSet.mem_insert, Std.LawfulEqCmp.compare_eq_iff_eq]
      rcases h with ⟨-, hl⟩ | ⟨cores, hcores, hl⟩
      · exact .inl hl
      · rw [himage, Std.ExtTreeMap.getD_eq_getD_getElem?, hcores]
        exact .inr hl
    · rw [if_neg himage]
      rcases h with ⟨heq, -⟩ | h
      · exact absurd heq himage
      · exact h

/-- No executable is listed without a core. -/
def ExecutableTargets.EachRuns (t : ExecutableTargets) : Prop :=
  ∀ (image : String) (cores : CoreSet), t.byImage[image]? = some cores → ∃ l, l ∈ cores

theorem ExecutableTargets.EachRuns.add {t : ExecutableTargets} (h : t.EachRuns) (image : String)
    (l : Location) : (t.add image l).EachRuns := by
  intro image' cores hcores
  rw [ExecutableTargets.add, getElem?_insert_of_lawful] at hcores
  by_cases himage : image = image'
  · rw [if_pos himage] at hcores
    rw [← Option.some.inj hcores]
    exact ⟨l, Std.ExtTreeSet.mem_insert_self⟩
  · rw [if_neg himage] at hcores
    exact h image' cores hcores

namespace Mapping

variable {m : Mapping} {g : ApplicationGraph} {f : Fabric} {t : ExecutableTargets}

/-- The cores are those of the slices on the mesh, by the executables of their units. -/
theorem runs_targets (h : m.targets g f = .ok t) :
    (∀ image l, t.Runs image l ↔ ∃ s u, (s, l) ∈ m.realPlacements f ∧
      m.unitOf? g s = some u ∧ u.model.image = image) ∧ t.EachRuns := by
  refine foldlM_ok_induction (fun done (t : ExecutableTargets) =>
    (∀ image l, t.Runs image l ↔ ∃ s u, (s, l) ∈ done ∧
      m.unitOf? g s = some u ∧ u.model.image = image) ∧ t.EachRuns) ?_ ?_ h
  · intro done e t t' ht hstep
    obtain ⟨s, l⟩ := e
    simp only at hstep
    split at hstep
    · next u hu =>
        obtain rfl := Except.ok.inj hstep
        refine ⟨?_, ht.2.add _ _⟩
        intro image l'
        rw [ExecutableTargets.runs_add_iff, ht.1]
        constructor
        · rintro (⟨himage, rfl⟩ | ⟨s', u', hs', hu'⟩)
          · exact ⟨s, u, by simp, hu, himage⟩
          · exact ⟨s', u', List.mem_append_left _ hs', hu'⟩
        · rintro ⟨s', u', hs', hu', himage⟩
          rcases List.mem_append.1 hs' with hs' | hs'
          · exact .inr ⟨s', u', hs', hu', himage⟩
          · obtain ⟨rfl, rfl⟩ := Prod.mk.inj (List.mem_singleton.1 hs')
            obtain rfl : u = u' := Option.some.inj (hu.symm.trans hu')
            exact .inl ⟨himage, rfl⟩
    · exact absurd hstep (by simp)
  · simp [ExecutableTargets.Runs, ExecutableTargets.EachRuns, ExecutableTargets.empty]

theorem listsGroups_targets (h : m.targets g f = .ok t) : m.ListsGroups g f t.toList where
  ascending := t.byImage.ordered_keys_toList
  inhabited := by
    intro e he
    exact (runs_targets h).2 e.1 e.2 (Std.ExtTreeMap.mem_toList_iff_getElem?_eq_some.1 he)
  mem_iff := by
    intro image l
    have hruns := (runs_targets h).1 image l
    simp only [mem_realPlacements_iff] at hruns
    rw [← hruns]
    exact exists_congr fun _ => and_congr_left fun _ =>
      Std.ExtTreeMap.mem_toList_iff_getElem?_eq_some

end Mapping

end SpikeMesh
