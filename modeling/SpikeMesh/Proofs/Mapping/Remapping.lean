import SpikeMesh.Mapping.Compile
import SpikeMesh.Proofs.Fabric.Extension

set_option autoImplicit false

/-! # Compiling again

A compilation leaves its virtual chips on the fabric, also when it fails. A second one on that
fabric finds them there, attaches none, and comes to the same end: a virtual chip that was attached
is attached already, one that could not be attached meets the same fabric again, and no other stage
sees a difference. -/

namespace SpikeMesh

namespace Fabric

variable {f f' : Fabric} {spec : VirtualChipSpec} {specs : List VirtualChipSpec}

/-! ## Attaching again -/

theorem Shows.addVirtualChip_eq (h : f.Shows spec) : f.addVirtualChip spec = .ok f := by
  obtain ⟨existing, hexisting, hdescribes⟩ := h
  simp only [addVirtualChip, hexisting, hdescribes, if_true]

theorem describes_chip (spec : VirtualChipSpec) (real : Chip) (core : Core) :
    spec.describes (spec.chip real core) = true := by
  have hback := link?_chip spec real core spec.direction.opposite
  rw [if_pos rfl] at hback
  rw [VirtualChipSpec.describes, Chip.neighbour?, hback]
  simp [VirtualChipSpec.chip, Chip.setLink]

/-- A virtual chip that was attached is there. -/
theorem shows_of_addVirtualChip (h : f.addVirtualChip spec = .ok f') : f'.Shows spec := by
  rcases exists_join_of_addVirtualChip h with ⟨rfl, hshows⟩ | ⟨real, core, -, hjoin, rfl⟩
  · exact hshows
  · exact ⟨spec.chip real core, by rw [chip?_join hjoin, if_pos rfl], describes_chip spec real core⟩

/-- A virtual chip stays when another one is attached. -/
theorem Shows.of_addVirtualChip {other : VirtualChipSpec} (hshows : f.Shows spec)
    (h : f.addVirtualChip other = .ok f') : f'.Shows spec := by
  rcases exists_join_of_addVirtualChip h with ⟨rfl, -⟩ | ⟨real, core, -, hjoin, rfl⟩
  · exact hshows
  · obtain ⟨existing, hexisting, hdescribes⟩ := hshows
    refine ⟨existing, ?_, hdescribes⟩
    rw [chip?_join hjoin, if_neg, if_neg, hexisting]
    · -- chips are attached to real chips only
      intro heq
      rw [← heq, hjoin.chip?_connectedTo, Option.some.injEq] at hexisting
      rw [← hexisting, VirtualChipSpec.describes, hjoin.isVirtual_real] at hdescribes
      exact absurd hdescribes (by simp)
    · intro heq
      rw [← heq, hjoin.chip?_coord] at hexisting
      exact absurd hexisting (by simp)

theorem attachAll_cons_of_error (rest : List VirtualChipSpec) {e : PipelineError}
    (h : f.addVirtualChip spec = .error e) : f.attachAll (spec :: rest) = ⟨f, [], .error e⟩ := by
  rw [attachAll, h]

/-- Whether a virtual chip was there before makes no difference to what comes after. -/
theorem attachAll_cons_of_ok (rest : List VirtualChipSpec) (h : f.addVirtualChip spec = .ok f') :
    (f.attachAll (spec :: rest)).fabric = (f'.attachAll rest).fabric ∧
      (f.attachAll (spec :: rest)).result = (f'.attachAll rest).result := by
  simp only [attachAll, h]
  split
  · exact ⟨rfl, rfl⟩
  · exact ⟨rfl, rfl⟩

theorem Shows.attachAll (h : f.Shows spec) (specs : List VirtualChipSpec) :
    (f.attachAll specs).fabric.Shows spec := by
  induction specs generalizing f with
  | nil => exact h
  | cons other rest ih =>
      cases hadd : f.addVirtualChip other with
      | error e =>
          rw [attachAll_cons_of_error rest hadd]
          exact h
      | ok f' =>
          rw [(attachAll_cons_of_ok rest hadd).1]
          exact ih (h.of_addVirtualChip hadd)

/-- Attaching virtual chips to what attaching them left changes nothing and has the same result. -/
theorem attachAll_again (f : Fabric) (specs : List VirtualChipSpec) :
    ((f.attachAll specs).fabric.attachAll specs).fabric = (f.attachAll specs).fabric ∧
      ((f.attachAll specs).fabric.attachAll specs).result = (f.attachAll specs).result := by
  induction specs generalizing f with
  | nil => exact ⟨rfl, rfl⟩
  | cons spec rest ih =>
      cases hadd : f.addVirtualChip spec with
      | error e =>
          have hfailed := attachAll_cons_of_error rest hadd
          rw [hfailed, hfailed]
          exact ⟨rfl, rfl⟩
      | ok f' =>
          obtain ⟨hfabric, hresult⟩ := attachAll_cons_of_ok rest hadd
          have hshows := (shows_of_addVirtualChip hadd).attachAll rest
          obtain ⟨hfabric', hresult'⟩ :=
            attachAll_cons_of_ok rest hshows.addVirtualChip_eq
          rw [hfabric, hresult, hfabric', hresult']
          exact ih f'

/-- Attaching virtual chips, whether or not it fails, adds some of them and changes nothing else. -/
theorem attachAll_extendedBy (f : Fabric) (specs : List VirtualChipSpec) :
    ∃ added, added.Sublist specs ∧ f.ExtendedBy (f.attachAll specs).fabric added := by
  have hstep : ∀ (specs : List VirtualChipSpec) (f' : Fabric) (added : List VirtualChipSpec),
      f.ExtendedBy f' added → ∃ more, more.Sublist specs ∧
        f.ExtendedBy (f'.attachAll specs).fabric (added ++ more) := by
    intro specs
    induction specs with
    | nil =>
        intro f' added h
        exact ⟨[], .slnil, by rwa [List.append_nil]⟩
    | cons spec rest ih =>
        intro f' added h
        cases hadd : f'.addVirtualChip spec with
        | error e =>
            rw [attachAll_cons_of_error rest hadd]
            exact ⟨[], List.nil_sublist _, by rwa [List.append_nil]⟩
        | ok extended =>
            rw [(attachAll_cons_of_ok rest hadd).1]
            rcases exists_join_of_addVirtualChip hadd with ⟨rfl, -⟩ |
              ⟨real, core, hattachment, hjoin, rfl⟩
            · obtain ⟨more, hmore, hextended⟩ := ih extended added h
              exact ⟨more, hmore.cons spec, hextended⟩
            · obtain ⟨more, hmore, hextended⟩ := ih _ _ (h.join hjoin hattachment)
              refine ⟨spec :: more, hmore.cons_cons spec, ?_⟩
              rwa [List.append_assoc, List.singleton_append] at hextended
  exact hstep specs f [] (.refl f)

end Fabric

/-! ## Compiling again -/

variable {config : Config} {allocator : KeyAllocator} {g : ApplicationGraph} {f : Fabric}

/-- The fabric that placing leaves is the same again, with the same placements or the same error. -/
theorem Fabric.place_again (f : Fabric) (g : ApplicationGraph) (p : PartitionedGraph)
    (placer : PlacerKind) :
    ((f.place g p placer).fabric.place g p placer).fabric = (f.place g p placer).fabric ∧
      ((f.place g p placer).fabric.place g p placer).result = (f.place g p placer).result := by
  obtain ⟨hfabric, hresult⟩ := f.attachAll_again g.virtualChips
  simp only [place, hfabric, hresult, and_self]

theorem fabric_compileTraffic (config : Config) (allocator : KeyAllocator) (g : ApplicationGraph)
    (f : Fabric) (p : PartitionedGraph) : (compileTraffic config allocator g f p).fabric
      = (f.place g p config.mapping.placer).fabric := by
  rw [compileTraffic]
  split
  · rfl
  · rfl

theorem compileTraffic_again (config : Config) (allocator : KeyAllocator) (g : ApplicationGraph)
    (f : Fabric) (p : PartitionedGraph) :
    (compileTraffic config allocator g (compileTraffic config allocator g f p).fabric p).result
        = (compileTraffic config allocator g f p).result ∧
      (compileTraffic config allocator g (compileTraffic config allocator g f p).fabric p).fabric
        = (compileTraffic config allocator g f p).fabric := by
  obtain ⟨hfabric, hresult⟩ := f.place_again g p config.mapping.placer
  simp only [fabric_compileTraffic, hfabric, and_true]
  -- only the notes differ, as no virtual chip is new
  simp only [compileTraffic, hresult, hfabric]
  split
  · rfl
  · rfl

/-- A compilation that ends before placement leaves the fabric as it is; any other one ends as its
    last stages do. -/
theorem compileWith_cases (config : Config) (allocator : KeyAllocator) (g : ApplicationGraph)
    (f : Fabric) : (compileWith config allocator g f).fabric = f ∨ ∃ p, ∀ f',
      f'.partitionBudget? = f.partitionBudget? → (compileWith config allocator g f').result
          = (compileTraffic config allocator g f' p).result ∧
        (compileWith config allocator g f').fabric
          = (compileTraffic config allocator g f' p).fabric := by
  cases hbudget : f.partitionBudget? with
  | none => exact .inl (by simp only [compileWith, hbudget])
  | some budget =>
      cases hpartition : g.partition budget config.mapping.atomsPerCore with
      | error e => exact .inl (by simp only [compileWith, hbudget, hpartition])
      | ok p =>
          refine .inr ⟨p.prune g, fun f' hbudget' => ?_⟩
          simp only [compileWith, hbudget', hpartition, and_self]

/-- **Compiling again comes to the same end.** On the fabric that a compilation left, whether it
    succeeded or failed, the same compilation has the same mapping or the same error and leaves the
    fabric as it is. That fabric has some more of the virtual chips that the units of the graph ask
    for, each with a link to it that was free, and is otherwise as it was. -/
theorem compileWith_again (config : Config) (allocator : KeyAllocator) (g : ApplicationGraph)
    (f : Fabric) :
    (compileWith config allocator g (compileWith config allocator g f).fabric).result
        = (compileWith config allocator g f).result ∧
      (compileWith config allocator g (compileWith config allocator g f).fabric).fabric
        = (compileWith config allocator g f).fabric ∧
      ∃ added, added.Sublist g.virtualChips ∧
        f.ExtendedBy (compileWith config allocator g f).fabric added := by
  rcases compileWith_cases config allocator g f with hsame | ⟨p, hstages⟩
  · rw [hsame]
    exact ⟨rfl, hsame, [], List.nil_sublist _, .refl f⟩
  · obtain ⟨hresult, hfabric⟩ := hstages f rfl
    obtain ⟨added, hadded, hextended⟩ := f.attachAll_extendedBy g.virtualChips
    have hleft : (compileTraffic config allocator g f p).fabric
        = (f.attachAll g.virtualChips).fabric := fabric_compileTraffic config allocator g f p
    rw [← hleft] at hextended
    obtain ⟨hresult', hfabric'⟩ := hstages _ hextended.partitionBudget?_eq
    obtain ⟨hagain, hkept⟩ := compileTraffic_again config allocator g f p
    rw [hresult, hfabric, hresult', hfabric']
    exact ⟨hagain, hkept, added, hadded, hextended⟩

end SpikeMesh
