import SpikeMesh.Proofs.Mapping.Placement
import SpikeMesh.Proofs.Mapping.Stages
import SpikeMesh.Proofs.Mapping.Traffic
import SpikeMesh.Proofs.Routing.Delivery

set_option autoImplicit false

/-! # Spikes arrive where connections lead

What all stages together promise. An atom that a connection links to another one lies in the
source slice of exactly one partitioned connection; a packet that the atom sends under it runs
along a tree of links and arrives at the slice of the other atom. It arrives nowhere else than at
slices of the target that hold an atom linked to some atom of the source slice.

The stages are told apart by what they contribute: slices tile units, pruned traffic joins exactly
the slices with linked atoms, placed slices have cores of their own, keys have no packet in
common, and routed packets reach exactly the targets. -/

namespace SpikeMesh

/-! ## Packets of atoms -/

/-- The packets that an atom of a slice sends under a key: the key itself, and the key of the atom
    if every atom has one. -/
def KeyAllocator.Sends (allocator : KeyAllocator) (k : RoutingKey) (s : Slice)
    (atom packet : UInt32) : Prop :=
  packet = k.key ∨ (allocator.kind = .atomBlock ∧ packet = k.key + (atom - s.atoms.lo))

/-- The packets of the atoms of a slice belong to the key of its connection. -/
theorem KeyAllocator.Sends.isMatch {allocator : KeyAllocator} {p : PartitionedGraph}
    {pc : PartitionedConnection} {s : Slice} {k : RoutingKey} {base : Nat} {atom packet : UInt32}
    (h : allocator.Sends k s atom packet) (hs : p.slice? pc.source = some s)
    (hatom : s.atoms.contains atom = true)
    (hk : allocator.Covers k base (allocator.blockLength p pc)) : k.isMatch packet = true := by
  rcases h with rfl | ⟨hkind, rfl⟩
  · simp [RoutingKey.isMatch]
  · obtain ⟨hlo, hhi⟩ := AtomRange.contains_iff.1 hatom
    have hoffset : (atom - s.atoms.lo).toNat = atom.toNat - s.atoms.lo.toNat :=
      UInt32.toNat_sub_of_le _ _ (UInt32.le_iff_toNat_le.2 hlo)
    have hsize : s.atoms.size.toNat = s.atoms.hi.toNat - s.atoms.lo.toNat :=
      UInt32.toNat_sub_of_le _ _ (UInt32.le_iff_toNat_le.2 (by omega))
    have hblock : s.atoms.size.toNat ≤ allocator.blockLength p pc := by
      simp only [KeyAllocator.blockLength, hkind, KeyAllocator.blockSize, hs]
      exact KeyAllocator.le_powerOfTwoFrom _
    exact (hk.isMatch_add (by omega)).2

/-! ## Traffic of a mapping -/

/-- A rule links some atom of a slice to some atom of another slice. -/
def Rule.Links (rule : Rule) (s t : Slice) : Prop :=
  ∃ a b, s.atoms.contains a = true ∧ t.atoms.contains b = true ∧ rule.connects a b = true

namespace Mapping

/-- An atom sends under a connection in a partitioned connection, from the slice that holds it. -/
structure SendsUnder (m : Mapping) (id : ConnectionId) (atom : UInt32) (pc : PartitionedConnection)
    (s : Slice) : Prop where
  mem_connections : pc ∈ m.partitioned.connections.toList
  connection_eq : pc.connection = id
  source_eq : m.partitioned.slice? pc.source = some s
  contains : s.atoms.contains atom = true

/-- Forwarding of a packet by the tables of a mapping. -/
def travel (m : Mapping) (f : Fabric) (packet : UInt32) : Travel := ⟨m.routingTables, f, packet⟩

/-- The packets that an atom sends in a partitioned connection run along a tree. They arrive at all
    targets, and at no other core than those of slices with an atom linked to one of the source
    slice. -/
structure Delivers (m : Mapping) (f : Fabric) (allocator : KeyAllocator) (c : Connection)
    (pc : PartitionedConnection) (s : Slice) (atom : UInt32) (source : Location)
    (key : RoutingKey) : Prop where
  source_placed : m.placements.get? s.id = some source
  key_given : m.keys.get? pc.id = some key
  isTree : ∀ packet, allocator.Sends key s atom packet → (m.travel f packet).IsTree source.chip
  arrives : ∀ packet, allocator.Sends key s atom packet → ∀ target ∈ pc.targets,
    ∃ l, m.placements.get? target = some l ∧ (m.travel f packet).DeliversTo source.chip l
  linked : ∀ packet, allocator.Sends key s atom packet → ∀ l,
    (m.travel f packet).DeliversTo source.chip l →
      ∃ t ∈ m.partitioned.slices.toList, m.placements.get? t.id = some l ∧ t.unit = c.target ∧
        c.rule.Links s t ∧
        ∀ t' ∈ m.partitioned.slices.toList, m.placements.get? t'.id = some l → t' = t

end Mapping

namespace CompiledBy

variable {config : Config} {allocator : KeyAllocator} {g : ApplicationGraph} {f : Fabric}
  {m : Mapping} {budget : Cost} {p : PartitionedGraph}

/-- Pruning keeps the slices. -/
theorem slices_eq (h : CompiledBy config allocator g f m budget p) :
    m.partitioned.slices = p.slices := by
  rw [h.prune_eq]
  rfl

theorem slice?_eq_some_iff (h : CompiledBy config allocator g f m budget p)
    (hr : p.Represents g budget config.mapping.atomsPerCore) {id : SliceId} {s : Slice} :
    m.partitioned.slice? id = some s ↔ s ∈ p.slices.toList ∧ s.id = id := by
  rw [PartitionedGraph.slice?, h.slices_eq]
  exact hr.slice?_eq_some_iff

/-- A partitioned connection of the mapping carries its connection from the slice that sends. -/
theorem carries (h : CompiledBy config allocator g f m budget p)
    (hr : p.Represents g budget config.mapping.atomsPerCore) {id : ConnectionId} {c : Connection}
    (hc : g.connection? id = some c) {atom : UInt32} {pc : PartitionedConnection} {s : Slice}
    (hs : m.SendsUnder id atom pc s) : p.Carries g pc c s := by
  have hpc := hs.mem_connections
  rw [h.prune_eq] at hpc
  obtain ⟨c', s', hcarries⟩ := hr.exists_carries hpc
  have hconnection := hcarries.connection_eq
  rw [hs.connection_eq, hc] at hconnection
  have hsource := (h.slice?_eq_some_iff hr).2 ⟨hcarries.mem_slices, hcarries.id_eq⟩
  rw [hs.source_eq] at hsource
  obtain rfl := Option.some.inj hconnection
  obtain rfl := Option.some.inj hsource
  exact hcarries

/-- Slices may exchange packets under a rule exactly if the rule links them. -/
theorem mayConnect_iff_links (hr : p.Represents g budget config.mapping.atomsPerCore) {s t : Slice}
    (hs : s ∈ p.slices.toList) (ht : t ∈ p.slices.toList) (rule : Rule) :
    rule.mayConnect s.atoms t.atoms = true ↔ rule.Links s t :=
  rule.mayConnect_iff (UInt32.le_of_lt (hr.sliced.lo_lt_hi hs))
    (UInt32.le_of_lt (hr.sliced.lo_lt_hi ht))

/-- An atom that is linked to another one sends to the slice of the other one. -/
theorem exists_sendsUnder (h : CompiledBy config allocator g f m budget p)
    (hr : p.Represents g budget config.mapping.atomsPerCore) {id : ConnectionId} {c : Connection}
    (hc : g.connection? id = some c) {u v : GraphUnit} (hu : g.unit? c.source = some u)
    (hv : g.unit? c.target = some v) {a b : UInt32} (ha : a < u.atoms) (hb : b < v.atoms)
    (hab : c.rule.connects a b = true) :
    ∃ pc s t, m.SendsUnder id a pc s ∧ p.Holds s c.source a ∧ p.Holds t c.target b ∧
      t.id ∈ pc.targets := by
  obtain ⟨s, hs⟩ := hr.exists_holds hu ha
  obtain ⟨t, ht⟩ := hr.exists_holds hv hb
  have hmay : c.rule.mayConnect s.atoms t.atoms = true :=
    (mayConnect_iff_links hr hs.mem_slices ht.mem_slices c.rule).2
      ⟨a, b, hs.contains, ht.contains, hab⟩
  obtain ⟨pc, hpc, hid, hsource⟩ :=
    hr.exists_connection hc hs.mem_slices hs.unit_eq ht.mem_slices ht.unit_eq hmay
  have hsends : m.SendsUnder id a pc s :=
    ⟨h.prune_eq ▸ hpc, hid, (h.slice?_eq_some_iff hr).2 ⟨hs.mem_slices, hsource.symm⟩, hs.contains⟩
  refine ⟨pc, s, t, hsends, hs, ht, ?_⟩
  exact ((h.carries hr hc hsends).mem_targets_iff t.id).2
    ⟨t, ht.mem_slices, rfl, ht.unit_eq, hmay⟩

/-- An atom sends under a connection in one partitioned connection at most. -/
theorem sendsUnder_unique (h : CompiledBy config allocator g f m budget p)
    (hr : p.Represents g budget config.mapping.atomsPerCore) {id : ConnectionId} {c : Connection}
    (hc : g.connection? id = some c) {a : UInt32} {pc pc' : PartitionedConnection} {s s' : Slice}
    (hs : m.SendsUnder id a pc s) (hs' : m.SendsUnder id a pc' s') : pc' = pc ∧ s' = s := by
  have hcarries := h.carries hr hc hs
  have hcarries' := h.carries hr hc hs'
  obtain rfl : s' = s := hr.eq_of_holds
    ⟨hcarries'.mem_slices, hcarries'.unit_eq, hs'.contains⟩
    ⟨hcarries.mem_slices, hcarries.unit_eq, hs.contains⟩
  have hpc := hs.mem_connections
  have hpc' := hs'.mem_connections
  rw [h.prune_eq] at hpc hpc'
  exact ⟨hr.eq_of_source_eq hpc' hpc (hs'.connection_eq.trans hs.connection_eq.symm)
    (hcarries'.id_eq.symm.trans hcarries.id_eq), rfl⟩

/-- Packets of an atom arrive at the targets and nowhere else. -/
theorem exists_delivers (h : CompiledBy config allocator g f m budget p)
    (hr : p.Represents g budget config.mapping.atomsPerCore) {id : ConnectionId} {c : Connection}
    (hc : g.connection? id = some c) {atom : UInt32} {pc : PartitionedConnection} {s : Slice}
    (hs : m.SendsUnder id atom pc s) : ∃ source key,
      m.Delivers (compileWith config allocator g f).fabric allocator c pc s atom source key := by
  have hcarries := h.carries hr hc hs
  have hids := hr.pairwise_prune_id
  rw [← h.prune_eq] at hids
  obtain ⟨hapart, hcovers⟩ := KeyAllocator.allocate_eq_ok hids h.keys_eq
  obtain ⟨key, base, hkey, hcover⟩ := hcovers pc hs.mem_connections
  obtain ⟨source, key', hexact⟩ :=
    RoutingJob.deliversExactly_of_route hapart h.route_eq hs.mem_connections
  obtain rfl : key' = key := Option.some.inj (hexact.key_given.symm.trans hkey)
  have hmatch : ∀ packet, allocator.Sends key' s atom packet → key'.isMatch packet = true :=
    fun packet hsends => hsends.isMatch hs.source_eq hs.contains hcover
  refine ⟨source, key', ?_, hkey, ?_, ?_, ?_⟩
  · rw [hcarries.id_eq]
    exact hexact.source_placed
  · intro packet hsends
    exact hexact.replay_isTree packet (hmatch packet hsends)
  · intro packet hsends target htarget
    obtain ⟨l, hl⟩ := hexact.targets_placed target htarget
    exact ⟨l, hl, (hexact.delivered_iff packet (hmatch packet hsends) l).2 ⟨target, htarget, hl⟩⟩
  · intro packet hsends l hl
    obtain ⟨target, htarget, hplaced⟩ :=
      (hexact.delivered_iff packet (hmatch packet hsends) l).1 hl
    obtain ⟨t, ht, rfl, hunit, hmay⟩ := (hcarries.mem_targets_iff target).1 htarget
    rw [h.slices_eq]
    refine ⟨t, ht, hplaced, hunit, (mayConnect_iff_links hr hcarries.mem_slices ht c.rule).1 hmay,
      ?_⟩
    intro t' ht' hplaced'
    -- slices on one core have one id, and slices with one id are equal
    have hid := Fabric.place_injective h.place_eq hplaced' hplaced
    have hfound := (h.slice?_eq_some_iff hr).2 ⟨ht, rfl⟩
    have hfound' := (h.slice?_eq_some_iff hr).2 ⟨ht', hid⟩
    exact Option.some.inj (hfound'.symm.trans hfound)

end CompiledBy

/-- When a graph is partitioned for a fabric, there are fewer slices and partitioned connections
    than ids. -/
def FewerThanIds (config : Config) (g : ApplicationGraph) (f : Fabric) : Prop :=
  ∀ budget ∈ f.partitionBudget?, ∀ p ∈ (g.partition budget config.mapping.atomsPerCore).toOption,
    p.slices.size < UInt32.size ∧ p.connections.size < UInt32.size

instance (config : Config) (g : ApplicationGraph) (f : Fabric) :
    Decidable (FewerThanIds config g f) :=
  inferInstanceAs (Decidable (∀ budget ∈ f.partitionBudget?, ∀ p ∈ _, _ < _ ∧ _ < _))

/-- **Every spike arrives where a connection leads, and nowhere else.** In the mapping of a built
    graph, whatever allocator gives out the keys, an atom sends under each connection that links it
    to an atom in exactly one partitioned connection, among whose targets is the one slice with the
    linked atom. The packets that it sends there run along a tree and arrive at all targets, and at
    no other core than those of slices of the target unit with an atom linked to one of the source
    slice. -/
theorem compileWith_delivers {config : Config} {allocator : KeyAllocator} {g : ApplicationGraph}
    {f : Fabric} {m : Mapping} (hg : g.Built) (hids : FewerThanIds config g f)
    (h : (compileWith config allocator g f).result = .ok m) :
    (∀ id c, g.connection? id = some c → ∀ u v, g.unit? c.source = some u →
      g.unit? c.target = some v → ∀ a b, a < u.atoms → b < v.atoms → c.rule.connects a b = true →
        ∃ pc s t, m.SendsUnder id a pc s ∧
          (∀ pc' s', m.SendsUnder id a pc' s' → pc' = pc ∧ s' = s) ∧
          m.partitioned.Holds s c.source a ∧ m.partitioned.Holds t c.target b ∧
          (∀ t', m.partitioned.Holds t' c.target b → t' = t) ∧ t.id ∈ pc.targets) ∧
    ∀ id c, g.connection? id = some c → ∀ a pc s, m.SendsUnder id a pc s →
      ∃ source key,
        m.Delivers (compileWith config allocator g f).fabric allocator c pc s a source key := by
  obtain ⟨budget, p, hby⟩ := compileWith_eq_ok h
  obtain ⟨hslices, hconnections⟩ := hids budget hby.budget_eq p (by rw [hby.partition_eq]; rfl)
  have hr := hg.represents hby.partition_eq hslices hconnections
  have hholds : ∀ s id a, m.partitioned.Holds s id a ↔ p.Holds s id a := by
    intro s id a
    constructor
    · rintro ⟨hs, hunit, hcontains⟩
      exact ⟨hby.slices_eq ▸ hs, hunit, hcontains⟩
    · rintro ⟨hs, hunit, hcontains⟩
      exact ⟨hby.slices_eq ▸ hs, hunit, hcontains⟩
  constructor
  · intro id c hc u v hu hv a b ha hb hab
    obtain ⟨pc, s, t, hsends, hs, ht, htarget⟩ := hby.exists_sendsUnder hr hc hu hv ha hb hab
    refine ⟨pc, s, t, hsends, ?_, (hholds ..).2 hs, (hholds ..).2 ht, ?_, htarget⟩
    · intro pc' s' hsends'
      exact hby.sendsUnder_unique hr hc hsends hsends'
    · intro t' ht'
      exact hr.eq_of_holds ((hholds ..).1 ht') ht
  · intro id c hc a pc s hsends
    exact hby.exists_delivers hr hc hsends

/-- A unit of three atoms and one of four, of which two atoms fit on a core. Every atom of the first
    unit is linked to all atoms of the second one, and an atom of the second one to the atom of the
    first one with the same number. -/
def pairGraph : ApplicationGraph where
  units :=
    let model : UnitModel := .linear ⟨"model", .zero, ⟨1, 1, 1⟩, 4⟩
    [{ label := "a", atoms := 3, model }, { label := "b", atoms := 4, model }]
  connections := [⟨"ab", ⟨0⟩, ⟨1⟩, .allToAll⟩, ⟨"ba", ⟨1⟩, ⟨0⟩, .oneToOne⟩]

/-- Slices are placed in their order, and every atom has a key. -/
def pairConfig : Config :=
  { mapping := { placer := .linear, keyAllocator := .atomBlock } }

/-- Four chips with two cores for slices each. -/
def pairFabric : Fabric := .grid 2 2 ⟨3, 2, 2, 4, 8⟩ false

theorem pairGraph_built : pairGraph.Built := by
  have ha : ApplicationGraph.Built ⟨pairGraph.units.take 1, []⟩ :=
    .addUnit (u := pairGraph.units[0]) .empty rfl
  have hb : ApplicationGraph.Built ⟨pairGraph.units, []⟩ :=
    .addUnit (u := pairGraph.units[1]) ha rfl
  have hab : ApplicationGraph.Built ⟨pairGraph.units, pairGraph.connections.take 1⟩ :=
    .addConnection (c := pairGraph.connections[0]) hb rfl
  exact .addConnection (c := pairGraph.connections[1]) hab rfl

theorem pairGraph_delivers : pairGraph.Built ∧ FewerThanIds pairConfig pairGraph pairFabric ∧
    ∃ m, (compile pairConfig pairGraph pairFabric).result = .ok m ∧
      ∃ pc s t, m.SendsUnder ⟨0⟩ 2 pc s ∧ m.partitioned.Holds t ⟨1⟩ 1 ∧ t.id ∈ pc.targets ∧
        ∃ source key, m.Delivers (compile pairConfig pairGraph pairFabric).fabric
          pairConfig.keyAllocator ⟨"ab", ⟨0⟩, ⟨1⟩, .allToAll⟩ pc s 2 source key := by
  have hids : FewerThanIds pairConfig pairGraph pairFabric := by decide +kernel
  obtain ⟨m, h⟩ := exists_eq_ok_of_isOk
    (by decide +kernel : (compile pairConfig pairGraph pairFabric).result.isOk = true)
  obtain ⟨hsent, hdelivered⟩ := compileWith_delivers pairGraph_built hids h
  obtain ⟨pc, s, t, hs, -, -, ht, -, htarget⟩ :=
    hsent ⟨0⟩ _ rfl _ _ rfl rfl 2 1 (by decide) (by decide) rfl
  exact ⟨pairGraph_built, hids, m, h, pc, s, t, hs, ht, htarget, hdelivered ⟨0⟩ _ rfl 2 pc s hs⟩

end SpikeMesh
