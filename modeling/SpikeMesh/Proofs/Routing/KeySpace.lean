import Mathlib.Order.Bounds.Basic
import SpikeMesh.Proofs.Graph.Numbering
import SpikeMesh.Proofs.Routing.Keys

set_option autoImplicit false

/-! # When there are keys enough

One key per connection takes as many keys as there are connections. A block per connection takes
the least power of two with room for the atoms of the source slice, from the least multiple of this
length on that is still free. Keys are given out exactly if what is taken in this way fits into the
width of the allocator. Each connection then has a key within the width, no packet belongs to two
connections, and every atom of a source slice has a packet of its own. -/

namespace SpikeMesh

/-- The id of each partitioned connection is its position. -/
def PartitionedGraph.NumberedConnections (p : PartitionedGraph) : Prop :=
  ∀ i pc, p.connections.toList[i]? = some pc → pc.id = Id.ofIndex i

namespace KeyAllocator

variable {a : KeyAllocator} {p : PartitionedGraph} {keys : KeyAssignments}

/-! ## Blocks as small and as early as possible -/

/-- The number of atoms that need packets of their own. -/
def sourceAtoms (p : PartitionedGraph) (pc : PartitionedConnection) : Nat :=
  match p.slice? pc.source with
  | some s => s.atoms.size.toNat
  | none => 1

/-- Blocks for numbers of atoms, each with its start and its length. From a first free packet on,
    each block is as short and starts as early as it may: the length is a power of two, and the
    start a multiple of the length. -/
inductive GreedyLayout : Nat → List Nat → List (Nat × Nat) → Prop
  | nil {free : Nat} : GreedyLayout free [] []
  | cons {free atoms length start : Nat} {rest : List Nat} {blocks : List (Nat × Nat)} :
      IsLeast {n | atoms ≤ n ∧ ∃ m, n = 2 ^ m} length →
      IsLeast {n | free ≤ n ∧ length ∣ n} start →
      GreedyLayout (start + length) rest blocks →
      GreedyLayout free (atoms :: rest) ((start, length) :: blocks)

theorem isLeast_powerOfTwoFrom (n : Nat) :
    IsLeast {size | n ≤ size ∧ ∃ m, size = 2 ^ m} (powerOfTwoFrom n) := by
  refine ⟨⟨le_powerOfTwoFrom n, exists_powerOfTwoFrom_eq n⟩, ?_⟩
  rintro size ⟨hle, m, rfl⟩
  unfold powerOfTwoFrom
  split
  · exact Nat.two_pow_pos m
  · next hn =>
      have hlog : (n - 1).log2 < m := (Nat.log2_lt (by omega)).2 (by omega)
      rw [Nat.one_shiftLeft]
      exact Nat.pow_le_pow_right (by decide) hlog

theorem isLeast_alignUp {block : Nat} (hb : 0 < block) (n : Nat) :
    IsLeast {start | n ≤ start ∧ block ∣ start} (alignUp n block) := by
  refine ⟨⟨le_alignUp hb, dvd_alignUp n block⟩, ?_⟩
  rintro start ⟨hle, q, rfl⟩
  have hq : (n + block - 1) / block < q + 1 := by
    rw [Nat.div_lt_iff_lt_mul hb, Nat.add_mul, Nat.mul_comm q]
    omega
  rw [alignUp, Nat.mul_comm block]
  exact Nat.mul_le_mul_right block (Nat.le_of_lt_succ hq)

theorem exists_greedyLayout (free : Nat) (atoms : List Nat) :
    ∃ blocks, GreedyLayout free atoms blocks := by
  induction atoms generalizing free with
  | nil => exact ⟨[], .nil⟩
  | cons n rest ih =>
      obtain ⟨blocks, hblocks⟩ := ih (alignUp free (powerOfTwoFrom n) + powerOfTwoFrom n)
      exact ⟨_, .cons (isLeast_powerOfTwoFrom n) (isLeast_alignUp (powerOfTwoFrom_pos n) free)
        hblocks⟩

theorem isLeast_blockSize (p : PartitionedGraph) (pc : PartitionedConnection) :
    IsLeast {n | sourceAtoms p pc ≤ n ∧ ∃ m, n = 2 ^ m} (blockSize p pc) := by
  unfold sourceAtoms blockSize
  cases p.slice? pc.source with
  | some s => exact isLeast_powerOfTwoFrom s.atoms.size.toNat
  | none => exact isLeast_powerOfTwoFrom 1

/-- Blocks are not given out exactly if a block of the layout ends beyond the last key. -/
theorem blocksFrom_eq_error_iff {free : Nat} {connections : List PartitionedConnection}
    {blocks : List (Nat × Nat)}
    (h : GreedyLayout free (connections.map (sourceAtoms p)) blocks) :
    (∃ e, a.blocksFrom p free connections = .error e) ↔
      ∃ b ∈ blocks, a.capacity < b.1 + b.2 := by
  induction connections generalizing free blocks with
  | nil =>
      cases h
      simp [blocksFrom]
  | cons pc rest ih =>
      cases h with
      | @cons _ _ length start _ blocks hlength hstart hrest =>
          obtain rfl : blockSize p pc = length := (isLeast_blockSize p pc).unique hlength
          obtain rfl : alignUp free (blockSize p pc) = start :=
            (isLeast_alignUp (blockSize_pos p pc) free).unique hstart
          simp only [blocksFrom, List.mem_cons, exists_eq_or_imp]
          split
          · next hend => exact iff_of_true ⟨_, rfl⟩ (.inl hend)
          · next hend =>
              -- the first block fits, so whether all do depends on those after it
              rw [← ih hrest, or_iff_right hend]
              cases a.blocksFrom p (alignUp free (blockSize p pc) + blockSize p pc) rest with
              | error e => exact iff_of_true ⟨e, rfl⟩ ⟨e, rfl⟩
              | ok more => exact iff_of_false (by rintro ⟨e, ⟨⟩⟩) (by rintro ⟨e, ⟨⟩⟩)

/-! ## Keys within the width -/

/-- Every connection has a key, and only connections have one. The keys lie within the width of the
    allocator, and no packet belongs to two of them. If there is a block per connection, the packets
    of the atoms lie within the width, too, and belong to their connection only. -/
structure Separates (a : KeyAllocator) (p : PartitionedGraph) (keys : KeyAssignments) : Prop where
  assigned_iff : ∀ id, (∃ k, keys.get? id = some k) ↔ ∃ pc ∈ p.connections.toList, pc.id = id
  lt_capacity : ∀ id k, keys.get? id = some k → k.key.toNat < a.capacity
  apart : ∀ id id' k k', keys.get? id = some k → keys.get? id' = some k' → id ≠ id' →
    ∀ packet, k.isMatch packet = true → k'.isMatch packet = false
  atoms : a.kind = .atomBlock → ∀ pc ∈ p.connections.toList, ∀ s, p.slice? pc.source = some s →
    ∀ k, keys.get? pc.id = some k → ∀ offset < s.atoms.size,
      (k.key + offset).toNat = k.key.toNat + offset.toNat ∧
      k.key.toNat + offset.toNat < a.capacity ∧ k.isMatch (k.key + offset) = true ∧
      ∀ id k', keys.get? id = some k' → pc.id ≠ id → k'.isMatch (k.key + offset) = false

theorem blockLength_pos (a : KeyAllocator) (p : PartitionedGraph) (pc : PartitionedConnection) :
    0 < a.blockLength p pc := by
  unfold blockLength
  split
  · exact Nat.one_pos
  · exact blockSize_pos p pc

/-- Blocks that are not empty are no more than the keys that are left. -/
theorem Layout.length_le {length : PartitionedConnection → Nat} (hpos : ∀ pc, 0 < length pc)
    {free : Nat} {connections : List PartitionedConnection}
    {entries : List (PartitionedConnectionId × RoutingKey)}
    (h : a.Layout length free connections entries) (hfree : free ≤ a.capacity) :
    free + connections.length ≤ a.capacity := by
  induction h with
  | nil => exact hfree
  | @cons free base pc k rest entries hle hcov hrest ih =>
      have := ih hcov.end_le_capacity
      have := hpos pc
      rw [List.length_cons]
      omega

/-- What an allocation gives out separates the connections. -/
theorem allocate_separates (hp : p.NumberedConnections) (h : a.allocate p = .ok keys) :
    a.Separates p keys := by
  obtain ⟨entries, rfl, hlayout⟩ := layout_of_allocate h
  -- every connection takes a key at least, so there are no more connections than ids
  have hcount : p.connections.size ≤ UInt32.size := by
    have hle := hlayout.length_le (a.blockLength_pos p) (Nat.zero_le _)
    have hcap : a.capacity ≤ UInt32.size := a.capacity_le
    rw [Array.length_toList] at hle
    omega
  have hids : p.connections.toList.Pairwise (fun x y => x.id ≠ y.id) :=
    PartitionedGraph.pairwise_id hp (by rwa [Array.length_toList])
  obtain ⟨hapart, hcovers⟩ := hlayout.ofList_spec hids
  have hconnection : ∀ id k, (KeyAssignments.ofList entries).get? id = some k →
      ∃ pc ∈ p.connections.toList, pc.id = id := by
    intro id k hk
    obtain ⟨pc, hpc, hid, -⟩ :=
      exists_partner_left hlayout.forall₂ ((hlayout.get?_ofList_eq_some_iff hids).1 hk)
    exact ⟨pc, hpc, hid.symm⟩
  have hother : ∀ id id' k k', (KeyAssignments.ofList entries).get? id = some k →
      (KeyAssignments.ofList entries).get? id' = some k' → id ≠ id' →
      ∀ packet, k.isMatch packet = true → k'.isMatch packet = false := by
    intro id id' k k' hk hk' hne packet hm
    obtain ⟨pc, hpc, rfl⟩ := hconnection id k hk
    obtain ⟨pc', hpc', rfl⟩ := hconnection id' k' hk'
    by_contra hm'
    rw [Bool.not_eq_false] at hm'
    exact hne (congrArg _ (hapart.eq_of_isMatch hpc hpc' hk hk' hm hm'))
  refine ⟨?_, ?_, hother, ?_⟩
  · intro id
    refine ⟨fun ⟨k, hk⟩ => hconnection id k hk, ?_⟩
    rintro ⟨pc, hpc, rfl⟩
    obtain ⟨k, -, hk, -⟩ := hcovers pc hpc
    exact ⟨k, hk⟩
  · intro id k hk
    obtain ⟨pc, hpc, rfl⟩ := hconnection id k hk
    obtain ⟨k', base, hk', hcov⟩ := hcovers pc hpc
    obtain rfl : k = k' := Option.some.inj (hk.symm.trans hk')
    have hend := hcov.end_le_capacity
    have hpos := a.blockLength_pos p pc
    rw [hcov.toNat_key]
    omega
  · intro hkind pc hpc s hs k hk offset hoffset
    obtain ⟨k', base, hk', hcov⟩ := hcovers pc hpc
    obtain rfl : k = k' := Option.some.inj (hk.symm.trans hk')
    -- the block has room for all atoms of the source slice
    have hroom : s.atoms.size.toNat ≤ a.blockLength p pc := by
      rw [blockLength, hkind]
      simp only [blockSize, hs]
      exact le_powerOfTwoFrom _
    have hlt : offset.toNat < a.blockLength p pc :=
      Nat.lt_of_lt_of_le (UInt32.lt_iff_toNat_lt.1 hoffset) hroom
    obtain ⟨hadd, hmatch⟩ := hcov.isMatch_add hlt
    refine ⟨hadd, ?_, hmatch, ?_⟩
    · have hend := hcov.end_le_capacity
      rw [hcov.toNat_key]
      omega
    · intro id k' hk' hne
      exact hother pc.id id k k' hk hk' hne _ hmatch

/-! ## Exhaustion -/

/-- What is to be given out does not fit into the width of the allocator: there are more connections
    than keys, or some block ends beyond the last key. -/
def Exceeds (a : KeyAllocator) (p : PartitionedGraph) : Prop :=
  match a.kind with
  | .sequential => a.capacity < p.connections.size
  | .atomBlock => ∃ blocks, GreedyLayout 0 (p.connections.toList.map (sourceAtoms p)) blocks ∧
      ∃ b ∈ blocks, a.capacity < b.1 + b.2

theorem allocate_eq_error_iff (a : KeyAllocator) (p : PartitionedGraph) :
    (∃ e, a.allocate p = .error e) ↔ a.Exceeds p := by
  unfold allocate Exceeds
  cases a.kind with
  | sequential =>
      simp only [sequential]
      split
      · next hlt => exact iff_of_true ⟨_, rfl⟩ hlt
      · next hle => exact iff_of_false (by rintro ⟨e, ⟨⟩⟩) hle
  | atomBlock =>
      have herror : (∃ e, a.atomBlocks p = .error e) ↔
          ∃ e, a.blocksFrom p 0 p.connections.toList = .error e := by
        rw [atomBlocks]
        cases a.blocksFrom p 0 p.connections.toList with
        | error e => exact iff_of_true ⟨e, rfl⟩ ⟨e, rfl⟩
        | ok entries =>
            exact iff_of_false (by rintro ⟨e, ⟨⟩⟩) (by rintro ⟨e, ⟨⟩⟩)
      simp only [herror]
      constructor
      · intro hfail
        obtain ⟨blocks, hblocks⟩ :=
          exists_greedyLayout 0 (p.connections.toList.map (sourceAtoms p))
        exact ⟨blocks, hblocks, (blocksFrom_eq_error_iff hblocks).1 hfail⟩
      · rintro ⟨blocks, hblocks, hbeyond⟩
        exact (blocksFrom_eq_error_iff hblocks).2 hbeyond

/-- **Keys are given out exactly if there are enough of them, and then separate all packets.** The
    width of an allocator leaves `2 ^ min width 32` keys. If these do not suffice for the
    connections, or for the blocks of their atoms, then the allocation fails. Otherwise every
    connection has a key, and no packet belongs to two of them. -/
theorem allocate_separates_or_exceeds (a : KeyAllocator) {p : PartitionedGraph}
    (hp : p.NumberedConnections) :
    a.capacity = 2 ^ min a.widthBits.toNat 32 ∧
    (∀ keys, a.allocate p = .ok keys → a.Separates p keys) ∧
    ((∃ e, a.allocate p = .error e) ↔ a.Exceeds p) :=
  ⟨a.capacity_eq, fun _ h => allocate_separates hp h, allocate_eq_error_iff a p⟩

/-- Three slices of 3, 16 and 1 atoms, each with a connection to the first one. -/
def threeSources : PartitionedGraph :=
  let slices := ((PartitionedGraph.empty.addSlice ⟨0⟩ ⟨0, 3⟩ .zero).addSlice
    ⟨1⟩ ⟨0, 16⟩ .zero).addSlice ⟨2⟩ ⟨0, 1⟩ .zero
  ((slices.addConnection ⟨0⟩ ⟨0⟩ [⟨0⟩]).addConnection ⟨0⟩ ⟨1⟩ [⟨0⟩]).addConnection ⟨0⟩ ⟨2⟩ [⟨0⟩]

theorem threeSources_numbered : threeSources.NumberedConnections :=
  (((((PartitionedGraph.numbered_empty.addSlice ⟨0⟩ ⟨0, 3⟩ .zero).addSlice ⟨1⟩ ⟨0, 16⟩
    .zero).addSlice ⟨2⟩ ⟨0, 1⟩ .zero).addConnection ⟨0⟩ ⟨0⟩ [⟨0⟩]).addConnection ⟨0⟩ ⟨1⟩
    [⟨0⟩]).addConnection ⟨0⟩ ⟨2⟩ [⟨0⟩] |>.connection_id

/-- Blocks of 4, 16 and 1 packets from 0, 16 and 32 on need six bits. -/
theorem threeSources_separated : threeSources.NumberedConnections ∧
    (∃ keys, allocate ⟨.atomBlock, 6⟩ threeSources = .ok keys ∧
      Separates ⟨.atomBlock, 6⟩ threeSources keys) ∧
    (∃ e, allocate ⟨.atomBlock, 5⟩ threeSources = .error e) ∧
    Exceeds ⟨.atomBlock, 5⟩ threeSources := by
  obtain ⟨-, hseparates, -⟩ :=
    allocate_separates_or_exceeds ⟨.atomBlock, 6⟩ threeSources_numbered
  obtain ⟨-, -, hexceeds⟩ :=
    allocate_separates_or_exceeds ⟨.atomBlock, 5⟩ threeSources_numbered
  obtain ⟨keys, hkeys⟩ := exists_eq_ok_of_isOk
    (by decide +kernel : (allocate ⟨.atomBlock, 6⟩ threeSources).isOk = true)
  have hfail : ∃ e, allocate ⟨.atomBlock, 5⟩ threeSources = .error e := by
    cases h : allocate ⟨.atomBlock, 5⟩ threeSources with
    | error e => exact ⟨e, rfl⟩
    | ok keys =>
        have hnot : (allocate ⟨.atomBlock, 5⟩ threeSources).isOk = false := by decide +kernel
        rw [h] at hnot
        exact absurd hnot (by simp [Except.isOk, Except.toBool])
  exact ⟨threeSources_numbered, ⟨keys, hkeys, hseparates keys hkeys⟩, hfail, hexceeds.1 hfail⟩

end KeyAllocator

end SpikeMesh
