import Mathlib.Data.Nat.Bitwise
import SpikeMesh.Proofs.Collections
import SpikeMesh.Proofs.Fallible
import SpikeMesh.Routing.Key

set_option autoImplicit false

/-! # Keys as blocks of packets

Within its width, a key that an allocator gives out stands for a block of packets: the packets
from a base on, as many as the block is long (`KeyAllocator.Covers`). Both allocators lay such
blocks one after the other (`KeyAllocator.Layout`): blocks of one packet, or blocks with room
for the atoms of a source slice. Hence no packet belongs to two connections, and every atom has
a packet of its own. -/

namespace SpikeMesh

/-! ## Packets and keys -/

namespace RoutingKey

/-- A packet belongs to a key if it agrees with it in the significant bits. -/
theorem isMatch_iff (k : RoutingKey) (packet : UInt32) :
    k.isMatch packet = true ↔ packet &&& k.mask = k.key &&& k.mask := by
  rw [isMatch, beq_iff_eq]

/-- Keys with a common packet overlap. -/
theorem overlaps_of_isMatch {a b : RoutingKey} {packet : UInt32} (ha : a.isMatch packet = true)
    (hb : b.isMatch packet = true) : a.overlaps b = true := by
  rw [isMatch_iff] at ha hb
  simp only [overlaps, beq_iff_eq]
  calc a.key &&& (a.mask &&& b.mask) = packet &&& a.mask &&& b.mask := by
        rw [← UInt32.and_assoc, ha]
    _ = packet &&& b.mask &&& a.mask := by
        rw [UInt32.and_assoc, UInt32.and_comm a.mask, ← UInt32.and_assoc]
    _ = b.key &&& (a.mask &&& b.mask) := by
        rw [hb, UInt32.and_assoc, UInt32.and_comm b.mask]

/-- The mask of the bits from `m` up to `n`. -/
theorem testBit_mask {m n : Nat} (hn : n ≤ 32) (hm : m ≤ 32) (i : Nat) :
    (UInt32.ofNat (2 ^ n - 1) &&& ~~~(UInt32.ofNat (2 ^ m - 1))).toNat.testBit i
      = (decide (i < n) && decide (m ≤ i)) := by
  have hlt : ∀ k, k ≤ 32 → 2 ^ k - 1 < 2 ^ 32 := by
    intro k hk
    have := Nat.pow_le_pow_right (by decide : 0 < 2) hk
    omega
  have hnot : UInt32.size - 1 - (2 ^ m - 1) = 2 ^ 32 - (2 ^ m - 1 + 1) := by
    rw [UInt32.size]
    omega
  rw [UInt32.toNat_and, Nat.testBit_and, UInt32.toNat_ofNat', Nat.mod_eq_of_lt (hlt n hn),
    Nat.testBit_two_pow_sub_one, UInt32.toNat_not, UInt32.toNat_ofNat',
    Nat.mod_eq_of_lt (hlt m hm), hnot, Nat.testBit_two_pow_sub_succ (hlt m hm),
    Nat.testBit_two_pow_sub_one]
  by_cases hi : i < n
  · have hi32 : i < 32 := by omega
    by_cases hmi : m ≤ i
    · simp [hi, hi32, hmi]
    · simp [hi, hi32, hmi, Nat.lt_of_not_le hmi]
  · simp [hi]

/-- A key whose significant bits are those from `m` up to `n` stands for the packets that agree
    with it in these bits. -/
theorem isMatch_iff_testBit {base m n : Nat} {mask : UInt32} (hn : n ≤ 32)
    (hmask : ∀ i, mask.toNat.testBit i = (decide (i < n) && decide (m ≤ i))) (packet : UInt32) :
    isMatch ⟨UInt32.ofNat base, mask⟩ packet = true ↔
      ∀ i, m ≤ i → i < n → packet.toNat.testBit i = base.testBit i := by
  rw [isMatch_iff, ← UInt32.toNat_inj, UInt32.toNat_and, UInt32.toNat_and, UInt32.toNat_ofNat']
  constructor
  · intro h i hmi hin
    have hi32 : i < 32 := by omega
    have hbit := congrArg (fun x => x.testBit i) h
    simp only [Nat.testBit_and, hmask, Nat.testBit_mod_two_pow] at hbit
    simpa [hmi, hin, hi32] using hbit
  · intro h
    apply Nat.eq_of_testBit_eq
    intro i
    rw [Nat.testBit_and, Nat.testBit_and, hmask, Nat.testBit_mod_two_pow]
    by_cases hin : i < n
    · by_cases hmi : m ≤ i
      · have hi32 : i < 32 := by omega
        simp [hin, hmi, hi32, h i hmi hin]
      · simp [hmi]
    · simp [hin]

/-- The packets that agree with a multiple of `2 ^ m` in the bits from `m` up to `n` are, within
    `n` bits, the `2 ^ m` packets from this multiple on. -/
theorem isMatch_iff_block {base m n : Nat} (hn : n ≤ 32) (hdvd : 2 ^ m ∣ base)
    (hend : base + 2 ^ m ≤ 2 ^ n) (packet : UInt32) :
    isMatch ⟨UInt32.ofNat base, UInt32.ofNat (2 ^ n - 1) &&& ~~~(UInt32.ofNat (2 ^ m - 1))⟩
        packet = true ↔
      base ≤ packet.toNat % 2 ^ n ∧ packet.toNat % 2 ^ n < base + 2 ^ m := by
  have hmn : m ≤ n := by
    by_contra hlt
    have := Nat.pow_lt_pow_right (by decide : 1 < 2) (by omega : n < m)
    omega
  have hbase : base < 2 ^ n := by
    have := Nat.two_pow_pos m
    omega
  obtain ⟨q, rfl⟩ := hdvd
  rw [isMatch_iff_testBit hn (testBit_mask hn (by omega))]
  -- the bits from `m` up to `n` are those of the quotient
  have hdiv : (∀ i, m ≤ i → i < n → packet.toNat.testBit i = (2 ^ m * q).testBit i) ↔
      packet.toNat % 2 ^ n / 2 ^ m = q := by
    have hq : q = 2 ^ m * q / 2 ^ m := (Nat.mul_div_cancel_left q (Nat.two_pow_pos m)).symm
    constructor
    · intro h
      rw [hq]
      apply Nat.eq_of_testBit_eq
      intro i
      rw [Nat.testBit_div_two_pow, Nat.testBit_div_two_pow, Nat.testBit_mod_two_pow]
      by_cases hi : i + m < n
      · simp [hi, h (i + m) (by omega) hi]
      · have hzero : (2 ^ m * q).testBit (i + m) = false :=
          Nat.testBit_lt_two_pow (lt_of_lt_of_le hbase
            (Nat.pow_le_pow_right (by decide) (by omega)))
        simp [hi, hzero]
    · intro h i hmi hin
      have hbit := congrArg (fun x => x.testBit (i - m)) (h.trans hq)
      simp only [Nat.testBit_div_two_pow, Nat.testBit_mod_two_pow, Nat.sub_add_cancel hmi] at hbit
      simpa [hin] using hbit
  rw [hdiv, Nat.div_eq_iff (Nat.two_pow_pos m), Nat.mul_comm q]
  have := Nat.two_pow_pos m
  omega

end RoutingKey

/-! ## Keys of connections -/

namespace KeyAssignments

/-- No packet belongs to the keys of two of the connections. -/
def Apart (keys : KeyAssignments) (connections : List PartitionedConnection) : Prop :=
  connections.Pairwise fun a b =>
    ∀ ka kb packet, keys.get? a.id = some ka → keys.get? b.id = some kb →
      ka.isMatch packet = true → kb.isMatch packet = false

variable {keys : KeyAssignments} {connections : List PartitionedConnection}

/-- Connections to which one packet belongs are one connection. -/
theorem Apart.eq_of_isMatch (h : keys.Apart connections) {a b : PartitionedConnection}
    (ha : a ∈ connections) (hb : b ∈ connections) {ka kb : RoutingKey} {packet : UInt32}
    (hka : keys.get? a.id = some ka) (hkb : keys.get? b.id = some kb)
    (hma : ka.isMatch packet = true) (hmb : kb.isMatch packet = true) : a = b := by
  unfold Apart at h
  induction connections with
  | nil => simp at ha
  | cons x rest ih =>
      rw [List.pairwise_cons] at h
      rcases List.mem_cons.1 ha with hax | harest
      · rcases List.mem_cons.1 hb with hbx | hbrest
        · rw [hax, hbx]
        · have := h.1 b hbrest ka kb packet (hax ▸ hka) hkb hma
          exact absurd hmb (by simp [this])
      · rcases List.mem_cons.1 hb with hbx | hbrest
        · have := h.1 a harest kb ka packet (hbx ▸ hkb) hka hmb
          exact absurd hma (by simp [this])
        · exact ih h.2 harest hbrest

/-- Keys that do not overlap are apart. -/
theorem apart_of_not_overlaps
    (h : connections.Pairwise fun a b => ∀ ka ∈ keys.get? a.id, ∀ kb ∈ keys.get? b.id,
      ka.overlaps kb = false) : keys.Apart connections := by
  refine h.imp ?_
  intro a b hab ka kb packet hka hkb hma
  by_contra hmb
  rw [Bool.not_eq_false] at hmb
  have := hab ka hka kb hkb
  rw [RoutingKey.overlaps_of_isMatch hma hmb] at this
  exact absurd this (by simp)

end KeyAssignments

/-! ## Blocks of packets -/

namespace KeyAllocator

variable {a : KeyAllocator}

/-- Within the width of the allocator, a key stands for the packets from a base on, as many as
    the block is long. -/
structure Covers (a : KeyAllocator) (k : RoutingKey) (base length : Nat) : Prop where
  end_le_capacity : base + length ≤ a.capacity
  toNat_key : k.key.toNat = base
  isMatch_iff : ∀ packet, k.isMatch packet = true ↔
    base ≤ packet.toNat % a.capacity ∧ packet.toNat % a.capacity < base + length

theorem capacity_eq (a : KeyAllocator) : a.capacity = 2 ^ a.bits := by
  rw [capacity, Nat.one_shiftLeft]

theorem bits_le (a : KeyAllocator) : a.bits ≤ 32 := Nat.min_le_right _ _

theorem capacity_le (a : KeyAllocator) : a.capacity ≤ 2 ^ 32 := by
  rw [capacity_eq]
  exact Nat.pow_le_pow_right (by decide) a.bits_le

/-- An aligned block of a power of two covers its packets. -/
theorem covers_block {base m : Nat} (hdvd : 2 ^ m ∣ base) (hend : base + 2 ^ m ≤ a.capacity) :
    a.Covers ⟨UInt32.ofNat base, a.fullMask &&& ~~~(UInt32.ofNat (2 ^ m - 1))⟩ base (2 ^ m) where
  end_le_capacity := hend
  toNat_key := by
    have := a.capacity_le
    have := Nat.two_pow_pos m
    show (UInt32.ofNat base).toNat = base
    rw [UInt32.toNat_ofNat', Nat.mod_eq_of_lt (by omega)]
  isMatch_iff := by
    intro packet
    rw [fullMask, capacity_eq]
    rw [capacity_eq] at hend
    exact RoutingKey.isMatch_iff_block a.bits_le hdvd hend packet

/-- Within a block the packet of an atom is as far from the key as the atom is from the first
    one, and belongs to the key. -/
theorem Covers.isMatch_add {k : RoutingKey} {base length : Nat} (h : a.Covers k base length)
    {offset : UInt32} (ho : offset.toNat < length) :
    (k.key + offset).toNat = k.key.toNat + offset.toNat ∧ k.isMatch (k.key + offset) = true := by
  have hcap := a.capacity_le
  have hend := h.end_le_capacity
  have hadd : (k.key + offset).toNat = base + offset.toNat := by
    rw [UInt32.toNat_add, h.toNat_key, Nat.mod_eq_of_lt (by omega)]
  refine ⟨by rw [hadd, h.toNat_key], ?_⟩
  rw [h.isMatch_iff, hadd, Nat.mod_eq_of_lt (by omega)]
  omega

/-- Blocks that follow each other have no packet in common. -/
theorem Covers.not_isMatch {k k' : RoutingKey} {base base' length length' : Nat}
    (h : a.Covers k base length) (h' : a.Covers k' base' length') (hle : base + length ≤ base')
    {packet : UInt32} (hm : k.isMatch packet = true) : k'.isMatch packet = false := by
  rw [Bool.eq_false_iff]
  intro hm'
  rw [h.isMatch_iff] at hm
  rw [h'.isMatch_iff] at hm'
  omega

/-! ## Blocks one after the other -/

/-- Keys of connections whose blocks lie one after the other, from a first free packet on. The
    length of the block of a connection is given. -/
inductive Layout (a : KeyAllocator) (length : PartitionedConnection → Nat) :
    Nat → List PartitionedConnection → List (PartitionedConnectionId × RoutingKey) → Prop
  | nil {free : Nat} : Layout a length free [] []
  | cons {free base : Nat} {pc : PartitionedConnection} {k : RoutingKey}
      {rest : List PartitionedConnection}
      {keys : List (PartitionedConnectionId × RoutingKey)} :
      free ≤ base → a.Covers k base (length pc) →
      Layout a length (base + length pc) rest keys →
      Layout a length free (pc :: rest) ((pc.id, k) :: keys)

namespace Layout

variable {length : PartitionedConnection → Nat} {free : Nat}
  {connections : List PartitionedConnection}
  {keys : List (PartitionedConnectionId × RoutingKey)}

/-- Each connection has the key of its block, which begins at a free packet. -/
theorem forall₂ (h : a.Layout length free connections keys) :
    List.Forall₂ (fun pc e => e.1 = pc.id ∧ ∃ base, free ≤ base ∧ a.Covers e.2 base (length pc))
      connections keys := by
  induction h with
  | nil => exact .nil
  | @cons free base pc k rest keys hle hcov _ ih =>
      refine .cons ⟨rfl, base, hle, hcov⟩ (ih.imp ?_)
      rintro pc' e ⟨hid, base', hle', hcov'⟩
      exact ⟨hid, base', by omega, hcov'⟩

/-- No packet belongs to the keys of two blocks. -/
theorem pairwise (h : a.Layout length free connections keys) :
    keys.Pairwise fun e e' => ∀ packet, e.2.isMatch packet = true →
      e'.2.isMatch packet = false := by
  induction h with
  | nil => exact .nil
  | @cons free base pc k rest keys hle hcov hrest ih =>
      refine List.pairwise_cons.2 ⟨?_, ih⟩
      intro e he packet hm
      obtain ⟨pc', -, -, base', hle', hcov'⟩ := exists_partner_left hrest.forall₂ he
      exact hcov.not_isMatch hcov' hle' hm

/-- No two blocks are of one connection, if the ids of the connections differ. -/
theorem pairwise_fst_ne (h : a.Layout length free connections keys)
    (hids : connections.Pairwise (fun x y => x.id ≠ y.id)) :
    keys.Pairwise (fun x y => x.1 ≠ y.1) := by
  induction h with
  | nil => exact .nil
  | @cons free base pc k rest keys _ _ hrest ih =>
      rw [List.pairwise_cons] at hids ⊢
      refine ⟨?_, ih hids.2⟩
      intro x hx
      obtain ⟨pc', hpc', hxid, -⟩ := exists_partner_left hrest.forall₂ hx
      rw [hxid]
      exact hids.1 pc' hpc'

/-- What is assigned are the keys of the blocks. -/
theorem get?_ofList_eq_some_iff (h : a.Layout length free connections keys)
    (hids : connections.Pairwise (fun x y => x.id ≠ y.id)) {id : PartitionedConnectionId}
    {k : RoutingKey} : (KeyAssignments.ofList keys).get? id = some k ↔ (id, k) ∈ keys := by
  refine (getElem?_foldl_insert_eq_some_iff Prod.fst Prod.snd keys (h.pairwise_fst_ne hids)
    id k).trans ?_
  constructor
  · rintro ⟨e, he, rfl, rfl⟩
    exact he
  · intro he
    exact ⟨(id, k), he, rfl, rfl⟩

/-- The assigned keys are apart, and each covers the block of its connection. -/
theorem ofList_spec (h : a.Layout length free connections keys)
    (hids : connections.Pairwise (fun x y => x.id ≠ y.id)) :
    (KeyAssignments.ofList keys).Apart connections ∧
      ∀ pc ∈ connections, ∃ k base, (KeyAssignments.ofList keys).get? pc.id = some k ∧
        a.Covers k base (length pc) := by
  have hassigned : List.Forall₂ (fun (e : PartitionedConnectionId × RoutingKey) pc =>
      (KeyAssignments.ofList keys).get? pc.id = some e.2) keys connections := by
    have hboth : List.Forall₂ (fun pc (e : PartitionedConnectionId × RoutingKey) =>
        e ∈ keys ∧ e.1 = pc.id) connections keys := by
      refine List.forall₂_iff_get.2 ⟨h.forall₂.length_eq, fun i hi hi' => ?_⟩
      exact ⟨List.getElem_mem _, (h.forall₂.get hi hi').1⟩
    refine (hboth.imp ?_).flip
    rintro pc ⟨id, k⟩ ⟨he, rfl⟩
    exact (h.get?_ofList_eq_some_iff hids).2 he
  refine ⟨?_, ?_⟩
  · -- the order of the keys goes over to the connections, whichever keys they are assigned
    have hpair := h.pairwise
    clear hids
    generalize KeyAssignments.ofList keys = assigned at hassigned
    clear h
    unfold KeyAssignments.Apart
    induction hassigned with
    | nil => exact .nil
    | @cons e pc keys connections hpc hrest ih =>
        rw [List.pairwise_cons] at hpair ⊢
        refine ⟨?_, ih hpair.2⟩
        intro pc' hpc' k k' packet hk hk' hm
        obtain ⟨e', he', hget⟩ := exists_partner_left hrest hpc'
        obtain rfl : e.2 = k := Option.some.inj (hpc.symm.trans hk)
        obtain rfl : e'.2 = k' := Option.some.inj (hget.symm.trans hk')
        exact hpair.1 e' he' packet hm
  · intro pc hpc
    obtain ⟨⟨id, k⟩, he, rfl, base, -, hcov⟩ := exists_partner_right h.forall₂ hpc
    exact ⟨k, base, (h.get?_ofList_eq_some_iff hids).2 he, hcov⟩

end Layout

/-! ## Both allocators lay blocks -/

/-- The least power of two that is not below a number is a power of two. -/
theorem exists_powerOfTwoFrom_eq (n : Nat) : ∃ m, powerOfTwoFrom n = 2 ^ m := by
  unfold powerOfTwoFrom
  split
  · exact ⟨0, rfl⟩
  · exact ⟨(n - 1).log2 + 1, Nat.one_shiftLeft _⟩

theorem le_powerOfTwoFrom (n : Nat) : n ≤ powerOfTwoFrom n := by
  unfold powerOfTwoFrom
  split
  · assumption
  · rw [Nat.one_shiftLeft]
    have := Nat.lt_log2_self (n := n - 1)
    omega

/-- The length of the block of a connection: one packet, or enough for the atoms of its source
    slice. -/
def blockLength (a : KeyAllocator) (p : PartitionedGraph) (pc : PartitionedConnection) : Nat :=
  match a.kind with
  | .sequential => 1
  | .atomBlock => blockSize p pc

theorem exists_blockSize_eq (p : PartitionedGraph) (pc : PartitionedConnection) :
    ∃ m, blockSize p pc = 2 ^ m := by
  unfold blockSize
  split
  · exact exists_powerOfTwoFrom_eq _
  · exact ⟨0, rfl⟩

theorem powerOfTwoFrom_pos (n : Nat) : 0 < powerOfTwoFrom n := by
  obtain ⟨m, hm⟩ := exists_powerOfTwoFrom_eq n
  exact hm ▸ Nat.two_pow_pos m

theorem blockSize_pos (p : PartitionedGraph) (pc : PartitionedConnection) :
    0 < blockSize p pc := by
  obtain ⟨m, hm⟩ := exists_blockSize_eq p pc
  exact hm ▸ Nat.two_pow_pos m

theorem dvd_alignUp (n block : Nat) : block ∣ alignUp n block := Nat.dvd_mul_left _ _

theorem le_alignUp {n block : Nat} (hb : 0 < block) : n ≤ alignUp n block := by
  unfold alignUp
  have := Nat.div_add_mod (n + block - 1) block
  have := Nat.mod_lt (n + block - 1) hb
  rw [Nat.mul_comm]
  omega

/-- Blocks of atoms lie one after the other. -/
theorem layout_of_blocksFrom {p : PartitionedGraph} {free : Nat}
    {connections : List PartitionedConnection}
    {keys : List (PartitionedConnectionId × RoutingKey)}
    (h : a.blocksFrom p free connections = .ok keys) :
    a.Layout (blockSize p) free connections keys := by
  induction connections generalizing free keys with
  | nil =>
      obtain rfl : [] = keys := Except.ok.inj h
      exact .nil
  | cons pc rest ih =>
      rw [blocksFrom] at h
      obtain ⟨m, hm⟩ := exists_blockSize_eq p pc
      simp only at h
      split at h
      · exact absurd h (by simp)
      · next hend =>
          obtain ⟨more, hmore, h⟩ := bind_eq_ok_iff.1 h
          obtain rfl := Except.ok.inj h
          refine .cons (le_alignUp (blockSize_pos p pc)) ?_ (ih hmore)
          have hdvd := dvd_alignUp free (blockSize p pc)
          rw [hm] at hdvd hend ⊢
          exact covers_block hdvd (by omega)

/-- Positions as keys are blocks of one packet. -/
theorem layout_zipIdx (connections : List PartitionedConnection) (first : Nat)
    (h : first + connections.length ≤ a.capacity) :
    a.Layout (fun _ => 1) first connections
      ((connections.zipIdx first).map fun (pc, i) => (pc.id, ⟨UInt32.ofNat i, a.fullMask⟩)) := by
  induction connections generalizing first with
  | nil => exact .nil
  | cons pc rest ih =>
      rw [List.length_cons] at h
      rw [List.zipIdx_cons, List.map_cons]
      refine .cons (Nat.le_refl first) ?_ (ih (first + 1) (by omega))
      have hcovers : a.Covers ⟨UInt32.ofNat first, a.fullMask &&& ~~~(UInt32.ofNat (2 ^ 0 - 1))⟩
          first (2 ^ 0) := covers_block (one_dvd first) (by omega)
      simpa using hcovers

/-- The keys of a successful allocation are those of blocks that lie one after the other. -/
theorem layout_of_allocate {p : PartitionedGraph} {keys : KeyAssignments}
    (h : a.allocate p = .ok keys) : ∃ entries, keys = .ofList entries ∧
      a.Layout (a.blockLength p) 0 p.connections.toList entries := by
  unfold allocate at h
  unfold blockLength
  cases hkind : a.kind with
  | sequential =>
      rw [hkind] at h
      simp only [sequential] at h
      split at h
      · exact absurd h (by simp)
      · next hle =>
          refine ⟨_, (Except.ok.inj h).symm, layout_zipIdx p.connections.toList 0 ?_⟩
          rw [Array.length_toList]
          omega
  | atomBlock =>
      rw [hkind] at h
      obtain ⟨blocks, hblocks, h⟩ := bind_eq_ok_iff.1 h
      exact ⟨blocks, (Except.ok.inj h).symm, layout_of_blocksFrom hblocks⟩

/-- **The keys of a successful allocation.** If the ids of the connections differ, then no packet
    belongs to two connections, and every connection has a key that covers its block. -/
theorem allocate_eq_ok {p : PartitionedGraph} {keys : KeyAssignments}
    (hids : p.connections.toList.Pairwise (fun x y => x.id ≠ y.id))
    (h : a.allocate p = .ok keys) :
    keys.Apart p.connections.toList ∧ ∀ pc ∈ p.connections.toList, ∃ k base,
      keys.get? pc.id = some k ∧ a.Covers k base (a.blockLength p pc) := by
  obtain ⟨entries, rfl, hlayout⟩ := layout_of_allocate h
  exact hlayout.ofList_spec hids

end KeyAllocator

end SpikeMesh
