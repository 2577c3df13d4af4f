import SpikeMesh.Proofs.Routing.Keys
import SpikeMesh.Proofs.Routing.Trees

set_option autoImplicit false

/-! # What compiled tables hold

The table of a chip holds, in the order of the connections, one entry for each connection whose
tree passes the chip, and nothing else (`RoutingJob.tables_eq_ok`). If no packet belongs to two
connections, a packet follows the entry of its own connection, wherever this entry stands in the
table (`RoutingJob.Compiled.lookup?_eq_some_iff`). -/

namespace SpikeMesh

namespace RoutingTables

/-- The entries of a chip in the order in which packets are compared with them. -/
def entriesAt (t : RoutingTables) (c : ChipCoord) : List RoutingEntry :=
  (t.tables.getD c .empty).entries

theorem entriesAt_empty (c : ChipCoord) : empty.entriesAt c = [] := by
  simp [entriesAt, empty, RoutingTable.empty]

/-- A packet follows the first entry of the chip to which it belongs. -/
theorem lookup?_eq_find? (t : RoutingTables) (c : ChipCoord) (packet : UInt32) :
    t.lookup? c packet = (t.entriesAt c).find? (fun e => e.routingKey.isMatch packet) := by
  rw [lookup?, table?, entriesAt, Std.ExtTreeMap.getD_eq_getD_getElem?]
  cases t.tables[c]? with
  | none => rfl
  | some table => rfl

/-- An entry is put at the end of the table of its chip; other tables stay. -/
theorem entriesAt_push (t : RoutingTables) (c c' : ChipCoord) (e : RoutingEntry) :
    (t.push c e).entriesAt c' = t.entriesAt c' ++ if c = c' then [e] else [] := by
  rw [entriesAt, push, Std.ExtTreeMap.getD_eq_getD_getElem?, getElem?_insert_of_lawful]
  by_cases hc : c = c'
  · subst hc
    rw [if_pos rfl, if_pos rfl, Option.getD_some, entriesAt]
  · rw [if_neg hc, if_neg hc, List.append_nil, entriesAt, Std.ExtTreeMap.getD_eq_getD_getElem?]

/-- Entries of many chips reach the table of a chip in their order. -/
theorem entriesAt_foldl_push {γ : Type} (chip : γ → ChipCoord) (entry : γ → RoutingEntry)
    (items : List γ) (t : RoutingTables) (c : ChipCoord) :
    (items.foldl (fun t x => t.push (chip x) (entry x)) t).entriesAt c
      = t.entriesAt c ++ (items.filter (fun x => chip x = c)).map entry := by
  induction items generalizing t with
  | nil => simp
  | cons x rest ih =>
      rw [List.foldl_cons, ih, entriesAt_push, List.append_assoc]
      by_cases hc : chip x = c
      · rw [if_pos hc, List.filter_cons_of_pos (by simpa using hc), List.map_cons,
          List.singleton_append]
      · rw [if_neg hc, List.filter_cons_of_neg (by simpa using hc), List.nil_append]

end RoutingTables

namespace RoutingJob

/-! ## Compiling one connection after the other -/

/-- What a connection is compiled to: where it starts, its key, and its tree. -/
structure Compiled where
  source : Location
  key : RoutingKey
  tree : MulticastTree

namespace Compiled

/-- The entry of a compiled connection on a chip with a branch of its tree. -/
def entry (r : Compiled) (b : Branch) : RoutingEntry := ⟨r.key.key, r.key.mask, b.links, b.cores⟩

/-- The entries of a compiled connection on a chip: one if its tree passes the chip. -/
def entriesAt (r : Compiled) (c : ChipCoord) : List RoutingEntry :=
  (r.tree.branches[c]?).toList.map r.entry

end Compiled

/-- A connection is compiled with the cheapest paths from the chip of its source. -/
structure CompilesTo (job : RoutingJob) (kind : RouterKind) (pc : PartitionedConnection)
    (r : Compiled) : Prop where
  source_placed : job.placements.get? pc.source = some r.source
  key_given : job.keys.get? pc.id = some r.key
  tree_built :
    job.treeOf (ShortestPathTree.compute job.fabric r.source.chip kind) r.key pc = .ok r.tree

variable {job : RoutingJob} {kind : RouterKind}

/-- A connection is compiled in one way only. -/
theorem CompilesTo.unique {pc : PartitionedConnection} {r r' : Compiled}
    (h : job.CompilesTo kind pc r) (h' : job.CompilesTo kind pc r') : r = r' := by
  obtain ⟨source, key, tree⟩ := r
  obtain ⟨source', key', tree'⟩ := r'
  obtain ⟨hs, hk, ht⟩ := h
  obtain ⟨hs', hk', ht'⟩ := h'
  obtain rfl : source = source' := Option.some.inj (hs.symm.trans hs')
  obtain rfl : key = key' := Option.some.inj (hk.symm.trans hk')
  obtain rfl : tree = tree' := Except.ok.inj (ht.symm.trans ht')
  rfl

/-- The cache holds the cheapest paths over the fabric. -/
def CacheSound (job : RoutingJob) (kind : RouterKind) (cache : PathCache) : Prop :=
  ∀ (c : ChipCoord) (t : ShortestPathTree), cache[c]? = some t →
    t = ShortestPathTree.compute job.fabric c kind

theorem CacheSound.pathsFrom_eq {cache : PathCache} (h : job.CacheSound kind cache)
    (c : ChipCoord) :
    job.pathsFrom kind cache c = ShortestPathTree.compute job.fabric c kind := by
  unfold pathsFrom
  split
  · next t ht => exact h c t ht
  · rfl

/-- One more connection adds its entries to the tables. -/
theorem addConnection_eq_ok {state state' : PathCache × RoutingTables}
    {pc : PartitionedConnection} (hcache : job.CacheSound kind state.1)
    (h : job.addConnection kind state pc = .ok state') :
    job.CacheSound kind state'.1 ∧ ∃ r, job.CompilesTo kind pc r ∧
      ∀ c, state'.2.entriesAt c = state.2.entriesAt c ++ r.entriesAt c := by
  unfold addConnection at h
  obtain ⟨source, hsource, h⟩ := bind_eq_ok_iff.1 h
  obtain ⟨key, hkey, h⟩ := bind_eq_ok_iff.1 h
  rw [hcache.pathsFrom_eq] at h
  obtain ⟨tree, htree, h⟩ := bind_eq_ok_iff.1 h
  obtain rfl : (state.1.insert source.chip _, addEntries key tree state.2) = state' :=
    Except.ok.inj h
  constructor
  · intro c t ht
    rw [getElem?_insert_of_lawful] at ht
    split at ht
    · next hc => rw [← hc]; exact (Option.some.inj ht).symm
    · exact hcache c t ht
  · refine ⟨⟨source, key, tree⟩, ⟨?_, ?_, htree⟩, ?_⟩
    · unfold sourceOf at hsource
      split at hsource
      · next l hl => rw [hl, Except.ok.inj hsource]
      · exact absurd hsource (by simp)
    · unfold keyOf at hkey
      split at hkey
      · next k hk => rw [hk, Except.ok.inj hkey]
      · exact absurd hkey (by simp)
    · intro c
      have hpush := RoutingTables.entriesAt_foldl_push (fun e : ChipCoord × Branch => e.1)
        (fun e => ⟨key.key, key.mask, e.2.links, e.2.cores⟩) tree.toList state.2 c
      rw [MulticastTree.toList, toList_filter_fst, List.map_map] at hpush
      exact hpush

/-- The tables of a chip list, connection by connection, the entries of all connections. -/
theorem tables_eq_ok {tables : RoutingTables} (h : job.tables kind = .ok tables) :
    ∃ compiled : List Compiled,
      List.Forall₂ (job.CompilesTo kind) job.partitioned.connections.toList compiled ∧
        ∀ c, tables.entriesAt c = compiled.flatMap (fun r => r.entriesAt c) := by
  unfold RoutingJob.tables at h
  obtain ⟨state, hstate, h⟩ := bind_eq_ok_iff.1 h
  obtain rfl : state.2 = tables := Except.ok.inj h
  have hinv := foldlM_ok_induction
    (fun (done : List PartitionedConnection) (state : PathCache × RoutingTables) =>
      job.CacheSound kind state.1 ∧ ∃ compiled : List Compiled,
        List.Forall₂ (job.CompilesTo kind) done compiled ∧
          ∀ c, state.2.entriesAt c = compiled.flatMap (fun r => r.entriesAt c))
    ?_ ⟨fun c t ht => absurd ht (by simp), [], List.Forall₂.nil,
      RoutingTables.entriesAt_empty⟩ hstate
  · exact hinv.2
  · rintro done pc state state' ⟨hcache, compiled, hall, hentries⟩ hadd
    obtain ⟨hcache', r, hr, hentries'⟩ := addConnection_eq_ok hcache hadd
    refine ⟨hcache', compiled ++ [r], List.rel_append hall (.cons hr .nil), ?_⟩
    intro c
    rw [hentries' c, hentries c, List.flatMap_append, List.flatMap_cons, List.flatMap_nil,
      List.append_nil]

/-- Routing succeeds with the tables of all connections. -/
theorem tables_of_route {tables : RoutingTables} (h : job.route kind = .ok tables) :
    job.tables kind = .ok tables := by
  unfold route at h
  obtain ⟨t, ht, h⟩ := bind_eq_ok_iff.1 h
  obtain ⟨u, -, h⟩ := bind_eq_ok_iff.1 h
  rw [ht, Except.ok.inj h]

/-! ## The entry of a packet -/

/-- A packet of a connection follows, on each chip, the entry of this connection. -/
theorem lookup?_eq_some_iff {tables : RoutingTables} {compiled : List Compiled}
    (hkeys : job.keys.Apart job.partitioned.connections.toList)
    (hall : List.Forall₂ (job.CompilesTo kind) job.partitioned.connections.toList compiled)
    (hentries : ∀ c, tables.entriesAt c = compiled.flatMap (fun r => r.entriesAt c))
    {pc : PartitionedConnection} (hpc : pc ∈ job.partitioned.connections.toList)
    {r : Compiled} (hr : job.CompilesTo kind pc r) {packet : UInt32}
    (hm : r.key.isMatch packet = true) (c : ChipCoord) (e : RoutingEntry) :
    tables.lookup? c packet = some e ↔ ∃ b, r.tree.branches[c]? = some b ∧ e = r.entry b := by
  -- an entry that the packet follows is that of a connection to which it belongs: its own
  have hown : ∀ e, tables.lookup? c packet = some e →
      ∃ b, r.tree.branches[c]? = some b ∧ e = r.entry b := by
    intro e he
    rw [RoutingTables.lookup?_eq_find?, hentries] at he
    have hmatch : e.routingKey.isMatch packet = true := by
      simpa using List.find?_some he
    obtain ⟨r', hr', he⟩ := List.mem_flatMap.1 (List.mem_of_find?_eq_some he)
    obtain ⟨b, hb, rfl⟩ := List.mem_map.1 he
    obtain ⟨pc', hpc', hcomp'⟩ := exists_partner_left hall hr'
    obtain rfl := hkeys.eq_of_isMatch hpc' hpc hcomp'.key_given hr.key_given hmatch hm
    obtain rfl := hcomp'.unique hr
    exact ⟨b, by simpa using hb, rfl⟩
  constructor
  · exact hown e
  · rintro ⟨b, hb, rfl⟩
    have hmem : r.entry b ∈ tables.entriesAt c := by
      obtain ⟨r', hr', hcomp'⟩ := exists_partner_right hall hpc
      obtain rfl := hcomp'.unique hr
      rw [hentries, List.mem_flatMap]
      exact ⟨r', hr', List.mem_map.2 ⟨b, by simp [hb], rfl⟩⟩
    cases hfind : tables.lookup? c packet with
    | none =>
        rw [RoutingTables.lookup?_eq_find?, List.find?_eq_none] at hfind
        exact absurd hm (hfind _ hmem)
    | some e' =>
        obtain ⟨b', hb', rfl⟩ := hown e' hfind
        rw [hb, Option.some.injEq] at hb'
        rw [hb']

end RoutingJob

end SpikeMesh
