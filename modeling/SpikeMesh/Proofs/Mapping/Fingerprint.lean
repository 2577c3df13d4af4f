import SpikeMesh.Proofs.Bytes
import SpikeMesh.Proofs.Mapping.Validation

set_option autoImplicit false

/-! # What a fingerprint tells apart

The bytes of which a fingerprint is taken list placements, keys, routing tables and tags, one
section after the other. Every item can be read off its bytes, save a host name with a zero byte.
A mark ends each section but that of the notification tags, and the bytes of an item may start like
a mark. So the bytes tell two mappings apart if it is known where their sections end
(`fingerprintBytes_eq_iff`), and otherwise they need not: a reverse tag can be read as a
notification tag. -/

namespace SpikeMesh

namespace Mapping

/-! ## Links -/

theorem testBit_foldl_index (dirs : List Direction) (bits i : Nat) :
    (dirs.foldl (fun bits d => bits ||| 1 <<< d.index) bits).testBit i
      = (bits.testBit i || dirs.any fun d => d.index == i) := by
  induction dirs generalizing bits with
  | nil => simp
  | cons d rest ih =>
      rw [List.foldl_cons, ih, Nat.testBit_or, Nat.one_shiftLeft, Nat.testBit_two_pow,
        List.any_cons, Bool.or_assoc]
      rfl

theorem index_lt (d : Direction) : d.index < 8 := by cases d <;> decide

theorem index_inj {d d' : Direction} (h : d.index = d'.index) : d = d' := by
  cases d <;> cases d' <;> first | rfl | exact absurd h (by decide)

/-- A direction is in a set if its bit is in the byte of the set. -/
theorem testBit_linkBits (links : Std.ExtTreeSet Direction) (d : Direction) :
    (linkBits links).toNat.testBit d.index = true ↔ d ∈ links := by
  rw [linkBits, UInt8.toNat_ofNat', Nat.testBit_mod_two_pow, testBit_foldl_index]
  simp only [index_lt, decide_true, Nat.zero_testBit, Bool.false_or, Bool.true_and,
    List.any_eq_true, Std.ExtTreeSet.mem_toList, beq_iff_eq]
  constructor
  · rintro ⟨d', hd', hindex⟩
    exact index_inj hindex ▸ hd'
  · exact fun hd => ⟨d, hd, rfl⟩

theorem linkBits_inj {links links' : Std.ExtTreeSet Direction}
    (h : linkBits links = linkBits links') : links = links' :=
  Std.ExtTreeSet.ext_mem fun d => by rw [← testBit_linkBits, h, testBit_linkBits]

/-! ## Sections -/

/-- The bytes of a placed slice. -/
def placementBytes (e : SliceId × Location) : List UInt8 :=
  littleEndian32 e.1.raw ++ locationBytes e.2

/-- The bytes of the key of a connection. -/
def keyBytes (e : PartitionedConnectionId × RoutingKey) : List UInt8 :=
  littleEndian32 e.1.raw ++ littleEndian32 e.2.key ++ littleEndian32 e.2.mask

/-- The bytes of the table of a chip. -/
def chipTableBytes (e : ChipCoord × RoutingTable) : List UInt8 := tableBytes e.1 e.2

theorem fingerprintBytes_eq (m : Mapping) : m.fingerprintBytes =
    m.placements.toList.flatMap placementBytes ++ sectionMark ::
      (m.keys.toList.flatMap keyBytes ++ sectionMark ::
        (m.routingTables.toList.flatMap chipTableBytes ++ sectionMark ::
          (m.tags.notification.flatMap notificationBytes ++
            m.tags.reverse.flatMap reverseBytes))) := by
  simp only [fingerprintBytes, List.append_assoc, List.singleton_append]
  rfl

theorem chipBytes_append_inj {c c' : ChipCoord} {s t : List UInt8}
    (h : chipBytes c ++ s = chipBytes c' ++ t) : c = c' ∧ s = t := by
  obtain ⟨x, y⟩ := c
  obtain ⟨x', y'⟩ := c'
  simp only [chipBytes, List.append_assoc] at h
  obtain ⟨rfl, hy⟩ := littleEndian32_append_inj h
  obtain ⟨rfl, hrest⟩ := littleEndian32_append_inj hy
  exact ⟨rfl, hrest⟩

theorem locationBytes_append_inj {l l' : Location} {s t : List UInt8}
    (h : locationBytes l ++ s = locationBytes l' ++ t) : l = l' ∧ s = t := by
  obtain ⟨c, core⟩ := l
  obtain ⟨c', core'⟩ := l'
  simp only [locationBytes, List.append_assoc] at h
  obtain ⟨rfl, hcore⟩ := chipBytes_append_inj h
  obtain ⟨rfl, hrest⟩ := littleEndian32_append_inj hcore
  exact ⟨rfl, hrest⟩

theorem readable_placementBytes : Readable (fun _ => True) placementBytes := by
  rintro ⟨⟨id⟩, l⟩ ⟨⟨id'⟩, l'⟩ s t - - h
  simp only [placementBytes, List.append_assoc] at h
  obtain ⟨rfl, hlocation⟩ := littleEndian32_append_inj h
  obtain ⟨rfl, hrest⟩ := locationBytes_append_inj hlocation
  exact ⟨rfl, hrest⟩

theorem readable_keyBytes : Readable (fun _ => True) keyBytes := by
  rintro ⟨⟨id⟩, key, mask⟩ ⟨⟨id'⟩, key', mask'⟩ s t - - h
  simp only [keyBytes, List.append_assoc] at h
  obtain ⟨rfl, hkey⟩ := littleEndian32_append_inj h
  obtain ⟨rfl, hmask⟩ := littleEndian32_append_inj hkey
  obtain ⟨rfl, hrest⟩ := littleEndian32_append_inj hmask
  exact ⟨rfl, hrest⟩

/-- The number of items is read off its bytes, if it fits into a word. -/
theorem count_append_inj {m n : Nat} (hm : m < UInt32.size) (hn : n < UInt32.size)
    {s t : List UInt8}
    (h : littleEndian32 (UInt32.ofNat m) ++ s = littleEndian32 (UInt32.ofNat n) ++ t) :
    m = n ∧ s = t := by
  obtain ⟨hcount, h⟩ := littleEndian32_append_inj h
  have hcount := congrArg UInt32.toNat hcount
  rw [UInt32.toNat_ofNat', UInt32.toNat_ofNat', Nat.mod_eq_of_lt hm, Nat.mod_eq_of_lt hn] at hcount
  exact ⟨hcount, h⟩

/-- The cores of an entry can be counted in a word. -/
def CoresFit (e : RoutingEntry) : Prop := e.cores.size < UInt32.size

/-- The entries of a table can be counted in a word, and so can the cores of each. -/
structure TableFits (t : RoutingTable) : Prop where
  entries : t.size < UInt32.size
  cores : ∀ e ∈ t.entries, CoresFit e

theorem readable_entryBytes : Readable CoresFit entryBytes := by
  rintro ⟨key, mask, links, cores⟩ ⟨key', mask', links', cores'⟩ s t hfits hfits' h
  simp only [entryBytes, List.append_assoc, List.singleton_append] at h
  obtain ⟨rfl, hmask⟩ := littleEndian32_append_inj h
  obtain ⟨rfl, hlinks⟩ := littleEndian32_append_inj hmask
  obtain rfl := linkBits_inj (List.head_eq_of_cons_eq hlinks)
  obtain ⟨hsize, hcores⟩ := count_append_inj hfits hfits' (List.tail_eq_of_cons_eq hlinks)
  obtain ⟨heq, hrest⟩ := readable_littleEndian32.flatMap_inj (fun _ _ => trivial)
    (fun _ _ => trivial) (by simpa only [Std.ExtTreeSet.length_toList] using hsize) hcores
  obtain rfl := Std.ExtTreeSet.toList_inj.1 heq
  exact ⟨rfl, hrest⟩

theorem readable_chipTableBytes : Readable (fun e => TableFits e.2) chipTableBytes := by
  rintro ⟨c, ⟨entries⟩⟩ ⟨c', ⟨entries'⟩⟩ s t hfits hfits' h
  simp only [chipTableBytes, tableBytes, List.append_assoc] at h
  obtain ⟨rfl, hcount⟩ := chipBytes_append_inj h
  obtain ⟨hsize, hentries⟩ := count_append_inj hfits.entries hfits'.entries hcount
  obtain ⟨rfl, hrest⟩ := readable_entryBytes.flatMap_inj hfits.cores hfits'.cores hsize hentries
  exact ⟨rfl, hrest⟩

theorem portBytes_inj {p p' : UInt16} (h : portBytes p = portBytes p') : p = p' := by
  simp only [portBytes, List.cons.injEq, ← UInt8.toNat_inj, UInt16.toNat_toUInt8,
    UInt16.toNat_shiftRight] at h
  obtain ⟨hlow, hhigh, -⟩ := h
  have h8 : (8 : UInt16).toNat % 16 = 8 := rfl
  rw [h8, Nat.shiftRight_eq_div_pow, Nat.shiftRight_eq_div_pow] at hhigh
  have hp := p.toNat_lt
  have hp' := p'.toNat_lt
  exact UInt16.toNat_inj.1 (by omega)

theorem portBytes_append_inj {p p' : UInt16} {s t : List UInt8}
    (h : portBytes p ++ s = portBytes p' ++ t) : p = p' ∧ s = t := by
  obtain ⟨hport, h⟩ := List.append_inj h rfl
  exact ⟨portBytes_inj hport, h⟩

/-- The name of the host of a tag has no zero byte. -/
def HostZeroFree (t : NotificationTag) : Prop := 0 ∉ t.host.toUTF8.data.toList

theorem readable_notificationBytes : Readable HostZeroFree notificationBytes := by
  rintro ⟨⟨unit⟩, tag, host, port⟩ ⟨⟨unit'⟩, tag', host', port'⟩ s t hfree hfree' h
  simp only [notificationBytes, List.append_assoc, List.singleton_append] at h
  obtain ⟨rfl, htag⟩ := littleEndian32_append_inj h
  obtain ⟨rfl, hhost⟩ := littleEndian32_append_inj htag
  obtain ⟨heq, hport⟩ := append_zero_inj hfree hfree' hhost
  obtain rfl : host = host' := String.toByteArray_inj.1 (ByteArray.ext (Array.toList_inj.1 heq))
  obtain ⟨rfl, hrest⟩ := portBytes_append_inj hport
  exact ⟨rfl, hrest⟩

theorem readable_reverseBytes : Readable (fun _ => True) reverseBytes := by
  rintro ⟨⟨unit⟩, tag, port, l⟩ ⟨⟨unit'⟩, tag', port', l'⟩ s t - - h
  simp only [reverseBytes, List.append_assoc] at h
  obtain ⟨rfl, htag⟩ := littleEndian32_append_inj h
  obtain ⟨rfl, hport⟩ := littleEndian32_append_inj htag
  obtain ⟨rfl, hlocation⟩ := portBytes_append_inj hport
  obtain ⟨rfl, hrest⟩ := locationBytes_append_inj hlocation
  exact ⟨rfl, hrest⟩

/-! ## Fingerprints -/

/-- All counts in the tables of a mapping fit into words. -/
def TablesFit (m : Mapping) : Prop := ∀ e ∈ m.routingTables.toList, TableFits e.2

/-- It is known where the sections of two mappings end, and where the names of hosts do. Nothing
    marks the end of the notification tags, so that there must be as many in both. -/
structure SectionsKnown (m m' : Mapping) : Prop where
  placements : EndsKnown sectionMark placementBytes m.placements.toList m'.placements.toList
  keys : EndsKnown sectionMark keyBytes m.keys.toList m'.keys.toList
  tables : EndsKnown sectionMark chipTableBytes m.routingTables.toList m'.routingTables.toList
  notification : m.tags.notification.length = m'.tags.notification.length
  hosts : ∀ t, t ∈ m.tags.notification ∨ t ∈ m'.tags.notification → HostZeroFree t

/-- The lengths of the sections up to the last mark, and of the notification tags. -/
def sectionLengths (m : Mapping) : Nat × Nat × Nat × Nat :=
  (m.placements.toList.length, m.keys.toList.length, m.routingTables.toList.length,
    m.tags.notification.length)

theorem sectionsKnown_of_lengths_eq {m m' : Mapping} (h : m.sectionLengths = m'.sectionLengths)
    (hhosts : ∀ t, t ∈ m.tags.notification ∨ t ∈ m'.tags.notification → HostZeroFree t) :
    m.SectionsKnown m' := by
  simp only [sectionLengths, Prod.mk.injEq] at h
  obtain ⟨hplacements, hkeys, htables, hnotification⟩ := h
  exact ⟨.inl hplacements, .inl hkeys, .inl htables, hnotification, hhosts⟩

/-- Mappings agree in what is put into a fingerprint. -/
structure Agree (m m' : Mapping) : Prop where
  placements : m.placements = m'.placements
  keys : m.keys = m'.keys
  routingTables : m.routingTables = m'.routingTables
  tags : m.tags = m'.tags

theorem agree_of_fingerprintBytes_eq {m m' : Mapping} (hfits : m.TablesFit)
    (hfits' : m'.TablesFit) (hknown : m.SectionsKnown m')
    (h : m.fingerprintBytes = m'.fingerprintBytes) : m.Agree m' := by
  rw [fingerprintBytes_eq, fingerprintBytes_eq] at h
  obtain ⟨hplacements, h⟩ := readable_placementBytes.flatMap_mark_inj (fun _ _ => trivial)
    (fun _ _ => trivial) hknown.placements h
  obtain ⟨hkeys, h⟩ := readable_keyBytes.flatMap_mark_inj (fun _ _ => trivial)
    (fun _ _ => trivial) hknown.keys h
  obtain ⟨htables, h⟩ := readable_chipTableBytes.flatMap_mark_inj hfits hfits' hknown.tables h
  obtain ⟨hnotification, h⟩ := readable_notificationBytes.flatMap_inj
    (fun t ht => hknown.hosts t (Or.inl ht)) (fun t ht => hknown.hosts t (Or.inr ht))
    hknown.notification h
  have hreverse := flatMap_inj_of_width 22 (by decide) (fun _ => rfl)
    readable_reverseBytes h
  obtain ⟨partitioned, ⟨placements⟩, ⟨keys⟩, ⟨tables⟩, ⟨notification, reverse⟩, timed⟩ := m
  obtain ⟨partitioned', ⟨placements'⟩, ⟨keys'⟩, ⟨tables'⟩, ⟨notification', reverse'⟩, timed'⟩ := m'
  obtain rfl := Std.ExtTreeMap.toList_inj.1 hplacements
  obtain rfl := Std.ExtTreeMap.toList_inj.1 hkeys
  obtain rfl := Std.ExtTreeMap.toList_inj.1 htables
  obtain rfl : notification = notification' := hnotification
  obtain rfl : reverse = reverse' := hreverse
  exact ⟨rfl, rfl, rfl, rfl⟩

theorem Agree.fingerprintBytes_eq {m m' : Mapping} (h : m.Agree m') :
    m.fingerprintBytes = m'.fingerprintBytes := by
  unfold fingerprintBytes
  rw [h.placements, h.keys, h.routingTables, h.tags]

end Mapping

/-! ## Fingerprints of compilations -/

namespace RoutingJob

variable {job : RoutingJob} {kind : RouterKind} {tables : RoutingTables} {c : ChipCoord}

theorem length_entriesAt_le (hkeys : job.keys.Apart job.partitioned.connections.toList)
    (h : job.route kind = .ok tables) (c : ChipCoord) :
    (tables.entriesAt c).length ≤ job.partitioned.connections.size := by
  obtain ⟨partners, hpartners, hsub⟩ := List.sublistForall₂_iff.1 (entryOf_of_route hkeys h c)
  rw [hpartners.length_eq, ← Array.length_toList]
  exact hsub.length_le

/-- The cores of an entry are the places of targets of its connection. -/
theorem exists_target_of_mem_cores (hkeys : job.keys.Apart job.partitioned.connections.toList)
    (h : job.route kind = .ok tables) {e : RoutingEntry} (he : e ∈ tables.entriesAt c) :
    ∃ pc ∈ job.partitioned.connections.toList, ∀ core ∈ e.cores,
      ∃ target ∈ pc.targets, job.placements.get? target = some ⟨c, core⟩ := by
  obtain ⟨pc, hpc, source, hexact, hfollowed⟩ := exists_exact_of_mem_entriesAt hkeys h he
  have hmatch := e.routingKey.isMatch_key
  obtain ⟨henters, hlookup⟩ := hfollowed _ hmatch
  refine ⟨pc, hpc, fun core hcore => (hexact.delivered_iff _ hmatch ⟨c, core⟩).1 ?_⟩
  exact ⟨c, henters, Travel.mem_deliveries_iff.2 ⟨rfl, e, hlookup, hcore⟩⟩

/-- An entry has no more cores than its connection has targets. -/
theorem size_cores_le (hkeys : job.keys.Apart job.partitioned.connections.toList)
    (h : job.route kind = .ok tables) {e : RoutingEntry} (he : e ∈ tables.entriesAt c) :
    ∃ pc ∈ job.partitioned.connections.toList, e.cores.size ≤ pc.targets.length := by
  obtain ⟨pc, hpc, hcores⟩ := exists_target_of_mem_cores hkeys h he
  refine ⟨pc, hpc, ?_⟩
  let cores := pc.targets.filterMap fun target => (job.placements.get? target).map Location.core
  have hsub : e.cores.toList ⊆ cores := by
    intro core hcore
    obtain ⟨target, htarget, hplaced⟩ := hcores core (Std.ExtTreeSet.mem_toList.1 hcore)
    exact List.mem_filterMap.2 ⟨target, htarget, by rw [hplaced]; rfl⟩
  calc e.cores.size = e.cores.toList.length := Std.ExtTreeSet.length_toList.symm
    _ ≤ cores.length := (nodup_toList e.cores).length_le_of_subset hsub
    _ ≤ pc.targets.length := List.length_filterMap_le _ _

end RoutingJob

section Compilations

variable {config : Config} {allocator : KeyAllocator} {g : ApplicationGraph} {f : Fabric}
  {m : Mapping}

/-- The counts in compiled tables fit into words, as there are fewer slices and partitioned
    connections than ids. -/
theorem tablesFit_of_compileWith (hids : FewerThanIds config g f)
    (h : (compileWith config allocator g f).result = .ok m) : m.TablesFit := by
  obtain ⟨budget, p, hby⟩ := compileWith_eq_ok h
  obtain ⟨hslices, hconnections⟩ := hids budget hby.budget_eq p (by rw [hby.partition_eq]; rfl)
  have hkeys := hby.routedBy.apart hids
  have hpruned : m.partitioned.connections.size < UInt32.size := by
    rw [hby.prune_eq]
    exact Nat.lt_of_le_of_lt (PartitionedGraph.size_prune_le p g) hconnections
  rintro ⟨c, table⟩ htable
  have hentries : m.routingTables.entriesAt c = table.entries := by
    rw [RoutingTables.entriesAt, Std.ExtTreeMap.getD_eq_getD_getElem?,
      Std.ExtTreeMap.mem_toList_iff_getElem?_eq_some.1 htable, Option.getD_some]
  constructor
  · have := RoutingJob.length_entriesAt_le hkeys hby.route_eq c
    rw [hentries] at this
    exact Nat.lt_of_le_of_lt this hpruned
  · intro e he
    rw [← hentries] at he
    obtain ⟨pc, hpc, hle⟩ := RoutingJob.size_cores_le hkeys hby.route_eq he
    have hpc : pc ∈ (p.prune g).connections.toList := by
      rw [← hby.prune_eq]
      exact hpc
    have := PartitionedGraph.length_targets_le hby.partition_eq hpc
    exact Nat.lt_of_le_of_lt (Nat.le_trans hle this) hslices

/-- **What a fingerprint tells apart.** Of two compiled mappings, the bytes of which the
    fingerprint is taken are the same if and only if placements, keys, routing tables and tags are,
    provided it is known where the sections end: there are as many notification tags in both, and
    the other sections are as long or have no item that starts like a mark. -/
theorem fingerprintBytes_eq_iff {config' : Config} {allocator' : KeyAllocator}
    {g' : ApplicationGraph} {f' : Fabric} {m' : Mapping} (hids : FewerThanIds config g f)
    (hids' : FewerThanIds config' g' f')
    (h : (compileWith config allocator g f).result = .ok m)
    (h' : (compileWith config' allocator' g' f').result = .ok m') (hknown : m.SectionsKnown m') :
    m.fingerprintBytes = m'.fingerprintBytes ↔ m.Agree m' :=
  ⟨Mapping.agree_of_fingerprintBytes_eq (tablesFit_of_compileWith hids h)
    (tablesFit_of_compileWith hids' h') hknown, Mapping.Agree.fingerprintBytes_eq⟩

end Compilations

/-- A pair of units, compiled with one key for each connection or for each atom. -/
def pairCompilation (kind : KeyAllocatorKind) : Compilation :=
  compileWith pairConfig ⟨kind, 32⟩ pairGraph pairFabric

/-- The two mappings of a pair of units have other keys, and so other fingerprints. -/
theorem pairCompilation_fingerprints_eq_iff :
    FewerThanIds pairConfig pairGraph pairFabric ∧ ∃ m m' : Mapping,
      (pairCompilation .sequential).result = .ok m ∧ (pairCompilation .atomBlock).result = .ok m' ∧
      m.SectionsKnown m' ∧ (m.fingerprintBytes = m'.fingerprintBytes ↔ m.Agree m') ∧
      m.fingerprintBytes ≠ m'.fingerprintBytes := by
  have hids : FewerThanIds pairConfig pairGraph pairFabric := by decide +kernel
  obtain ⟨m, h⟩ := exists_eq_ok_of_isOk
    (by decide +kernel : (pairCompilation .sequential).result.isOk = true)
  obtain ⟨m', h'⟩ := exists_eq_ok_of_isOk
    (by decide +kernel : (pairCompilation .atomBlock).result.isOk = true)
  have hlengths : (pairCompilation .sequential).result.toOption.map Mapping.sectionLengths
      = (pairCompilation .atomBlock).result.toOption.map Mapping.sectionLengths := by
    decide +kernel
  have hnone : ∀ kind, (pairCompilation kind).result.toOption.map Mapping.tags = some .empty
    | .sequential => by decide +kernel
    | .atomBlock => by decide +kernel
  have hkeys : (pairCompilation .sequential).result.toOption.map Mapping.keys
      ≠ (pairCompilation .atomBlock).result.toOption.map Mapping.keys := by decide +kernel
  have htags := hnone .sequential
  have htags' := hnone .atomBlock
  rw [h, h'] at hlengths hkeys
  rw [h] at htags
  rw [h'] at htags'
  have hknown : m.SectionsKnown m' := by
    refine Mapping.sectionsKnown_of_lengths_eq (Option.some.inj hlengths) ?_
    have htags : m.tags = .empty := Option.some.inj htags
    have htags' : m'.tags = .empty := Option.some.inj htags'
    simp [htags, htags', TagAllocations.empty]
  have hiff := fingerprintBytes_eq_iff hids hids h h' hknown
  exact ⟨hids, m, m', h, h', hknown, hiff,
    fun heq => hkeys (congrArg some (hiff.1 heq).keys)⟩

/-- A camera that is attached to a single chip, on a core whose coordinates have bytes that are
    also digits and dots. -/
def cameraCompilation (notification : Option NotificationTagRequest)
    (reverse : Option ReverseTagRequest) : Compilation :=
  let coord : ChipCoord := ⟨909192754, 774909496⟩
  let camera : GraphUnit :=
    { label := "camera", atoms := 1, model := .linear ⟨"model", .zero, ⟨1, 1, 1⟩, 4⟩
      notificationTag := notification, reverseTag := reverse, location := some ⟨coord, 49⟩
      virtualChip := some ⟨coord, ⟨0, 0⟩, .west⟩ }
  compile {} ⟨[camera], []⟩ (.grid 1 1 ⟨3, 10, 10, 40, 8⟩ false)

/-- The bytes of a reverse tag may be those of a notification tag. -/
theorem cameraCompilation_tags_confused : ∃ m m' : Mapping,
    (cameraCompilation none (some ⟨none, 14641⟩)).result = .ok m ∧
    (cameraCompilation (some ⟨none, "192.168.0.1", 0⟩) none).result = .ok m' ∧
    m.fingerprintBytes = m'.fingerprintBytes ∧ m.tags ≠ m'.tags := by
  obtain ⟨m, h⟩ := exists_eq_ok_of_isOk
    (by decide +kernel : (cameraCompilation none (some ⟨none, 14641⟩)).result.isOk = true)
  obtain ⟨m', h'⟩ := exists_eq_ok_of_isOk
    (by decide +kernel :
      (cameraCompilation (some ⟨none, "192.168.0.1", 0⟩) none).result.isOk = true)
  have hbytes : (cameraCompilation none (some ⟨none, 14641⟩)).result.toOption.map
        Mapping.fingerprintBytes
      = (cameraCompilation (some ⟨none, "192.168.0.1", 0⟩) none).result.toOption.map
        Mapping.fingerprintBytes := by decide +kernel
  have htags : (cameraCompilation none (some ⟨none, 14641⟩)).result.toOption.map Mapping.tags
      ≠ (cameraCompilation (some ⟨none, "192.168.0.1", 0⟩) none).result.toOption.map
        Mapping.tags := by decide +kernel
  rw [h, h'] at hbytes htags
  exact ⟨m, m', h, h', Option.some.inj hbytes, fun heq => htags (congrArg some heq)⟩

end SpikeMesh
