import Mathlib.Data.List.Nodup
import SpikeMesh.Proofs.Collections
import SpikeMesh.Routing.Travel

set_option autoImplicit false

/-! # Replaying a packet

A packet that enters a chip is copied to every link of the entry that it follows there. The
replay of a packet counts its copies: it lists, hop by hop, the chips that copies enter, a chip
as often as copies enter it. So the replay tells a chip entered twice from a chip entered once,
which the set of visited chips does not.

The replay of a packet is a tree (`Travel.IsTree`) if all links that copies take exist, no chip
is entered twice, and after some hops no copy is left. This is proved here of every packet that
follows a system of ways (`Travel.FollowsWays`): each chip has at most one way from the source,
and a link that the packet takes prolongs the way of the chip by one hop. -/

namespace SpikeMesh

namespace Travel

/-! ## The replay -/

/-- The chips that copies of the packet enter after a number of hops, one for each copy. -/
def arrivals (t : Travel) (source : ChipCoord) : Nat → List ChipCoord
  | 0 => [source]
  | n + 1 => (t.arrivals source n).flatMap t.hops

/-- The chips that copies of the packet enter within fewer than a number of hops, one for each
    copy. -/
def entered (t : Travel) (source : ChipCoord) (n : Nat) : List ChipCoord :=
  (List.range n).flatMap (t.arrivals source)

/-- Whether a copy of the packet enters a chip. -/
def Enters (t : Travel) (source c : ChipCoord) : Prop := ∃ n, c ∈ t.arrivals source n

/-- Whether a copy of the packet is delivered to a core. -/
def DeliversTo (t : Travel) (source : ChipCoord) (l : Location) : Prop :=
  ∃ c, t.Enters source c ∧ l ∈ t.deliveries c

/-- The replay of a packet runs along a tree of existing links. -/
structure IsTree (t : Travel) (source : ChipCoord) : Prop where
  /-- Every link over which a copy is sent exists and leads to a chip. -/
  links_exist : ∀ c, t.Enters source c → ∀ e, t.tables.lookup? c t.packet = some e →
    ∀ d ∈ e.links, ∃ link, t.fabric.link? c d = some link ∧
      t.fabric.contains link.destination = true
  /-- No chip is entered by two copies. -/
  enters_once : ∀ n, (t.entered source n).Nodup
  /-- After some hops no copy is left. -/
  terminates : ∃ n, t.arrivals source n = []

/-- The source is entered. -/
theorem enters_source (t : Travel) (source : ChipCoord) : t.Enters source source :=
  ⟨0, List.mem_singleton_self source⟩

/-- A chip to which an entered chip forwards is entered. -/
theorem Enters.hop {t : Travel} {source c next : ChipCoord} (h : t.Enters source c)
    (hn : next ∈ t.hops c) : t.Enters source next := by
  obtain ⟨n, hc⟩ := h
  exact ⟨n + 1, List.mem_flatMap.2 ⟨c, hc, hn⟩⟩

/-- A chip forwards to the ends of the existing links of the entry that the packet follows. -/
theorem mem_hops_iff {t : Travel} {c next : ChipCoord} :
    next ∈ t.hops c ↔ ∃ e, t.tables.lookup? c t.packet = some e ∧
      ∃ d ∈ e.links, ∃ link, t.fabric.link? c d = some link ∧ link.destination = next := by
  unfold hops
  cases t.tables.lookup? c t.packet with
  | none => simp
  | some e =>
      simp only [List.mem_map, List.mem_filterMap, Std.ExtTreeSet.mem_toList,
        Option.some.injEq, exists_eq_left']
      constructor
      · rintro ⟨link, ⟨d, hd, hl⟩, rfl⟩
        exact ⟨d, hd, link, hl, rfl⟩
      · rintro ⟨d, hd, link, hl, rfl⟩
        exact ⟨link, ⟨d, hd, hl⟩, rfl⟩

/-- The packet is delivered to the cores of the entry that it follows. -/
theorem mem_deliveries_iff {t : Travel} {c : ChipCoord} {l : Location} :
    l ∈ t.deliveries c ↔ l.chip = c ∧
      ∃ e, t.tables.lookup? c t.packet = some e ∧ l.core ∈ e.cores := by
  unfold deliveries
  cases t.tables.lookup? c t.packet with
  | none => simp
  | some e =>
      simp only [List.mem_map, Std.ExtTreeSet.mem_toList, Option.some.injEq, exists_eq_left']
      constructor
      · rintro ⟨core, hcore, rfl⟩
        exact ⟨rfl, hcore⟩
      · rintro ⟨rfl, hcore⟩
        exact ⟨l.core, hcore, rfl⟩

/-! ## Systems of ways -/

/-- A path across the mesh: the chips passed, with the link taken from each. -/
abbrev Path := List (ChipCoord × Direction)

/-- The packet follows ways from the source, at most one to each chip: every link that it takes
    exists, leads to a chip, and prolongs the way of the chip that it leaves. -/
structure FollowsWays (t : Travel) (way : ChipCoord → Option Path) (source : ChipCoord) :
    Prop where
  source_way : way source = some []
  step : ∀ c w e d, way c = some w → t.tables.lookup? c t.packet = some e → d ∈ e.links →
    ∃ link, t.fabric.link? c d = some link ∧ t.fabric.contains link.destination = true ∧
      way link.destination = some (w ++ [(c, d)])

namespace FollowsWays

variable {t : Travel} {way : ChipCoord → Option Path} {source : ChipCoord}

/-- A chip to which a chip forwards has the way of that chip and one more hop. -/
theorem way_of_mem_hops (h : t.FollowsWays way source) {c next : ChipCoord} {w : Path}
    (hw : way c = some w) (hn : next ∈ t.hops c) :
    ∃ d, way next = some (w ++ [(c, d)]) := by
  obtain ⟨e, he, d, hd, link, hlink, rfl⟩ := mem_hops_iff.1 hn
  obtain ⟨link', hlink', -, hway⟩ := h.step c w e d hw he hd
  rw [hlink, Option.some.injEq] at hlink'
  exact ⟨d, hlink' ▸ hway⟩

/-- A chip forwards at most once to each chip: two links to one chip would give it two ways. -/
theorem nodup_hops (h : t.FollowsWays way source) {c : ChipCoord} {w : Path}
    (hw : way c = some w) : (t.hops c).Nodup := by
  unfold hops
  cases he : t.tables.lookup? c t.packet with
  | none => exact List.nodup_nil
  | some e =>
      show (List.map Link.destination (List.filterMap (t.fabric.link? c) e.links.toList)).Nodup
      have hends : ∀ d ∈ e.links.toList, ∃ link, t.fabric.link? c d = some link ∧
          way link.destination = some (w ++ [(c, d)]) := by
        intro d hd
        obtain ⟨link, hl, -, hway⟩ := h.step c w e d hw he (Std.ExtTreeSet.mem_toList.1 hd)
        exact ⟨link, hl, hway⟩
      have hdirs : e.links.toList.Nodup := nodup_toList e.links
      revert hends hdirs
      -- the directions can be told from the ways of the chips to which they lead
      generalize e.links.toList = dirs
      intro hends hdirs
      induction dirs with
      | nil => exact List.nodup_nil
      | cons d rest ih =>
          rw [List.nodup_cons] at hdirs
          obtain ⟨link, hl, hway⟩ := hends d List.mem_cons_self
          rw [List.filterMap_cons_some hl, List.map_cons, List.nodup_cons]
          refine ⟨?_, ih (fun d' hd' => hends d' (List.mem_cons_of_mem _ hd')) hdirs.2⟩
          intro hmem
          obtain ⟨link', hlink', hdest⟩ := List.mem_map.1 hmem
          obtain ⟨d', hd', hl'⟩ := List.mem_filterMap.1 hlink'
          obtain ⟨link'', hl'', hway'⟩ := hends d' (List.mem_cons_of_mem _ hd')
          rw [hl', Option.some.injEq] at hl''
          rw [← hl'', hdest, hway] at hway'
          have heq : d = d' := by simpa using hway'
          exact hdirs.1 (heq ▸ hd')

/-- After `n` hops the copies are on chips with ways of `n` hops, each on a chip of its own. -/
theorem arrivals_spec (h : t.FollowsWays way source) (n : Nat) :
    (t.arrivals source n).Nodup ∧
      ∀ c ∈ t.arrivals source n, ∃ w, way c = some w ∧ w.length = n := by
  induction n with
  | zero =>
      refine ⟨List.nodup_singleton source, ?_⟩
      intro c hc
      rw [arrivals, List.mem_singleton] at hc
      exact ⟨[], hc ▸ h.source_way, rfl⟩
  | succ n ih =>
      obtain ⟨hnodup, hways⟩ := ih
      rw [arrivals]
      constructor
      · rw [List.nodup_flatMap]
        refine ⟨?_, ?_⟩
        · intro c hc
          obtain ⟨w, hw, -⟩ := hways c hc
          exact h.nodup_hops hw
        · -- the last hop of the way to a chip tells from where the chip is entered
          refine hnodup.imp_of_mem ?_
          intro a b ha hb hab
          obtain ⟨wa, hwa, -⟩ := hways a ha
          obtain ⟨wb, hwb, -⟩ := hways b hb
          intro next hna hnb
          obtain ⟨da, hda⟩ := h.way_of_mem_hops hwa hna
          obtain ⟨db, hdb⟩ := h.way_of_mem_hops hwb hnb
          rw [hda] at hdb
          have hlast : (a, da) = (b, db) := by
            have := List.append_inj_right' (Option.some.inj hdb) rfl
            simpa using this
          exact hab (Prod.ext_iff.1 hlast).1
      · intro next hn
        obtain ⟨c, hc, hnc⟩ := List.mem_flatMap.1 hn
        obtain ⟨w, hw, hlen⟩ := hways c hc
        obtain ⟨d, hd⟩ := h.way_of_mem_hops hw hnc
        exact ⟨w ++ [(c, d)], hd, by simp [hlen]⟩

/-- Every chip that is entered has a way. -/
theorem way_of_enters (h : t.FollowsWays way source) {c : ChipCoord} (hc : t.Enters source c) :
    ∃ w, way c = some w := by
  obtain ⟨n, hn⟩ := hc
  obtain ⟨w, hw, -⟩ := (h.arrivals_spec n).2 c hn
  exact ⟨w, hw⟩

/-- The replay along ways of bounded length is a tree. -/
theorem isTree (h : t.FollowsWays way source) {bound : Nat}
    (hb : ∀ c w, way c = some w → w.length < bound) : t.IsTree source where
  links_exist := by
    intro c hc e he d hd
    obtain ⟨w, hw⟩ := h.way_of_enters hc
    obtain ⟨link, hl, hcont, -⟩ := h.step c w e d hw he hd
    exact ⟨link, hl, hcont⟩
  enters_once := by
    intro n
    rw [entered, List.nodup_flatMap]
    refine ⟨fun m _ => (h.arrivals_spec m).1, ?_⟩
    -- the length of the way to a chip tells after how many hops the chip is entered
    refine List.nodup_range.imp ?_
    intro i j hij c hi hj
    obtain ⟨wi, hwi, hleni⟩ := (h.arrivals_spec i).2 c hi
    obtain ⟨wj, hwj, hlenj⟩ := (h.arrivals_spec j).2 c hj
    rw [hwi, Option.some.injEq] at hwj
    exact hij (by rw [← hleni, ← hlenj, hwj])
  terminates := by
    refine ⟨bound, List.eq_nil_iff_forall_not_mem.2 ?_⟩
    intro c hc
    obtain ⟨w, hw, hlen⟩ := (h.arrivals_spec bound).2 c hc
    have := hb c w hw
    omega

end FollowsWays

end Travel

end SpikeMesh
