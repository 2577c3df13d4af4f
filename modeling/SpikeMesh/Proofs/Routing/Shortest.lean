import Mathlib.Order.Bounds.Basic
import SpikeMesh.Proofs.Routing.Paths
import SpikeMesh.Proofs.Routing.Settling

set_option autoImplicit false

/-! # Shortest paths are shortest

Once the queue is empty, every link from a chip that was reached leads to a chip that was reached at
no more cost, so no walk costs less than the distance of its end. The hops that are recorded make up
walks that cost just the distances. As links cost something, the distances decrease from hop to hop
backwards, which is why a path passes no chip twice. -/

namespace SpikeMesh

/-- A walk over existing links to existing chips, with the chip to which it leads and what it
    costs. -/
inductive Fabric.Walk (f : Fabric) (kind : RouterKind) (source : ChipCoord) :
    Travel.Path → ChipCoord → Nat → Prop
  | stay : f.Walk kind source [] source 0
  | step {w : Travel.Path} {c : ChipCoord} {cost : Nat} {d : Direction} {link : Link} :
      f.Walk kind source w c cost → f.link? c d = some link →
      f.contains link.destination = true →
      f.Walk kind source (w ++ [(c, d)]) link.destination (cost + kind.linkCost link)

namespace ShortestPathTree

/-- The distances are the costs of cheapest walks, and the paths are such walks, each of them
    beginning with the paths to the chips that it passes. -/
structure IsShortest (t : ShortestPathTree) (f : Fabric) (kind : RouterKind)
    (source : ChipCoord) : Prop where
  /-- A chip has a distance if a walk leads to it. -/
  reaches_iff : ∀ c, (t.distance? c).isSome = true ↔ ∃ w cost, f.Walk kind source w c cost
  /-- The distance is the least cost of a walk. -/
  distance_iff : ∀ c distance, t.distance? c = some distance ↔
    IsLeast { cost | ∃ w, f.Walk kind source w c cost } distance
  /-- A chip has a path if it has a distance. -/
  path_isSome : ∀ c, (t.pathTo? c).isSome = (t.distance? c).isSome
  /-- The path is a walk that costs the distance. -/
  path_walks : ∀ c w, t.pathTo? c = some w →
    ∃ distance, t.distance? c = some distance ∧ f.Walk kind source w c distance
  /-- No chip is passed twice. -/
  path_nodup : ∀ c w, t.pathTo? c = some w → (w.map Prod.fst ++ [c]).Nodup
  /-- The path to a chip that is passed is the part of the path up to this chip. -/
  path_begins : ∀ c w, t.pathTo? c = some w → ∀ before ∈ w.map Prod.fst ++ [c],
    ∃ w', t.pathTo? before = some w' ∧ w' <+: w

section Compute

variable {f : Fabric} {kind : RouterKind} {source c : ChipCoord} {distance : Nat}

/-! ## The labels of a finished search -/

theorem distance?_source (f : Fabric) (kind : RouterKind) (source : ChipCoord) :
    (compute f source kind).distance? source = some 0 := by
  rw [distance?, compute, (PathSearch.ordered_run f kind source).source_eq]
  rfl

/-- When the queue is empty, every chip that was reached is settled. -/
theorem settled_iff :
    (PathSearch.run f kind source).Settled c distance ↔
      (compute f source kind).distance? c = some distance := by
  unfold PathSearch.Settled
  rw [PathSearch.queue_run]
  exact and_iff_left (by simp)

/-- The last hop to a chip comes from a chip that is nearer by the cost of the link. -/
theorem exists_hop (h : (compute f source kind).distance? c = some distance) (hne : c ≠ source) :
    ∃ label before d link near, (compute f source kind).labels[c]? = some label ∧
      label.hop = some (before, d) ∧
      (compute f source kind).distance? before = some near ∧ f.link? before d = some link ∧
      link.destination = c ∧ f.contains c = true ∧ distance = near + kind.linkCost link := by
  have hordered := PathSearch.ordered_run f kind source
  obtain ⟨label, hlabel, rfl⟩ := Option.map_eq_some_iff.1 h
  obtain ⟨before, d, link, near, hhop, hbefore, hlink, hend, hcontains, hcost⟩ :=
    hordered.hop_eq c label hlabel hne
  exact ⟨label, before, d, link, near, hlabel, hhop, settled_iff.1 hbefore, hlink, hend, hcontains,
    hcost⟩

/-- No walk is cheaper than the distance of the chip to which it leads. -/
theorem exists_distance_le {w : Travel.Path} {cost : Nat} (h : f.Walk kind source w c cost) :
    ∃ distance, (compute f source kind).distance? c = some distance ∧ distance ≤ cost := by
  have hordered := PathSearch.ordered_run f kind source
  induction h with
  | stay => exact ⟨0, distance?_source f kind source, Nat.le_refl 0⟩
  | @step w c cost d link _ hlink hcontains ih =>
      obtain ⟨distance, hdistance, hle⟩ := ih
      obtain ⟨far, hfar, hfarther⟩ :=
        hordered.followed c distance d link (settled_iff.2 hdistance) id hlink hcontains
      exact ⟨far, hfar, by omega⟩

/-! ## Paths -/

/-- A chip is none of those that are nearer. -/
theorem nodup_concat_of_nearer {t : ShortestPathTree} {nearer : List ChipCoord}
    (h : t.distance? c = some distance) (hnodup : nearer.Nodup)
    (hnearer : ∀ before ∈ nearer, ∃ near, t.distance? before = some near ∧ near < distance) :
    (nearer ++ [c]).Nodup := by
  rw [List.nodup_append]
  refine ⟨hnodup, List.nodup_singleton c, ?_⟩
  intro before hbefore last hlast
  rw [List.mem_singleton.1 hlast]
  rintro rfl
  obtain ⟨near, hnear, hlt⟩ := hnearer before hbefore
  obtain rfl := Option.some.inj (hnear.symm.trans h)
  exact absurd hlt (Nat.lt_irrefl _)

/-- The hops that lead to a chip make up a walk that costs the distance, over chips that are
    nearer. -/
theorem exists_leads (h : (compute f source kind).distance? c = some distance) :
    ∃ w, (compute f source kind).Leads w c ∧ f.Walk kind source w c distance ∧
      (∀ before ∈ w.map Prod.fst, ∃ near,
        (compute f source kind).distance? before = some near ∧ near < distance) ∧
      (w.map Prod.fst).Nodup := by
  induction distance using Nat.strongRecOn generalizing c with
  | ind distance ih =>
      by_cases hsource : c = source
      · subst hsource
        obtain rfl := Option.some.inj (h.symm.trans (distance?_source f kind c))
        exact ⟨[], .source, .stay, by simp, by simp⟩
      · obtain ⟨label, before, d, link, near, hlabel, hhop, hbefore, hlink, rfl, hcontains, rfl⟩ :=
          exists_hop h hsource
        have hcost := kind.one_le_linkCost link
        obtain ⟨w, hleads, hwalk, hnearer, hnodup⟩ := ih near (by omega) hbefore
        refine ⟨w ++ [(before, d)], .hop hsource hlabel hhop hleads, .step hwalk hlink hcontains,
          ?_, ?_⟩
        · simp only [List.map_append, List.map_cons, List.map_nil, List.mem_append,
            List.mem_singleton]
          rintro passed (hpassed | rfl)
          · obtain ⟨near', hnear', hlt⟩ := hnearer passed hpassed
            exact ⟨near', hnear', by omega⟩
          · exact ⟨near, hbefore, by omega⟩
        · rw [List.map_append]
          exact nodup_concat_of_nearer hbefore hnodup hnearer

theorem exists_pathTo? (h : (compute f source kind).distance? c = some distance) :
    ∃ w, (compute f source kind).pathTo? c = some w ∧ f.Walk kind source w c distance ∧
      (w.map Prod.fst ++ [c]).Nodup := by
  obtain ⟨w, hleads, hwalk, hnearer, hnodup⟩ := exists_leads h
  have hreached : ∀ b far, (compute f source kind).distance? b = some far →
      b ∈ (compute f source kind).labels.keys := by
    intro b far hb
    obtain ⟨label, hlabel, -⟩ := Option.map_eq_some_iff.1 hb
    rw [Std.ExtTreeMap.mem_keys, Std.ExtTreeMap.mem_iff_isSome_getElem?, hlabel]
    rfl
  have hpassed := nodup_concat_of_nearer h hnodup hnearer
  have hsub : w.map Prod.fst ++ [c] ⊆ (compute f source kind).labels.keys := by
    intro b hb
    rcases List.mem_append.1 hb with hb | hb
    · obtain ⟨near, hnear, -⟩ := hnearer b hb
      exact hreached b near hnear
    · rw [List.mem_singleton.1 hb]
      exact hreached c distance h
  have hlength := hpassed.length_le_of_subset hsub
  rw [List.length_append, List.length_map, List.length_singleton,
    Std.ExtTreeMap.length_keys] at hlength
  refine ⟨w, (pathTo?_eq_some_iff _ _ _).2 ⟨?_, hleads, by omega⟩, hwalk, hpassed⟩
  exact Std.ExtTreeMap.mem_keys.1 (hreached c distance h)

/-- A chip that has a path has a distance, and the path is a walk that costs it. -/
theorem walk_of_pathTo? {w : Travel.Path} (h : (compute f source kind).pathTo? c = some w) :
    ∃ distance, (compute f source kind).distance? c = some distance ∧
      f.Walk kind source w c distance ∧ (w.map Prod.fst ++ [c]).Nodup := by
  obtain ⟨hcontains, -⟩ := (pathTo?_eq_some_iff _ _ _).1 h
  rw [Std.ExtTreeMap.contains_eq_isSome_getElem?] at hcontains
  obtain ⟨label, hlabel⟩ := Option.isSome_iff_exists.1 hcontains
  have hdistance : (compute f source kind).distance? c = some label.distance := by
    rw [distance?, hlabel]
    rfl
  obtain ⟨w', hw', hwalk, hnodup⟩ := exists_pathTo? hdistance
  obtain rfl := Option.some.inj (h.symm.trans hw')
  exact ⟨label.distance, hdistance, hwalk, hnodup⟩

theorem isLeast_of_distance? (h : (compute f source kind).distance? c = some distance) :
    IsLeast { cost | ∃ w, f.Walk kind source w c cost } distance := by
  obtain ⟨w, -, hwalk, -⟩ := exists_pathTo? h
  refine ⟨⟨w, hwalk⟩, ?_⟩
  intro cost hcost
  obtain ⟨w', hwalk'⟩ := hcost
  obtain ⟨distance', hdistance', hle⟩ := exists_distance_le hwalk'
  rwa [Option.some.inj (h.symm.trans hdistance')]

end Compute

/-- **Shortest paths.** The search ends with an empty queue, and the tree that it finds holds the
    cheapest walks to all chips that can be reached. -/
theorem compute_isShortest (f : Fabric) (kind : RouterKind) (source : ChipCoord) :
    (PathSearch.run f kind source).queue = ∅ ∧
      (compute f source kind).IsShortest f kind source := by
  refine ⟨PathSearch.queue_run f kind source, ?_, ?_, ?_, ?_, ?_, ?_⟩
  · intro c
    rw [Option.isSome_iff_exists]
    constructor
    · intro h
      obtain ⟨distance, hdistance⟩ := h
      obtain ⟨w, -, hwalk, -⟩ := exists_pathTo? hdistance
      exact ⟨w, distance, hwalk⟩
    · intro h
      obtain ⟨w, cost, hwalk⟩ := h
      obtain ⟨distance, hdistance, -⟩ := exists_distance_le hwalk
      exact ⟨distance, hdistance⟩
  · intro c distance
    refine ⟨isLeast_of_distance?, ?_⟩
    intro hleast
    obtain ⟨w, hwalk⟩ := hleast.1
    obtain ⟨distance', hdistance', -⟩ := exists_distance_le hwalk
    rw [hdistance', (isLeast_of_distance? hdistance').unique hleast]
  · intro c
    cases hw : (compute f source kind).pathTo? c with
    | some w =>
        obtain ⟨distance, hdistance, -⟩ := walk_of_pathTo? hw
        rw [hdistance]
        rfl
    | none =>
        cases hdistance : (compute f source kind).distance? c with
        | none => rfl
        | some distance =>
            obtain ⟨w, hw', -⟩ := exists_pathTo? hdistance
            exact absurd (hw.symm.trans hw') (by simp)
  · intro c w hw
    obtain ⟨distance, hdistance, hwalk, -⟩ := walk_of_pathTo? hw
    exact ⟨distance, hdistance, hwalk⟩
  · intro c w hw
    obtain ⟨-, -, -, hnodup⟩ := walk_of_pathTo? hw
    exact hnodup
  · intro c w hw before hbefore
    rcases List.mem_append.1 hbefore with hbefore | hbefore
    · obtain ⟨hop, hhop, rfl⟩ := List.mem_map.1 hbefore
      obtain ⟨first, rest, rfl⟩ := List.append_of_mem hhop
      obtain ⟨hfirst, -⟩ := pathTo?_prefix hw
      exact ⟨first, hfirst, List.prefix_append ..⟩
    · rw [List.mem_singleton.1 hbefore]
      exact ⟨w, hw, List.prefix_rfl⟩

end ShortestPathTree

end SpikeMesh
