import Mathlib.Data.List.Induction
import SpikeMesh.Proofs.Routing.Replay
import SpikeMesh.Routing.ShortestPath

set_option autoImplicit false

/-! # Paths of a shortest path tree

The search for cheapest paths gives every chip that it reaches, but the source, a last hop. A
path is read off these hops backwards, from its end to the source. Two facts make all paths of
one search the branches of one tree: every hop runs over an existing link, and the part of a
path up to a chip is the path to that chip (`ShortestPathTree.pathTo?_prefix`). Nothing here
depends on the costs of links. -/

namespace SpikeMesh

/-- The links of a chip are those that the fabric has for it. -/
theorem Fabric.mem_links_iff {f : Fabric} {c : ChipCoord} {chip : Chip}
    (hchip : f.chip? c = some chip) {d : Direction} {link : Link} :
    (d, link) ∈ chip.router.links.toList ↔ f.link? c d = some link := by
  rw [Std.ExtTreeMap.mem_toList_iff_getElem?_eq_some, link?, hchip]
  rfl

/-! ## The hops that a search records -/

/-- Every recorded hop takes an existing link to the chip for which it is recorded, and the
    source is reached. -/
structure PathSearch.HopsExist (f : Fabric) (source : ChipCoord)
    (labels : Std.ExtTreeMap ChipCoord PathLabel) : Prop where
  source_reached : labels.contains source = true
  hop_link : ∀ c label before d, labels[c]? = some label → label.hop = some (before, d) →
    ∃ link, f.link? before d = some link ∧ link.destination = c ∧ f.contains c = true

namespace PathSearch

variable {f : Fabric} {source : ChipCoord} {kind : RouterKind}

theorem hopsExist_start (f : Fabric) (source : ChipCoord) :
    HopsExist f source (start source).labels where
  source_reached := by simp [start]
  hop_link := by
    intro c label before d hc hhop
    rw [start, getElem?_insert_of_lawful] at hc
    split at hc
    · rw [Option.some.injEq] at hc
      rw [← hc] at hhop
      exact absurd hhop (by simp)
    · exact absurd hc (by simp)

/-- Following a link out of a chip records at most a hop over this link. -/
theorem HopsExist.relax {s : PathSearch} (h : HopsExist f source s.labels) {e : Waiting}
    {d : Direction} {link : Link} (hl : f.link? e.chip d = some link) :
    HopsExist f source (s.relax f kind e d link).labels := by
  simp only [PathSearch.relax]
  split
  · next himp =>
      rw [Bool.and_eq_true] at himp
      constructor
      · rw [Std.ExtTreeMap.contains_insert, h.source_reached, Bool.or_true]
      · intro c' label before d' hc hhop
        rw [getElem?_insert_of_lawful] at hc
        split at hc
        · next heq =>
            rw [Option.some.injEq] at hc
            rw [← hc, Option.some.injEq, Prod.mk.injEq] at hhop
            obtain ⟨rfl, rfl⟩ := hhop
            exact ⟨link, hl, heq, heq ▸ himp.1⟩
        · exact h.hop_link c' label before d' hc hhop
  · exact h

/-- Visiting a chip records hops over its links only. -/
theorem HopsExist.visit {s : PathSearch} (h : HopsExist f source s.labels) (e : Waiting) :
    HopsExist f source (s.visit f kind e).labels := by
  unfold PathSearch.visit
  split
  · exact h
  · cases hchip : f.chip? e.chip with
    | none => exact h
    | some chip =>
        have hlinks : ∀ link ∈ chip.router.links.toList, f.link? e.chip link.1 = some link.2 :=
          fun _ => (Fabric.mem_links_iff hchip).1
        -- over any of the links, from any state, since relaxing one changes the state
        have hfold : ∀ (links : List (Direction × Link)) (s : PathSearch),
            (∀ link ∈ links, f.link? e.chip link.1 = some link.2) →
            HopsExist f source s.labels → HopsExist f source
              (links.foldl (fun s link => s.relax f kind e link.1 link.2) s).labels := by
          intro links
          induction links with
          | nil => intro s _ hs; exact hs
          | cons link rest ih =>
              intro s hl hs
              rw [List.foldl_cons]
              exact ih _ (fun link' hlink' => hl link' (List.mem_cons_of_mem _ hlink'))
                (hs.relax (hl link List.mem_cons_self))
        exact hfold _ _ hlinks h

/-- So does a step of the search. -/
theorem HopsExist.step {s : PathSearch} (h : HopsExist f source s.labels) :
    HopsExist f source (s.step f kind).labels := by
  unfold PathSearch.step
  split
  · exact h
  · next e _ =>
      have htaken : HopsExist f source (s.take e).labels := h
      exact htaken.visit e

end PathSearch

namespace ShortestPathTree

/-- The hops of a whole search exist. -/
theorem hopsExist_compute (f : Fabric) (source : ChipCoord) (kind : RouterKind) :
    PathSearch.HopsExist f source (compute f source kind).labels := by
  have hrepeat : ∀ n, PathSearch.HopsExist f source
      (Nat.repeat (PathSearch.step f kind) n (.start source)).labels := by
    intro n
    induction n with
    | zero => exact PathSearch.hopsExist_start f source
    | succ n ih => exact ih.step
  exact hrepeat _

/-! ## Reading a path off the hops -/

/-- Following the recorded hops from a chip back to the source gives a path. -/
inductive Leads (t : ShortestPathTree) : Travel.Path → ChipCoord → Prop
  | source : Leads t [] t.source
  | hop {w : Travel.Path} {c before : ChipCoord} {d : Direction} {label : PathLabel} :
      c ≠ t.source → t.labels[c]? = some label → label.hop = some (before, d) →
      Leads t w before → Leads t (w ++ [(before, d)]) c

/-- The hops that are found with some fuel, before those that are known already, are a path to
    the chip with fewer hops than fuel. -/
theorem hopsTo_eq_some_iff (t : ShortestPathTree) (fuel : Nat) (c : ChipCoord)
    (known w : Travel.Path) :
    t.hopsTo fuel c known = some w ↔
      ∃ w', w = w' ++ known ∧ t.Leads w' c ∧ w'.length < fuel := by
  induction fuel generalizing c known with
  | zero => simp [hopsTo]
  | succ fuel ih =>
      rw [hopsTo]
      by_cases hc : c = t.source
      · rw [if_pos hc, Option.some.injEq]
        constructor
        · intro h
          exact ⟨[], by rw [List.nil_append, h], hc ▸ Leads.source, Nat.succ_pos fuel⟩
        · rintro ⟨w', rfl, hlead, -⟩
          cases hlead with
          | source => rw [List.nil_append]
          | hop hne => exact absurd hc hne
      · rw [if_neg hc]
        constructor
        · intro h
          split at h
          · next before d hlabel =>
              obtain ⟨w', rfl, hlead, hlen⟩ := (ih before _).1 h
              exact ⟨w' ++ [(before, d)], by simp, Leads.hop hc hlabel rfl hlead,
                by simpa using hlen⟩
          · exact absurd h (by simp)
        · rintro ⟨w', rfl, hlead, hlen⟩
          cases hlead with
          | source => exact absurd rfl hc
          | @hop w' _ before d label _ hlabel hhop hlead =>
              obtain ⟨distance, hop⟩ := label
              have hhop : hop = some (before, d) := hhop
              subst hhop
              rw [hlabel]
              exact (ih before _).2 ⟨w', by simp, hlead, by simpa using hlen⟩

/-- The path to a chip is the path that its hops lead along, if the chip was reached. -/
theorem pathTo?_eq_some_iff (t : ShortestPathTree) (c : ChipCoord) (w : Travel.Path) :
    t.pathTo? c = some w ↔
      t.labels.contains c = true ∧ t.Leads w c ∧ w.length < t.labels.size := by
  unfold pathTo?
  split
  · next hc => simp [hopsTo_eq_some_iff, hc]
  · next hc => simp [hc]

/-- A path has fewer hops than chips were reached. -/
theorem length_pathTo?_lt {t : ShortestPathTree} {c : ChipCoord} {w : Travel.Path}
    (h : t.pathTo? c = some w) : w.length < t.labels.size :=
  ((pathTo?_eq_some_iff t c w).1 h).2.2

section Compute

variable {f : Fabric} {source : ChipCoord} {kind : RouterKind}

/-- No hop leads to the source. -/
theorem pathTo?_source (f : Fabric) (source : ChipCoord) (kind : RouterKind) :
    (compute f source kind).pathTo? source = some [] := by
  have hreached := (hopsExist_compute f source kind).source_reached
  rw [pathTo?_eq_some_iff]
  refine ⟨hreached, Leads.source, ?_⟩
  rw [List.length_nil, Nat.pos_iff_ne_zero]
  intro hsize
  rw [Std.ExtTreeMap.eq_empty_iff_size_eq_zero.2 hsize] at hreached
  exact absurd hreached (by simp)

/-- The path without hops leads to the source. -/
theorem pathTo?_eq_nil {c : ChipCoord} (h : (compute f source kind).pathTo? c = some []) :
    c = source := by
  obtain ⟨-, hlead, -⟩ := (pathTo?_eq_some_iff _ _ _).1 h
  generalize hnil : ([] : Travel.Path) = w at hlead
  cases hlead with
  | source => rfl
  | hop => exact absurd hnil.symm (by simp)

/-- A path with a last hop is the path to the chip before and an existing link from there. -/
theorem pathTo?_snoc {c before : ChipCoord} {d : Direction} {w : Travel.Path}
    (h : (compute f source kind).pathTo? c = some (w ++ [(before, d)])) :
    (compute f source kind).pathTo? before = some w ∧
      ∃ link, f.link? before d = some link ∧ link.destination = c ∧ f.contains c = true := by
  have hex := hopsExist_compute f source kind
  obtain ⟨-, hlead, hlen⟩ := (pathTo?_eq_some_iff _ _ _).1 h
  -- both ways to lead along a path are compared with the one that ends in this hop
  generalize hw : w ++ [(before, d)] = whole at hlead
  cases hlead with
  | source => exact absurd hw (by simp)
  | @hop w' _ before' d' label hne hlabel hhop hlead =>
      obtain ⟨rfl, hlast⟩ := List.append_inj' hw rfl
      obtain ⟨rfl, rfl⟩ : before = before' ∧ d = d' := by simpa using hlast
      refine ⟨(pathTo?_eq_some_iff _ _ _).2 ⟨?_, hlead, ?_⟩,
        hex.hop_link c label before d hlabel hhop⟩
      · cases hlead with
        | source => exact hex.source_reached
        | hop _ hlabel' _ _ =>
            rw [Std.ExtTreeMap.contains_eq_isSome_getElem?, hlabel', Option.isSome_some]
      · rw [List.length_append] at hlen
        omega

/-- The part of a path up to a chip is the path to this chip, and with the hop from there it is
    the path to the chip at the far end of an existing link. -/
theorem pathTo?_prefix {c before : ChipCoord} {d : Direction} {w rest : Travel.Path}
    (h : (compute f source kind).pathTo? c = some (w ++ (before, d) :: rest)) :
    (compute f source kind).pathTo? before = some w ∧
      ∃ link, f.link? before d = some link ∧ f.contains link.destination = true ∧
        (compute f source kind).pathTo? link.destination = some (w ++ [(before, d)]) := by
  -- the path gives up its last hop, and with it its end, until the hop from `before` is the last
  induction rest using List.reverseRecOn generalizing c with
  | nil =>
      obtain ⟨hbefore, link, hlink, rfl, hcont⟩ := pathTo?_snoc h
      exact ⟨hbefore, link, hlink, hcont, h⟩
  | append_singleton rest hop ih =>
      have hsplit : w ++ (before, d) :: (rest ++ [hop])
          = (w ++ (before, d) :: rest) ++ [(hop.1, hop.2)] := by simp
      rw [hsplit] at h
      exact ih (pathTo?_snoc h).1

end Compute

end ShortestPathTree

/-- A packet that takes every hop of a path enters the chip to which the path leads. -/
theorem Travel.enters_of_path {t : Travel} {source c : ChipCoord} {kind : RouterKind}
    {w : Travel.Path} (hw : (ShortestPathTree.compute t.fabric source kind).pathTo? c = some w)
    (hhops : ∀ hop ∈ w, ∃ e, t.tables.lookup? hop.1 t.packet = some e ∧ hop.2 ∈ e.links) :
    t.Enters source c := by
  induction w using List.reverseRecOn generalizing c with
  | nil =>
      rw [ShortestPathTree.pathTo?_eq_nil hw]
      exact enters_source t source
  | append_singleton w hop ih =>
      obtain ⟨before, d⟩ := hop
      obtain ⟨hbefore, link, hlink, hdest, -⟩ := ShortestPathTree.pathTo?_snoc hw
      have hin := ih hbefore (fun hop hmem => hhops hop (List.mem_append_left _ hmem))
      obtain ⟨e, he, hd⟩ := hhops (before, d) (by simp)
      exact hin.hop (mem_hops_iff.2 ⟨e, he, d, hd, link, hlink, hdest⟩)

end SpikeMesh
