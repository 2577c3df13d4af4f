import SpikeMesh.Proofs.Fallible
import SpikeMesh.Proofs.Routing.Paths
import SpikeMesh.Routing.Compile

set_option autoImplicit false

/-! # Multicast trees as merged paths

The tree of a connection takes exactly the hops of the paths to its targets, delivers to exactly
the locations of its targets, and passes no other chip. -/

namespace SpikeMesh

namespace MulticastTree

/-! ## Merging hops and deliveries -/

/-- A tree consists of some hops and of deliveries to some locations. -/
structure ConsistsOf (t : MulticastTree) (hops : Travel.Path) (ends : List Location) : Prop where
  mem_links : ∀ c d, d ∈ (t.branch c).links ↔ (c, d) ∈ hops
  mem_cores : ∀ c core, core ∈ (t.branch c).cores ↔ (⟨c, core⟩ : Location) ∈ ends
  mem_branches : ∀ c, t.branches.contains c = true ↔
    (∃ d, (c, d) ∈ hops) ∨ ∃ core, (⟨c, core⟩ : Location) ∈ ends

/-- The branch of a passed chip is the one listed for it. -/
theorem branch_of_getElem? {t : MulticastTree} {c : ChipCoord} {b : Branch}
    (h : t.branches[c]? = some b) : t.branch c = b := by
  rw [branch, Std.ExtTreeMap.getD_eq_getD_getElem?, h, Option.getD_some]

theorem branch_addHop (t : MulticastTree) (c c' : ChipCoord) (d : Direction) :
    (t.addHop c d).branch c' = if c = c'
      then { t.branch c with links := (t.branch c).links.insert d } else t.branch c' := by
  rw [addHop, branch, Std.ExtTreeMap.getD_eq_getD_getElem?, getElem?_insert_of_lawful]
  split
  · rfl
  · rw [← Std.ExtTreeMap.getD_eq_getD_getElem?, branch]

theorem branch_deliver (t : MulticastTree) (l : Location) (c' : ChipCoord) :
    (t.deliver l).branch c' = if l.chip = c'
      then { t.branch l.chip with cores := (t.branch l.chip).cores.insert l.core }
      else t.branch c' := by
  rw [deliver, branch, Std.ExtTreeMap.getD_eq_getD_getElem?, getElem?_insert_of_lawful]
  split
  · rfl
  · rw [← Std.ExtTreeMap.getD_eq_getD_getElem?, branch]

theorem consistsOf_empty : empty.ConsistsOf [] [] where
  mem_links := by simp [branch, empty]
  mem_cores := by simp [branch, empty]
  mem_branches := by simp [empty]

variable {t : MulticastTree} {hops : Travel.Path} {ends : List Location}

/-- One more hop. -/
theorem ConsistsOf.addHop (h : t.ConsistsOf hops ends) (c : ChipCoord) (d : Direction) :
    (t.addHop c d).ConsistsOf (hops ++ [(c, d)]) ends where
  mem_links := by
    intro c' d'
    rw [branch_addHop, List.mem_append, List.mem_singleton, Prod.mk.injEq]
    by_cases hc : c = c'
    · subst hc
      rw [if_pos rfl, Std.ExtTreeSet.mem_insert, Std.LawfulEqCmp.compare_eq_iff_eq, h.mem_links]
      constructor
      · rintro (rfl | hd)
        · exact Or.inr ⟨rfl, rfl⟩
        · exact Or.inl hd
      · rintro (hd | ⟨-, rfl⟩)
        · exact Or.inr hd
        · exact Or.inl rfl
    · rw [if_neg hc, h.mem_links]
      exact ⟨Or.inl, fun hor => hor.elim id (fun he => absurd he.1.symm hc)⟩
  mem_cores := by
    intro c' core
    rw [branch_addHop, ← h.mem_cores]
    by_cases hc : c = c'
    · subst hc
      rw [if_pos rfl]
    · rw [if_neg hc]
  mem_branches := by
    intro c'
    rw [MulticastTree.addHop, Std.ExtTreeMap.contains_insert, Bool.or_eq_true, beq_iff_eq,
      Std.LawfulEqCmp.compare_eq_iff_eq, h.mem_branches]
    simp only [List.mem_append, List.mem_singleton, Prod.mk.injEq]
    constructor
    · rintro (rfl | ⟨d', hd'⟩ | hcore)
      · exact Or.inl ⟨d, Or.inr ⟨rfl, rfl⟩⟩
      · exact Or.inl ⟨d', Or.inl hd'⟩
      · exact Or.inr hcore
    · rintro (⟨d', hd' | ⟨rfl, -⟩⟩ | hcore)
      · exact Or.inr (Or.inl ⟨d', hd'⟩)
      · exact Or.inl rfl
      · exact Or.inr (Or.inr hcore)

/-- One more delivery. -/
theorem ConsistsOf.deliver (h : t.ConsistsOf hops ends) (l : Location) :
    (t.deliver l).ConsistsOf hops (ends ++ [l]) where
  mem_links := by
    intro c' d
    rw [branch_deliver, ← h.mem_links]
    by_cases hc : l.chip = c'
    · subst hc
      rw [if_pos rfl]
    · rw [if_neg hc]
  mem_cores := by
    intro c' core
    rw [branch_deliver, List.mem_append, List.mem_singleton]
    by_cases hc : l.chip = c'
    · subst hc
      rw [if_pos rfl, Std.ExtTreeSet.mem_insert, Std.LawfulEqCmp.compare_eq_iff_eq, h.mem_cores]
      constructor
      · rintro (rfl | hcore)
        · exact Or.inr rfl
        · exact Or.inl hcore
      · rintro (hcore | heq)
        · exact Or.inr hcore
        · exact Or.inl (congrArg Location.core heq).symm
    · rw [if_neg hc, h.mem_cores]
      exact ⟨Or.inl, fun hor => hor.elim id
        (fun he => absurd (congrArg Location.chip he).symm hc)⟩
  mem_branches := by
    intro c'
    rw [MulticastTree.deliver, Std.ExtTreeMap.contains_insert, Bool.or_eq_true, beq_iff_eq,
      Std.LawfulEqCmp.compare_eq_iff_eq, h.mem_branches]
    simp only [List.mem_append, List.mem_singleton]
    constructor
    · rintro (rfl | hhop | ⟨core, hcore⟩)
      · exact Or.inr ⟨l.core, Or.inr rfl⟩
      · exact Or.inl hhop
      · exact Or.inr ⟨core, Or.inl hcore⟩
    · rintro (hhop | ⟨core, hcore | heq⟩)
      · exact Or.inr (Or.inl hhop)
      · exact Or.inr (Or.inr ⟨core, hcore⟩)
      · exact Or.inl (congrArg Location.chip heq).symm

/-- One more path with the delivery at its end. -/
theorem ConsistsOf.addPath (h : t.ConsistsOf hops ends) (w : Travel.Path) (l : Location) :
    (t.addPath w l).ConsistsOf (hops ++ w) (ends ++ [l]) := by
  have hfold : ∀ (w : Travel.Path) (t : MulticastTree) (hops : Travel.Path),
      t.ConsistsOf hops ends →
      (w.foldl (fun t h => t.addHop h.1 h.2) t).ConsistsOf (hops ++ w) ends := by
    intro w
    induction w with
    | nil => intro t hops ht; rwa [List.append_nil]
    | cons hop rest ih =>
        intro t hops ht
        have := ih _ _ (ht.addHop hop.1 hop.2)
        rwa [List.append_assoc, List.singleton_append] at this
  exact (hfold w t hops h).deliver l

end MulticastTree

/-! ## The tree of a connection -/

namespace RoutingJob

variable {job : RoutingJob} {paths : ShortestPathTree} {key : RoutingKey}
  {pc : PartitionedConnection} {tree : MulticastTree}

/-- The route to a target: its location, and the path to the chip there. -/
structure RoutesTo (job : RoutingJob) (paths : ShortestPathTree) (target : SliceId)
    (route : Location × Travel.Path) : Prop where
  placed : job.placements.get? target = some route.1
  path : paths.pathTo? route.1.chip = some route.2

/-- One more target adds its path to the tree. -/
theorem addTarget_eq_ok {target : SliceId} {tree' : MulticastTree}
    (h : job.addTarget paths key pc tree target = .ok tree') :
    ∃ l w, job.placements.get? target = some l ∧ paths.pathTo? l.chip = some w ∧
      tree' = tree.addPath w l := by
  unfold addTarget targetOf at h
  cases hl : job.placements.get? target with
  | none => rw [hl] at h; exact absurd h (by simp [bind, Except.bind])
  | some l =>
      rw [hl] at h
      obtain ⟨l', hl', h⟩ := bind_eq_ok_iff.1 h
      obtain rfl : l = l' := by simpa using hl'
      cases hw : paths.pathTo? l.chip with
      | none => rw [hw] at h; exact absurd h (by simp [throw, throwThe, MonadExceptOf.throw])
      | some w =>
          rw [hw] at h
          exact ⟨l, w, rfl, hw, by simpa [pure, Except.pure] using h.symm⟩

/-- The tree of a connection consists of the paths to all its targets. -/
theorem treeOf_eq_ok (h : job.treeOf paths key pc = .ok tree) :
    ∃ routes, List.Forall₂ (job.RoutesTo paths) pc.targets routes ∧
      tree.ConsistsOf (routes.flatMap Prod.snd) (routes.map Prod.fst) := by
  refine foldlM_ok_induction
    (fun done tree => ∃ routes, List.Forall₂ (job.RoutesTo paths) done routes ∧
      tree.ConsistsOf (routes.flatMap Prod.snd) (routes.map Prod.fst)) ?_
    ⟨[], List.Forall₂.nil, MulticastTree.consistsOf_empty⟩ h
  rintro done target tree tree' ⟨routes, hreach, htree⟩ hadd
  obtain ⟨l, w, hl, hw, rfl⟩ := addTarget_eq_ok hadd
  refine ⟨routes ++ [(l, w)], ?_, ?_⟩
  · exact List.rel_append hreach (List.Forall₂.cons ⟨hl, hw⟩ List.Forall₂.nil)
  · simpa using htree.addPath w l

end RoutingJob

end SpikeMesh
