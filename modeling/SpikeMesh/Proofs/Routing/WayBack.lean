import Mathlib.Data.List.Chain
import SpikeMesh.Proofs.Routing.Components

set_option autoImplicit false

/-! # The search for a cycle

Within a component the search for a way back keeps, for each chip that was met, the chip from which
it was met first. Walked backwards these parents lead to the start and pass no chip twice
(`WaySearch.Rooted`), so a hop back to the start closes a walk. If the queue were left empty, no
chip that the start reaches within the component would hop back to it; but in a component of more
than one chip one does, so a way is always found (`wayBack?_ne_none`).

Hence a cycle is found unless there is none (`cycle?_eq_none_iff`), what is found is a closed walk
from its least chip (`cycle?_closes`), and it is the same one whatever function finds the components
(`cycle?_eq`). -/

namespace SpikeMesh

/-- A closed walk along a relation: it comes back to its first chip, and passes no other chip
    twice. -/
structure ClosedWalk (hop : ChipCoord → ChipCoord → Prop) (start : ChipCoord)
    (passed : List ChipCoord) : Prop where
  follows : (start :: (passed ++ [start])).IsChain hop
  nodup : (start :: passed).Nodup

namespace ClosedWalk

variable {hop hop' : ChipCoord → ChipCoord → Prop} {start c : ChipCoord} {passed : List ChipCoord}

theorem imp (h : ClosedWalk hop start passed) (himp : ∀ a b, hop a b → hop' a b) :
    ClosedWalk hop' start passed :=
  ⟨h.follows.imp himp, h.nodup⟩

theorem pairwise (h : ClosedWalk hop start passed) :
    (start :: (passed ++ [start])).Pairwise (Relation.TransGen hop) :=
  List.isChain_iff_pairwise.1 (h.follows.imp fun _ _ => Relation.TransGen.single)

/-- A closed walk is a cycle through its first chip. -/
theorem transGen (h : ClosedWalk hop start passed) : Relation.TransGen hop start start :=
  (List.pairwise_cons.1 h.pairwise).1 start (by simp)

theorem transGen_of_mem (h : ClosedWalk hop start passed) (hc : c ∈ passed) :
    Relation.TransGen hop start c ∧ Relation.TransGen hop c start := by
  obtain ⟨hfrom, hrest⟩ := List.pairwise_cons.1 h.pairwise
  exact ⟨hfrom c (List.mem_append_left _ hc),
    (List.pairwise_append.1 hrest).2.2 c hc start (List.mem_singleton_self start)⟩

end ClosedWalk

namespace HopGraph

variable {g : HopGraph} {members : Std.ExtTreeSet ChipCoord} {start chip next c : ChipCoord}
  {back chips nexts part : List ChipCoord}

/-! ## Parents -/

namespace WaySearch

variable {s s' : WaySearch}

/-- A chip was met: it is the start, or has a parent. -/
def Met (s : WaySearch) (start c : ChipCoord) : Prop := c = start ∨ c ∈ s.parents

/-- From a chip the parents lead back to the start, over some chips and over none twice. -/
structure Leads (s : WaySearch) (start c : ChipCoord) (back : List ChipCoord) : Prop where
  parents : (c :: back).IsChain fun b a => s.parents[b]? = some a
  starts : (c :: back).getLast? = some start
  nodup : (c :: back).Nodup

/-- All chips but the last of a way back have a parent. -/
theorem Leads.exists_split (h : s.Leads start c back) :
    ∃ front, c :: back = front ++ [start] ∧ ∀ b ∈ front, b ∈ s.parents := by
  obtain ⟨front, hfront⟩ := List.getLast?_eq_some_iff.1 h.starts
  refine ⟨front, hfront, fun b hb => ?_⟩
  obtain ⟨i, hi, rfl⟩ := List.getElem_of_mem hb
  have hchain := h.parents
  rw [hfront, List.isChain_iff_getElem] at hchain
  have hparent := hchain i (by rw [List.length_append, List.length_singleton]; omega)
  rw [List.getElem_append_left hi] at hparent
  rw [Std.ExtTreeMap.mem_iff_isSome_getElem?, hparent]
  rfl

theorem Leads.met (h : s.Leads start c back) {b : ChipCoord} (hb : b ∈ c :: back) :
    s.Met start b := by
  obtain ⟨front, hfront, hparents⟩ := h.exists_split
  rw [hfront, List.mem_append, List.mem_singleton] at hb
  exact hb.elim (fun hb => .inr (hparents b hb)) .inl

/-- A way back is no longer than there are chips with a parent. -/
theorem Leads.length_le (h : s.Leads start c back) : back.length ≤ s.parents.size := by
  obtain ⟨front, hfront, hparents⟩ := h.exists_split
  have hnodup : front.Nodup := (List.nodup_append.1 (hfront ▸ h.nodup)).1
  have hsub : front ⊆ s.parents.keys := fun b hb => Std.ExtTreeMap.mem_keys.2 (hparents b hb)
  have hle := hnodup.length_le_of_subset hsub
  have hlength := congrArg List.length hfront
  rw [List.length_cons, List.length_append, List.length_singleton] at hlength
  rw [Std.ExtTreeMap.length_keys] at hle
  omega

/-- Walking the parents backwards gives the way. -/
theorem Leads.before_eq (h : s.Leads start c back) (hstart : start ∉ s.parents) {fuel : Nat}
    (hfuel : back.length ≤ fuel) : s.before fuel c = back := by
  induction fuel generalizing c back with
  | zero => rw [List.length_eq_zero_iff.1 (Nat.le_zero.1 hfuel), before]
  | succ fuel ih =>
      cases back with
      | nil =>
          obtain rfl : c = start := by simpa using h.starts
          rw [before, Std.ExtTreeMap.getElem?_eq_none hstart]
      | cons previous rest =>
          obtain ⟨hparent, hparents⟩ := List.isChain_cons_cons.1 h.parents
          have hrest : s.Leads start previous rest :=
            ⟨hparents, by simpa using h.starts, (List.nodup_cons.1 h.nodup).2⟩
          rw [before, hparent]
          exact congrArg (previous :: ·) (ih hrest (Nat.le_of_succ_le_succ hfuel))

/-- The parents of a search within a component: each is a hop before its chip, and from all chips
    that were met they lead back to the start. -/
structure Rooted (s : WaySearch) (g : HopGraph) (members : Std.ExtTreeSet ChipCoord)
    (start : ChipCoord) : Prop where
  start_notMem : start ∉ s.parents
  hop : ∀ c parent, s.parents[c]? = some parent → c ∈ members ∧ g.Hop parent c
  leads : ∀ c, s.Met start c → ∃ back, s.Leads start c back

theorem rooted_start (g : HopGraph) (members : Std.ExtTreeSet ChipCoord) (start : ChipCoord)
    (queue : List ChipCoord) : Rooted ⟨∅, queue⟩ g members start where
  start_notMem := Std.ExtTreeMap.not_mem_empty
  hop c parent h := absurd h (by simp)
  leads := by
    rintro c (rfl | hc)
    · exact ⟨[], .singleton c, rfl, List.nodup_singleton c⟩
    · exact absurd hc Std.ExtTreeMap.not_mem_empty

theorem Rooted.with_queue (h : s.Rooted g members start) (queue : List ChipCoord) :
    Rooted { s with queue } g members start where
  start_notMem := h.start_notMem
  hop := h.hop
  leads c hc := (h.leads c hc).imp fun _ hback => ⟨hback.parents, hback.starts, hback.nodup⟩

/-- The search after a chip that is new was met from another one. -/
def meet (s : WaySearch) (chip next : ChipCoord) : WaySearch :=
  ⟨s.parents.insert next chip, s.queue ++ [next]⟩

theorem met_meet_iff : (s.meet chip next).Met start c ↔ s.Met start c ∨ c = next := by
  rw [Met, Met, meet, Std.ExtTreeMap.mem_insert, Std.LawfulEqCmp.compare_eq_iff_eq, or_assoc,
    or_comm (a := next = c), eq_comm (a := next)]

/-- The ways that were found stay as they are. -/
theorem Leads.meet (h : s.Leads start c back) (hnew : next ∉ s.parents) :
    (s.meet chip next).Leads start c back where
  parents := by
    refine h.parents.imp fun b a hba => ?_
    have hne : next ≠ b := by
      rintro rfl
      exact hnew (Std.ExtTreeMap.mem_iff_isSome_getElem?.2 (by simp [hba]))
    rw [WaySearch.meet, getElem?_insert_of_lawful, if_neg hne, hba]
  starts := h.starts
  nodup := h.nodup

theorem Rooted.meet (h : s.Rooted g members start) (hchip : s.Met start chip)
    (hnext : next ∈ members) (hnew : ¬ s.Met start next) (hhop : g.Hop chip next) :
    (s.meet chip next).Rooted g members start := by
  obtain ⟨hne, hparents⟩ := not_or.1 hnew
  constructor
  · intro hmem
    rw [WaySearch.meet, Std.ExtTreeMap.mem_insert, Std.LawfulEqCmp.compare_eq_iff_eq] at hmem
    exact hmem.elim hne h.start_notMem
  · intro c parent hparent
    rw [WaySearch.meet, getElem?_insert_of_lawful] at hparent
    split at hparent
    · next heq =>
        rw [← heq, ← Option.some.inj hparent]
        exact ⟨hnext, hhop⟩
    · exact h.hop c parent hparent
  · intro c hc
    rcases met_meet_iff.1 hc with hc | rfl
    · obtain ⟨back, hback⟩ := h.leads c hc
      exact ⟨back, hback.meet hparents⟩
    · obtain ⟨back, hback⟩ := h.leads chip hchip
      refine ⟨chip :: back, ?_, ?_, ?_⟩
      · refine List.isChain_cons_cons.2 ⟨?_, (hback.meet hparents).parents⟩
        rw [WaySearch.meet, getElem?_insert_of_lawful, if_pos rfl]
      · rw [List.getLast?_cons_cons, hback.starts]
      · exact List.nodup_cons.2 ⟨fun hmem => hnew (hback.met hmem), hback.nodup⟩

/-- A hop from a chip that was met back to the start closes a walk. -/
theorem Rooted.wayBack_closes (h : s.Rooted g members start) (hchip : s.Met start chip)
    (hhop : g.Hop chip start) :
    ∃ passed, s.wayBack start chip = start :: (passed ++ [start]) ∧
      ClosedWalk g.Hop start passed := by
  obtain ⟨back, hback⟩ := h.leads chip hchip
  obtain ⟨front, hfront, -⟩ := hback.exists_split
  have hwalk : s.wayBack start chip = start :: (front.reverse ++ [start]) := by
    rw [wayBack, hback.before_eq h.start_notMem hback.length_le, hfront, List.reverse_cons,
      List.reverse_append, List.reverse_singleton, List.cons_append, List.nil_append,
      List.cons_append]
  refine ⟨front.reverse, hwalk, ?_, ?_⟩
  · have hreverse : (start :: (front.reverse ++ [start])).reverse = start :: chip :: back := by
      rw [hfront]
      simp
    rw [← List.isChain_reverse, hreverse]
    refine List.isChain_cons_cons.2 ⟨hhop, hback.parents.imp fun b a hba => ?_⟩
    exact (h.hop b a hba).2
  · have hperm : (start :: front.reverse).Perm (front ++ [start]) :=
      ((List.reverse_perm front).cons start).trans (List.perm_append_singleton start front).symm
    exact hperm.nodup_iff.2 (hfront ▸ hback.nodup)

/-! ## Following the hops of a chip -/

theorem follow_cons (s : WaySearch) (members : Std.ExtTreeSet ChipCoord)
    (start chip next : ChipCoord) (rest : List ChipCoord) :
    follow members start chip (next :: rest) s =
      if next ∈ members ∧ next = start then .error (s.wayBack start chip)
      else if next ∈ members ∧ next ∉ s.parents then
        follow members start chip rest (s.meet chip next)
      else follow members start chip rest s := by
  rw [follow]
  simp only [Bool.not_eq_true', ← Std.ExtTreeSet.mem_iff_contains, ← Bool.not_eq_true,
    ← Std.ExtTreeMap.mem_iff_contains]
  by_cases hmember : next ∈ members
  · simp only [hmember, not_true, if_false, true_and]
    by_cases heq : next = start
    · rw [if_pos heq, if_pos heq]
    · rw [if_neg heq, if_neg heq, ite_not]
      rfl
  · simp only [hmember, not_false_iff, if_true, false_and, if_false]

/-- What ends the search is a closed walk. -/
theorem follow_closes (h : s.Rooted g members start) (hchip : s.Met start chip)
    (hhops : ∀ next ∈ nexts, g.Hop chip next)
    (hfound : follow members start chip nexts s = .error chips) :
    ∃ passed, chips = start :: (passed ++ [start]) ∧ ClosedWalk g.Hop start passed := by
  induction nexts generalizing s with
  | nil => exact absurd hfound (by simp [follow])
  | cons next rest ih =>
      obtain ⟨hhop, hrest⟩ := List.forall_mem_cons.1 hhops
      rw [follow_cons] at hfound
      split at hfound
      · next hback =>
          obtain rfl := Except.error.inj hfound
          exact h.wayBack_closes hchip (hback.2 ▸ hhop)
      · next hopen =>
          split at hfound
          · next hnew =>
              have hunmet : ¬ s.Met start next := fun hmet =>
                hmet.elim (fun heq => hopen ⟨hnew.1, heq⟩) hnew.2
              exact ih (h.meet hchip hnew.1 hunmet hhop) (met_meet_iff.2 (.inl hchip)) hrest hfound
          · exact ih h hchip hrest hfound

/-- If the search goes on, none of the hops led back to the start, and the chips of the component to
    which they lead and that were not met are put in the queue, each once. -/
theorem follow_goes_on (h : s.Rooted g members start) (hchip : s.Met start chip)
    (hstart : start ∈ members) (hhops : ∀ next ∈ nexts, g.Hop chip next)
    (hgoes : follow members start chip nexts s = .ok s') :
    s'.Rooted g members start ∧ start ∉ nexts ∧
      ∃ fresh, s'.queue = s.queue ++ fresh ∧ fresh.Nodup ∧
        (∀ c, c ∈ fresh ↔ (c ∈ nexts ∧ c ∈ members) ∧ ¬ s.Met start c) ∧
        ∀ c, s'.Met start c ↔ s.Met start c ∨ c ∈ fresh := by
  induction nexts generalizing s with
  | nil =>
      obtain rfl := Except.ok.inj hgoes
      exact ⟨h, List.not_mem_nil, [], (List.append_nil _).symm, List.nodup_nil, by simp, by simp⟩
  | cons next rest ih =>
      obtain ⟨hhop, hrest⟩ := List.forall_mem_cons.1 hhops
      rw [follow_cons] at hgoes
      split at hgoes
      · exact absurd hgoes (by simp)
      · next hopen =>
          have hne : start ≠ next := fun heq => hopen ⟨heq ▸ hstart, heq.symm⟩
          split at hgoes
          · next hnew =>
              have hunmet : ¬ s.Met start next := not_or.2 ⟨hne.symm, hnew.2⟩
              obtain ⟨hrooted, hback, fresh, hqueue, hnodup, hfresh, hmet⟩ :=
                ih (h.meet hchip hnew.1 hunmet hhop) (met_meet_iff.2 (.inl hchip)) hrest hgoes
              simp only [met_meet_iff] at hfresh hmet
              refine ⟨hrooted, List.not_mem_cons_of_ne_of_not_mem hne hback, next :: fresh, ?_, ?_,
                fun c => ?_, fun c => ?_⟩
              · rw [hqueue, WaySearch.meet, List.append_assoc, List.singleton_append]
              · exact List.nodup_cons.2 ⟨fun hmem => ((hfresh next).1 hmem).2 (.inr rfl), hnodup⟩
              · rw [List.mem_cons, hfresh c, List.mem_cons]
                grind
              · rw [hmet c, List.mem_cons, or_assoc]
          · next hknown =>
              obtain ⟨hrooted, hback, fresh, hqueue, hnodup, hfresh, hmet⟩ := ih h hchip hrest hgoes
              refine ⟨hrooted, List.not_mem_cons_of_ne_of_not_mem hne hback, fresh, hqueue, hnodup,
                fun c => ?_, hmet⟩
              -- the chip is outside of the component, or was met
              have hpassed : next ∈ members → s.Met start next := fun hmember =>
                .inr (by simpa [hmember] using hknown)
              rw [hfresh c, List.mem_cons]
              grind

/-! ## The whole search -/

end WaySearch

/-- The chips of a component to which hops lead from a chip. -/
def inside (g : HopGraph) (members : Std.ExtTreeSet ChipCoord) (c : ChipCoord) : List ChipCoord :=
  (g.neighbours c).filter members.contains

theorem mem_inside_iff : next ∈ g.inside members c ↔ g.Hop c next ∧ next ∈ members := by
  rw [inside, List.mem_filter, mem_neighbours_iff, Std.ExtTreeSet.mem_iff_contains]

namespace WaySearch

variable {s s' : WaySearch} {done queue : List ChipCoord} {fuel : Nat}

/-- A search within a component has followed the hops of some chips, and none of them led back to
    the start. -/
structure Explored (s : WaySearch) (g : HopGraph) (members : Std.ExtTreeSet ChipCoord)
    (start : ChipCoord) (done : List ChipCoord) : Prop where
  rooted : s.Rooted g members start
  searched : Searched (g.inside members) start done s.queue
  met_iff : ∀ c, c ∈ done ++ s.queue ↔ s.Met start c
  open_at : ∀ c ∈ done, ¬ g.Hop c start

theorem explored_start (g : HopGraph) (members : Std.ExtTreeSet ChipCoord) (start : ChipCoord) :
    Explored ⟨∅, [start]⟩ g members start [] where
  rooted := rooted_start g members start [start]
  searched := .singleton (g.inside members) start
  met_iff c := by simp [Met]
  open_at _ hc := absurd hc List.not_mem_nil

theorem Explored.met_head (h : s.Explored g members start done) (hqueue : s.queue = chip :: queue) :
    s.Met start chip :=
  (h.met_iff chip).1 (by simp [hqueue])

theorem Explored.follow (h : s.Explored g members start done) (hstart : start ∈ members)
    (hqueue : s.queue = chip :: queue)
    (hgoes : follow members start chip (g.neighbours chip) { s with queue } = .ok s') :
    s'.Explored g members start (done ++ [chip]) := by
  obtain ⟨hrooted, hback, fresh, hqueue', hnodup, hfresh, hmet⟩ :=
    follow_goes_on (h.rooted.with_queue queue) (h.met_head hqueue) hstart
      (fun _ hnext => mem_neighbours_iff.1 hnext) hgoes
  have hsearched := h.searched
  have hmet_iff := h.met_iff
  rw [hqueue] at hsearched hmet_iff
  refine ⟨hrooted, ?_, fun c => ?_, fun c hc => ?_⟩
  · rw [hqueue']
    refine hsearched.step hnodup fun c => ?_
    rw [hfresh c, hmet_iff c, mem_inside_iff, mem_neighbours_iff]
    rfl
  · rw [hqueue', append_taken, List.mem_append, hmet_iff c, hmet c]
    rfl
  · rcases List.mem_append.1 hc with hc | hc
    · exact h.open_at c hc
    · rw [List.mem_singleton.1 hc, ← mem_neighbours_iff]
      exact hback

/-- What is found is a closed walk. -/
theorem Explored.run_closes (h : s.Explored g members start done) (hstart : start ∈ members)
    (hfound : run g members start fuel s = some chips) :
    ∃ passed, chips = start :: (passed ++ [start]) ∧ ClosedWalk g.Hop start passed := by
  induction fuel generalizing s done with
  | zero => exact absurd hfound (by simp [run])
  | succ fuel ih =>
      rw [run] at hfound
      split at hfound
      · exact absurd hfound (by simp)
      · next chip queue hqueue =>
          split at hfound
          · next found hfollow =>
              obtain rfl := Option.some.inj hfound
              exact follow_closes (h.rooted.with_queue queue) (h.met_head hqueue)
                (fun _ hnext => mem_neighbours_iff.1 hnext) hfollow
          · next hfollow => exact ih (h.follow hstart hqueue hfollow) hfound

/-- If nothing is found, then no chip that is reached within the component hops back. -/
theorem Explored.not_hop_of_run_eq_none (h : s.Explored g members start done)
    (hstart : start ∈ members) (hfuel : members.size ≤ done.length + fuel)
    (hnone : run g members start fuel s = none)
    (hc : Relation.ReflTransGen (fun a b => b ∈ g.inside members a) start c) : ¬ g.Hop c start := by
  induction fuel generalizing s done with
  | zero =>
      have hmembers : ∀ a, Relation.ReflTransGen (fun a b => b ∈ g.inside members a) start a →
          a ∈ members.toList := by
        intro a ha
        rw [Std.ExtTreeSet.mem_toList]
        rcases ha.cases_tail with rfl | ⟨_, -, hstep⟩
        · exact hstart
        · exact (mem_inside_iff.1 hstep).2
      have hsearched := h.searched
      rw [hsearched.queue_eq_nil members.toList hmembers
        (by rw [Std.ExtTreeSet.length_toList]; exact hfuel)] at hsearched
      exact h.open_at c (hsearched.mem_done_iff.2 hc)
  | succ fuel ih =>
      rw [run] at hnone
      split at hnone
      · next hqueue =>
          have hsearched := h.searched
          rw [hqueue] at hsearched
          exact h.open_at c (hsearched.mem_done_iff.2 hc)
      · next chip queue hqueue =>
          split at hnone
          · exact absurd hnone (by simp)
          · next hfollow =>
              refine ih (h.follow hstart hqueue hfollow) ?_ hnone
              rw [List.length_append, List.length_singleton]
              omega

end WaySearch

theorem wayBack?_closes (hstart : start ∈ members) (h : g.wayBack? members start = some chips) :
    ∃ passed, chips = start :: (passed ++ [start]) ∧ ClosedWalk g.Hop start passed :=
  (WaySearch.explored_start g members start).run_closes hstart h

/-! ## The cycle -/

section Members

variable (hmembers : ∀ c, c ∈ members ↔ g.Mutual start c)

include hmembers

/-- A way between chips of a component stays within it. -/
theorem reached_inside (hto : Relation.ReflTransGen g.Hop start c)
    (hback : Relation.ReflTransGen g.Hop c start) :
    Relation.ReflTransGen (fun a b => b ∈ g.inside members a) start c := by
  induction hto with
  | refl => exact .refl
  | tail hto hhop ih =>
      refine (ih (hback.head hhop)).tail (mem_inside_iff.2 ⟨hhop, ?_⟩)
      exact (hmembers _).2 ⟨hto.tail hhop, hback⟩

/-- The search within a component of more than one chip does not end without a way back. -/
theorem wayBack?_ne_none (hcircles : g.Circles start) : g.wayBack? members start ≠ none := by
  intro hnone
  obtain ⟨c, hc, hhop⟩ := Relation.TransGen.tail'_iff.1 hcircles.transGen
  exact (WaySearch.explored_start g members start).not_hop_of_run_eq_none
    ((hmembers start).2 (.refl g start)) (by simp) hnone
    (reached_inside hmembers hc (.single hhop)) hhop

end Members

variable {components components' : HopGraph → List (List ChipCoord)}

theorem cycle?_of_hop (hself : g.chips.find? (fun c => g.hops.contains (c, c)) = some c) :
    g.cycle? components = some [c, c] := by
  rw [cycle?, hself]

theorem cycle?_of_no_hop (hself : g.chips.find? (fun c => g.hops.contains (c, c)) = none) :
    g.cycle? components = (g.circling? components).bind fun part =>
      (least? part).bind (g.wayBack? (.ofList part)) := by
  rw [cycle?, hself]
  rfl

theorem not_hop_of_find? (hself : g.chips.find? (fun c => g.hops.contains (c, c)) = none) :
    ¬ g.Hop c c := fun hhop =>
  List.find?_eq_none.1 hself c (g.ends_mem _ hhop).1 (List.contains_iff_mem.2 hhop)

theorem LeastCircling.mem_ofList_iff (h : g.LeastCircling part start) (c : ChipCoord) :
    c ∈ Std.ExtTreeSet.ofList part ↔ g.Mutual start c := by
  rw [Std.ExtTreeSet.mem_ofList, List.contains_iff_mem, h.mem_iff c]

/-- There is only one such component, but for the order of its chips. -/
theorem LeastCircling.unique {other : List ChipCoord} {start' : ChipCoord}
    (h : g.LeastCircling part start) (h' : g.LeastCircling other start') :
    start = start' ∧ Std.ExtTreeSet.ofList part = Std.ExtTreeSet.ofList other := by
  obtain rfl : start = start' := by
    have hle := h.le_of_circles start' h'.circles
    have hge := h'.le_of_circles start h.circles
    exact Std.LawfulEqCmp.eq_of_compare (Std.OrientedCmp.isLE_antisymm hle hge)
  refine ⟨rfl, Std.ExtTreeSet.ext_mem fun c => ?_⟩
  rw [h.mem_ofList_iff, h'.mem_ofList_iff]

/-- A cycle is found unless there is none. -/
theorem cycle?_eq_none_iff (hfinds : FindsComponents components) :
    g.cycle? components = none ↔ ∀ c, ¬ Relation.TransGen g.Hop c c := by
  cases hself : g.chips.find? (fun c => g.hops.contains (c, c)) with
  | some c =>
      have hhop : g.Hop c c := by simpa [Hop] using List.find?_some hself
      rw [cycle?_of_hop hself]
      exact iff_of_false (by simp) fun hnone => hnone c (.single hhop)
  | none =>
      simp only [← circles_iff (not_hop_of_find? hself), ← hfinds.circling?_eq_none_iff]
      rw [cycle?_of_no_hop hself]
      cases hpart : g.circling? components with
      | none => exact iff_of_true rfl rfl
      | some part =>
          obtain ⟨start, hleast⟩ := hfinds.leastCircling hpart
          rw [Option.bind_some, hleast.least, Option.bind_some]
          exact iff_of_false (wayBack?_ne_none hleast.mem_ofList_iff hleast.circles) (by simp)

/-- What is found is a cycle, which begins at its least chip. -/
theorem cycle?_closes (hfinds : FindsComponents components)
    (h : g.cycle? components = some chips) :
    ∃ start passed, chips = start :: (passed ++ [start]) ∧ ClosedWalk g.Hop start passed ∧
      ∀ c ∈ passed, compare start c = .lt := by
  cases hself : g.chips.find? (fun c => g.hops.contains (c, c)) with
  | some c =>
      have hhop : g.Hop c c := by simpa [Hop] using List.find?_some hself
      rw [cycle?_of_hop hself] at h
      exact ⟨c, [], (Option.some.inj h).symm,
        ⟨List.isChain_pair.2 hhop, List.nodup_singleton c⟩, by simp⟩
  | none =>
      rw [cycle?_of_no_hop hself] at h
      obtain ⟨part, hpart, h⟩ := Option.bind_eq_some_iff.1 h
      obtain ⟨start, hleast⟩ := hfinds.leastCircling hpart
      rw [hleast.least, Option.bind_some] at h
      obtain ⟨passed, hchips, hclosed⟩ :=
        wayBack?_closes ((hleast.mem_ofList_iff start).2 (.refl g start)) h
      refine ⟨start, passed, hchips, hclosed, fun c hc => ?_⟩
      have hne : start ≠ c := by
        rintro rfl
        exact (List.nodup_cons.1 hclosed.nodup).1 hc
      obtain ⟨hto, hback⟩ := hclosed.transGen_of_mem hc
      have hle := hleast.le_of_circles c ⟨start, hne, hback.to_reflTransGen, hto.to_reflTransGen⟩
      cases hcompare : compare start c with
      | lt => rfl
      | eq => exact absurd (Std.LawfulEqCmp.eq_of_compare hcompare) hne
      | gt => exact absurd hle (by simp [hcompare])

/-- What is found does not depend on the function that finds the components. -/
theorem cycle?_eq (h : FindsComponents components) (h' : FindsComponents components') :
    g.cycle? components = g.cycle? components' := by
  cases hself : g.chips.find? (fun c => g.hops.contains (c, c)) with
  | some c => rw [cycle?_of_hop hself, cycle?_of_hop hself]
  | none =>
      rw [cycle?_of_no_hop hself, cycle?_of_no_hop hself]
      cases hpart : g.circling? components with
      | none => rw [h'.circling?_eq_none_iff.2 (h.circling?_eq_none_iff.1 hpart)]
      | some part =>
          cases hother : g.circling? components' with
          | none =>
              have hnone := h.circling?_eq_none_iff.2 (h'.circling?_eq_none_iff.1 hother)
              exact absurd (hpart.symm.trans hnone) (by simp)
          | some other =>
              obtain ⟨start, hleast⟩ := h.leastCircling hpart
              obtain ⟨start', hleast'⟩ := h'.leastCircling hother
              obtain ⟨rfl, hmembers⟩ := hleast.unique hleast'
              simp only [Option.bind_some, hleast.least, hleast'.least, hmembers]

end HopGraph

end SpikeMesh
