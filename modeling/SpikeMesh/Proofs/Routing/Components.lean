import Mathlib.Data.List.Nodup
import Mathlib.Logic.Relation
import SpikeMesh.Proofs.Collections
import SpikeMesh.Routing.HopGraph

set_option autoImplicit false

/-! # Searches with a queue, and components

A search with a queue takes items from the front of the queue and puts those that are new, of the
items to which they lead, at its end. What was taken and what waits are always all that was met
(`Searched`), so when the queue is empty everything that can be reached was taken.

This is used three times: for the chips that a packet visits, for the way back to a chip, and here
for the chips that can be reached over hops. What is computed from these is what the search for a
cycle relies on (`HopGraph.FindsComponents`). Whatever function finds the components, the one that
is searched is that of the least chip which shares its component (`HopGraph.LeastCircling`). -/

namespace SpikeMesh

/-! ## Queues -/

section Queue

variable {α σ : Type}

/-- What was taken and what waits, after the first item of the queue was taken. -/
theorem append_taken (done queue fresh : List α) (a : α) :
    (done ++ [a]) ++ (queue ++ fresh) = (done ++ a :: queue) ++ fresh := by
  simp

/-- Steps that take the first item of the queue, as long as there is one. What each of them
    preserves, of the items that were taken and the state, holds after any number of them; and then
    the queue is empty, or as many items were taken. -/
theorem exists_taken_repeat (step : σ → σ) (queue : σ → List α) (Taken : List α → σ → Prop)
    (hidle : ∀ s, queue s = [] → step s = s)
    (hstep : ∀ done s a rest, Taken done s → queue s = a :: rest → Taken (done ++ [a]) (step s))
    {start : σ} (hstart : Taken [] start) (n : Nat) :
    ∃ done, Taken done (Nat.repeat step n start) ∧
      (queue (Nat.repeat step n start) = [] ∨ done.length = n) := by
  induction n with
  | zero => exact ⟨[], hstart, .inr rfl⟩
  | succ n ih =>
      rw [Nat.repeat]
      obtain ⟨done, htaken, hdone⟩ := ih
      cases hqueue : queue (Nat.repeat step n start) with
      | nil =>
          rw [hidle _ hqueue]
          exact ⟨done, htaken, .inl hqueue⟩
      | cons a rest =>
          have hdone := hdone.resolve_left (by simp [hqueue])
          refine ⟨done ++ [a], hstep done _ a rest htaken hqueue, .inr ?_⟩
          rw [List.length_append, List.length_singleton, hdone]

end Queue

/-! ## Searches -/

/-- A search has taken some items from its queue, and others wait there. -/
structure Searched {α : Type} (next : α → List α) (start : α) (done queue : List α) : Prop where
  nodup : (done ++ queue).Nodup
  start_mem : start ∈ done ++ queue
  reached : ∀ a ∈ done ++ queue, Relation.ReflTransGen (fun a b => b ∈ next a) start a
  closed : ∀ a ∈ done, next a ⊆ done ++ queue

namespace Searched

variable {α : Type} {next : α → List α} {start a : α} {done queue fresh : List α}

theorem singleton (next : α → List α) (start : α) : Searched next start [] [start] where
  nodup := List.nodup_singleton start
  start_mem := List.mem_singleton_self start
  reached _ ha := List.mem_singleton.1 ha ▸ .refl
  closed _ ha := absurd ha List.not_mem_nil

/-- The first item of the queue is taken. -/
theorem step (h : Searched next start done (a :: queue)) (hnodup : fresh.Nodup)
    (hfresh : ∀ b, b ∈ fresh ↔ b ∈ next a ∧ b ∉ done ++ a :: queue) :
    Searched next start (done ++ [a]) (queue ++ fresh) := by
  constructor
  · rw [append_taken]
    exact h.nodup.append hnodup fun b hb hmem => ((hfresh b).1 hmem).2 hb
  · rw [append_taken]
    exact List.mem_append_left _ h.start_mem
  · rw [append_taken]
    intro b hb
    rcases List.mem_append.1 hb with hb | hb
    · exact h.reached b hb
    · exact (h.reached a (by simp)).tail ((hfresh b).1 hb).1
  · rw [append_taken]
    intro b hb c hc
    rcases List.mem_append.1 hb with hb | hb
    · exact List.mem_append_left _ (h.closed b hb hc)
    · obtain rfl := List.mem_singleton.1 hb
      by_cases hmet : c ∈ done ++ b :: queue
      · exact List.mem_append_left _ hmet
      · exact List.mem_append_right _ ((hfresh c).2 ⟨hc, hmet⟩)

/-- With an empty queue, all that can be reached was taken. -/
theorem mem_done_iff (h : Searched next start done []) :
    a ∈ done ↔ Relation.ReflTransGen (fun a b => b ∈ next a) start a := by
  obtain ⟨-, hstart, hreached, hclosed⟩ := h
  rw [List.append_nil] at hstart hreached hclosed
  refine ⟨hreached a, fun ha => ?_⟩
  clear hreached
  induction ha with
  | refl => exact hstart
  | tail _ hstep ih => exact hclosed _ ih hstep

/-- When as many items were taken as can be met, none is left in the queue. -/
theorem queue_eq_nil (h : Searched next start done queue) (all : List α)
    (hall : ∀ a, Relation.ReflTransGen (fun a b => b ∈ next a) start a → a ∈ all)
    (hlength : all.length ≤ done.length) : queue = [] := by
  have hle := h.nodup.length_le_of_subset fun a ha => hall a (h.reached a ha)
  rw [List.length_append] at hle
  exact List.length_eq_zero_iff.1 (by omega)

end Searched

namespace HopGraph

variable {g : HopGraph} {a b c start : ChipCoord} {part : List ChipCoord}

/-! ## Hops -/

/-- A hop leads from a chip to another one. -/
def Hop (g : HopGraph) (a b : ChipCoord) : Prop := (a, b) ∈ g.hops

theorem mem_neighbours_iff : b ∈ g.neighbours a ↔ g.Hop a b := by
  simp [neighbours, Hop]

theorem nodup_neighbours (g : HopGraph) (a : ChipCoord) : (g.neighbours a).Nodup := by
  refine List.Nodup.map_on ?_ (g.nodup_hops.filter _)
  intro x hx y hy heq
  rw [List.mem_filter, decide_eq_true_eq] at hx hy
  exact Prod.ext (hx.2.trans hy.2.symm) heq

theorem hop_eq (g : HopGraph) : (fun a b => b ∈ g.neighbours a) = g.Hop := by
  funext a b
  exact propext mem_neighbours_iff

/-- What can be reached from a chip of the graph is in it. -/
theorem mem_chips_of_reached (hc : c ∈ g.chips) (h : Relation.ReflTransGen g.Hop c a) :
    a ∈ g.chips := by
  induction h with
  | refl => exact hc
  | tail _ hhop _ => exact (g.ends_mem _ hhop).2

/-! ## What is reached -/

/-- A search for what can be reached from a chip has followed the hops of some chips. -/
structure Reaching.Follows (g : HopGraph) (c : ChipCoord) (done : List ChipCoord) (s : Reaching) :
    Prop where
  done_eq : s.done = done
  searched : Searched g.neighbours c done s.queue

theorem Reaching.Follows.step {s : Reaching} {done queue : List ChipCoord} {first : ChipCoord}
    (h : Follows g c done s) (hqueue : s.queue = first :: queue) :
    Follows g c (done ++ [first]) (s.step g) := by
  obtain ⟨rfl, hsearched⟩ := h
  rw [hqueue] at hsearched
  rw [Reaching.step, hqueue]
  refine ⟨rfl, hsearched.step ((g.nodup_neighbours first).filter _) fun b => ?_⟩
  simp [List.mem_filter]

theorem searched_reaching (g : HopGraph) (c : ChipCoord) (n : Nat) :
    let s := Nat.repeat (Reaching.step g) n ⟨[], [c]⟩
    Searched g.neighbours c s.done s.queue ∧ (s.queue = [] ∨ s.done.length = n) := by
  have hidle : ∀ s : Reaching, s.queue = [] → s.step g = s := by
    intro s hqueue
    rw [Reaching.step, hqueue]
  have hstart : Reaching.Follows g c [] ⟨[], [c]⟩ := ⟨rfl, .singleton g.neighbours c⟩
  obtain ⟨_, ⟨rfl, hsearched⟩, hend⟩ :=
    exists_taken_repeat (Reaching.step g) Reaching.queue (Reaching.Follows g c) hidle
      (fun _ _ _ _ h => h.step) hstart n
  exact ⟨hsearched, hend⟩

/-- The chips that are reached from a chip are those to which hops lead. -/
theorem mem_reach_iff (hc : c ∈ g.chips) :
    a ∈ g.reach c ↔ Relation.ReflTransGen g.Hop c a := by
  obtain ⟨hsearched, hdone⟩ := searched_reaching g c g.chips.length
  rw [← hop_eq]
  rcases hdone with hqueue | hdone
  · rw [hqueue] at hsearched
    exact hsearched.mem_done_iff
  · have hqueue := hsearched.queue_eq_nil g.chips
      (fun a ha => mem_chips_of_reached hc (g.hop_eq ▸ ha)) (Nat.le_of_eq hdone.symm)
    rw [hqueue] at hsearched
    exact hsearched.mem_done_iff

/-! ## Strongly connected components -/

/-- Two chips can be reached from one another. -/
def Mutual (g : HopGraph) (a b : ChipCoord) : Prop :=
  Relation.ReflTransGen g.Hop a b ∧ Relation.ReflTransGen g.Hop b a

namespace Mutual

theorem refl (g : HopGraph) (a : ChipCoord) : g.Mutual a a := ⟨.refl, .refl⟩

theorem symm (h : g.Mutual a b) : g.Mutual b a := ⟨h.2, h.1⟩

theorem trans (h : g.Mutual a b) (h' : g.Mutual b c) : g.Mutual a c :=
  ⟨h.1.trans h'.1, h'.2.trans h.2⟩

theorem mem_chips (h : g.Mutual a b) (ha : a ∈ g.chips) : b ∈ g.chips :=
  mem_chips_of_reached ha h.1

end Mutual

/-- What is documented of a function that finds the strongly connected components of a graph. They
    are made up of its chips, each of which is in one of them, and the chips of a component are
    those that can be reached from one another. Nothing is said of the order of the components, nor
    of the order in which one lists its chips. -/
structure FindsComponents (components : HopGraph → List (List ChipCoord)) : Prop where
  perm : ∀ g, (components g).flatten.Perm g.chips
  mem_iff : ∀ g, ∀ part ∈ components g, ∀ a ∈ part, ∀ b, b ∈ part ↔ g.Mutual a b

theorem contains_reach_iff (ha : a ∈ g.chips) (hb : b ∈ g.chips) :
    ((g.reach a).contains b && (g.reach b).contains a) = true ↔ g.Mutual a b := by
  simp only [Bool.and_eq_true, List.contains_iff_mem, mem_reach_iff ha, mem_reach_iff hb, Mutual]

/-- The chips of the component of a chip. -/
def componentOf (g : HopGraph) (a : ChipCoord) : List ChipCoord :=
  g.chips.filter fun b => (g.reach a).contains b && (g.reach b).contains a

theorem mem_componentOf_iff (ha : a ∈ g.chips) : b ∈ g.componentOf a ↔ g.Mutual a b := by
  rw [componentOf, List.mem_filter]
  exact ⟨fun ⟨hb, h⟩ => (contains_reach_iff ha hb).1 h,
    fun h => ⟨h.mem_chips ha, (contains_reach_iff ha (h.mem_chips ha)).2 h⟩⟩

theorem componentOf_eq (ha : a ∈ g.chips) (h : g.Mutual a b) :
    g.componentOf a = g.componentOf b := by
  refine List.filter_congr fun c hc => Bool.eq_iff_iff.2 ?_
  rw [contains_reach_iff ha hc, contains_reach_iff (h.mem_chips ha) hc]
  exact ⟨h.symm.trans, h.trans⟩

theorem components_eq (g : HopGraph) :
    g.components = (g.chips.map g.componentOf).eraseDups := by
  simp only [components, List.map_map, List.filter_map, Function.comp_def, List.map_id']
  rfl

theorem mem_components_iff :
    part ∈ g.components ↔ ∃ a ∈ g.chips, g.componentOf a = part := by
  rw [components_eq, List.mem_eraseDups, List.mem_map]

/-- The components that are computed are the strongly connected components. -/
theorem findsComponents : FindsComponents components where
  perm := by
    intro g
    refine (List.perm_ext_iff_of_nodup ?_ g.nodup_chips).2 ?_
    · -- two components that share a chip are one
      rw [List.nodup_flatten]
      constructor
      · intro part hpart
        obtain ⟨a, -, rfl⟩ := mem_components_iff.1 hpart
        exact g.nodup_chips.filter _
      · have hnodup : g.components.Nodup := components_eq g ▸ nodup_eraseDups _
        refine hnodup.imp_of_mem ?_
        intro p q hp hq hne c hcp hcq
        obtain ⟨a, ha, rfl⟩ := mem_components_iff.1 hp
        obtain ⟨b, hb, rfl⟩ := mem_components_iff.1 hq
        have hac := (mem_componentOf_iff ha).1 hcp
        have hbc := (mem_componentOf_iff hb).1 hcq
        exact hne (componentOf_eq ha (hac.trans hbc.symm))
    · intro c
      rw [List.mem_flatten]
      constructor
      · rintro ⟨part, hpart, hc⟩
        obtain ⟨a, -, rfl⟩ := mem_components_iff.1 hpart
        exact List.mem_of_mem_filter hc
      · intro hc
        exact ⟨g.componentOf c, mem_components_iff.2 ⟨c, hc, rfl⟩,
          (mem_componentOf_iff hc).2 (.refl g c)⟩
  mem_iff := by
    intro g part hpart a ha b
    obtain ⟨c, hc, rfl⟩ := mem_components_iff.1 hpart
    have hca := (mem_componentOf_iff hc).1 ha
    rw [mem_componentOf_iff hc]
    exact ⟨fun hcb => hca.symm.trans hcb, fun hab => hca.trans hab⟩

/-! ## The component of the least chip -/

theorem least?_eq_some_iff : least? part = some c ↔
    c ∈ part ∧ ∀ b ∈ part, (compare c b).isLE = true := by
  rw [least?, ← Std.ExtTreeSet.min?_eq_head?_toList]
  simp only [Std.ExtTreeSet.min?_eq_some_iff_mem_and_forall, Std.ExtTreeSet.mem_ofList,
    List.contains_iff_mem]

/-- The component of a chip holds another chip. -/
def Circles (g : HopGraph) (c : ChipCoord) : Prop := ∃ b, b ≠ c ∧ g.Mutual c b

/-- A chip that shares its component lies on a cycle. -/
theorem Circles.transGen (h : g.Circles c) : Relation.TransGen g.Hop c c := by
  obtain ⟨b, hne, hto, hback⟩ := h
  rcases Relation.reflTransGen_iff_eq_or_transGen.1 hto with heq | hto
  · exact absurd heq hne
  · exact hto.trans_left hback

/-- A chip that lies on a cycle and does not hop to itself shares its component. -/
theorem circles_iff (hc : ¬ g.Hop c c) : g.Circles c ↔ Relation.TransGen g.Hop c c := by
  refine ⟨Circles.transGen, fun hcycle => ?_⟩
  obtain ⟨b, hhop, hback⟩ := Relation.TransGen.head'_iff.1 hcycle
  exact ⟨b, fun heq => hc (heq ▸ hhop), .single hhop, hback⟩

theorem mem_chips_of_circles (h : g.Circles c) : c ∈ g.chips := by
  obtain ⟨b, hne, hto, -⟩ := h
  rcases hto.cases_head with heq | ⟨_, hhop, -⟩
  · exact absurd heq.symm hne
  · exact (g.ends_mem _ hhop).1

/-- The component that is searched for a way back: that of the least chip whose component holds
    another one. -/
structure LeastCircling (g : HopGraph) (part : List ChipCoord) (start : ChipCoord) : Prop where
  least : least? part = some start
  mem_iff : ∀ c, c ∈ part ↔ g.Mutual start c
  circles : g.Circles start
  le_of_circles : ∀ c, g.Circles c → (compare start c).isLE = true

namespace FindsComponents

variable {components : HopGraph → List (List ChipCoord)}

theorem exists_part (h : FindsComponents components) (hc : c ∈ g.chips) :
    ∃ part ∈ components g, c ∈ part :=
  List.mem_flatten.1 ((h.perm g).mem_iff.2 hc)

/-- A component has more than one chip if and only if it has another chip than a given one. -/
theorem one_lt_length_iff (h : FindsComponents components) (hpart : part ∈ components g)
    (hc : c ∈ part) : 1 < part.length ↔ g.Circles c := by
  have hnodup : part.Nodup :=
    (List.nodup_flatten.1 ((h.perm g).nodup_iff.2 g.nodup_chips)).1 part hpart
  constructor
  · intro hlength
    by_contra hnone
    have hsub : part ⊆ [c] := by
      intro b hb
      by_contra hne
      exact hnone ⟨b, fun heq => hne (List.mem_singleton.2 heq),
        (h.mem_iff g part hpart c hc b).1 hb⟩
    have hle := hnodup.length_le_of_subset hsub
    rw [List.length_singleton] at hle
    omega
  · rintro ⟨b, hne, hmutual⟩
    have hb := (h.mem_iff g part hpart c hc b).2 hmutual
    have hpair : [b, c].Nodup := by simp [hne]
    exact hpair.length_le_of_subset (List.cons_subset.2 ⟨hb, List.cons_subset.2 ⟨hc, by simp⟩⟩)

theorem circling?_eq_none_iff (h : FindsComponents components) :
    g.circling? components = none ↔ ∀ c, ¬ g.Circles c := by
  rw [circling?, firstLeast?_eq_none_iff, List.filter_eq_nil_iff]
  constructor
  · intro hsmall c hc
    obtain ⟨part, hpart, hmem⟩ := h.exists_part (mem_chips_of_circles hc)
    exact hsmall part hpart (by simpa using (h.one_lt_length_iff hpart hmem).2 hc)
  · intro hnone part hpart hlarge
    rw [decide_eq_true_eq] at hlarge
    obtain ⟨c, hc⟩ := List.exists_mem_of_length_pos (Nat.lt_trans Nat.zero_lt_one hlarge)
    exact hnone c ((h.one_lt_length_iff hpart hc).1 hlarge)

theorem leastCircling (h : FindsComponents components)
    (hpart : g.circling? components = some part) : ∃ start, g.LeastCircling part start := by
  obtain ⟨hmem, hleast⟩ := firstLeast?_eq_some hpart
  obtain ⟨hpart, hlarge⟩ := List.mem_filter.1 hmem
  have hexists : ∀ (part : List ChipCoord), ∀ c ∈ part, ∃ start, least? part = some start := by
    intro part c hc
    refine Option.ne_none_iff_exists'.1 fun hnone => ?_
    rw [least?, ← Std.ExtTreeSet.min?_eq_head?_toList, Std.ExtTreeSet.min?_eq_none_iff] at hnone
    have hnot : c ∉ Std.ExtTreeSet.ofList part := hnone ▸ Std.ExtTreeSet.not_mem_empty
    exact hnot (by simpa using hc)
  rw [decide_eq_true_eq] at hlarge
  obtain ⟨first, hfirst⟩ := List.exists_mem_of_length_pos (Nat.lt_trans Nat.zero_lt_one hlarge)
  obtain ⟨start, hstart⟩ := hexists part first hfirst
  obtain ⟨hin, -⟩ := least?_eq_some_iff.1 hstart
  refine ⟨start, hstart, h.mem_iff g part hpart start hin,
    (h.one_lt_length_iff hpart hin).1 hlarge, fun c hc => ?_⟩
  -- the chip is in another such component, the least chip of which is no less
  obtain ⟨other, hother, hcother⟩ := h.exists_part (mem_chips_of_circles hc)
  obtain ⟨least, hleast'⟩ := hexists other c hcother
  have hle := hleast other
    (List.mem_filter.2 ⟨hother, by simpa using (h.one_lt_length_iff hother hcother).2 hc⟩)
  rw [hstart, hleast'] at hle
  exact Std.TransCmp.isLE_trans hle ((least?_eq_some_iff.1 hleast').2 c hcother)

end FindsComponents

end HopGraph

end SpikeMesh
