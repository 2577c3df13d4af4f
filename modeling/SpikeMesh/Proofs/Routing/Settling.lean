import SpikeMesh.Proofs.Routing.Paths

set_option autoImplicit false

/-! # Settling chips

The search for cheapest paths settles one chip after the other, and never touches a settled chip
again: links cost something, the cheapest entry of the queue is taken first, and so a way over a
chip that is settled now is no cheaper than what any settled chip has (`PathSearch.Ordered`).
Entries that are out of date are taken from the queue and nothing else happens. A chip is settled
once, and what is put in the queue then is paid for by its links, which are not followed again:
with every step the queue and the links that are left get fewer together (`PathSearch.potential`).
Hence there are no more steps than the search is given, and it ends with an empty queue. -/

namespace SpikeMesh

theorem RouterKind.one_le_linkCost (kind : RouterKind) (link : Link) : 1 ≤ kind.linkCost link := by
  cases kind with
  | shortestPath => exact Nat.le_refl 1
  | linkSpeed => exact Nat.le_max_left ..

theorem Waiting.cost_le_of_isLE {e e' : Waiting} (h : (compare e e').isLE = true) :
    e.cost ≤ e'.cost := by
  have hlex : compare e e' = (compare e.cost e'.cost).then (compare e.chip e'.chip) := rfl
  by_contra hlt
  have hgt : compare e.cost e'.cost = .gt := Nat.compare_eq_gt.2 (Nat.not_le.1 hlt)
  rw [hlex, hgt] at h
  exact absurd h (by simp)

namespace PathSearch

variable {f : Fabric} {kind : RouterKind} {source c c' before : ChipCoord} {s : PathSearch}
  {e e' : Waiting} {distance distance' : Nat} {d : Direction} {link : Link} {label : PathLabel}
  {pending : ChipCoord → Direction → Prop}

/-! ## What a search keeps up -/

/-- The way to a chip is final: the chip is reached, and its links do not wait to be followed from
    this way. -/
def Settled (s : PathSearch) (c : ChipCoord) (distance : Nat) : Prop :=
  s.distance? c = some distance ∧ ⟨distance, c⟩ ∉ s.queue

/-- The search of which the cheapest entries of the queue were taken first. The links of settled
    chips were followed, apart from those that are pending. -/
structure Ordered (s : PathSearch) (f : Fabric) (kind : RouterKind) (source : ChipCoord)
    (pending : ChipCoord → Direction → Prop) : Prop where
  source_eq : s.labels[source]? = some ⟨0, none⟩
  queue_reached : ∀ e ∈ s.queue, ∃ distance, s.distance? e.chip = some distance ∧ distance ≤ e.cost
  hop_eq : ∀ c label, s.labels[c]? = some label → c ≠ source →
    ∃ before d link distance, label.hop = some (before, d) ∧ s.Settled before distance ∧
      f.link? before d = some link ∧ link.destination = c ∧ f.contains c = true ∧
      label.distance = distance + kind.linkCost link
  followed : ∀ c distance d link, s.Settled c distance → ¬ pending c d →
    f.link? c d = some link → f.contains link.destination = true →
    ∃ far, s.distance? link.destination = some far ∧ far ≤ distance + kind.linkCost link
  nearer : ∀ c distance, s.Settled c distance → ∀ e ∈ s.queue, distance ≤ e.cost

/-- An entry was taken from the queue, and its chip was settled last. -/
structure Latest (s : PathSearch) (e : Waiting) : Prop where
  settled : s.Settled e.chip e.cost
  last : ∀ c distance, s.Settled c distance → distance ≤ e.cost

theorem Settled.unique (h : s.Settled c distance) (h' : s.Settled c distance') :
    distance = distance' :=
  Option.some.inj (h.1.symm.trans h'.1)

theorem Ordered.mono {fewer : ChipCoord → Direction → Prop} (h : s.Ordered f kind source pending)
    (hpending : ∀ c d link, f.link? c d = some link → pending c d → fewer c d) :
    s.Ordered f kind source fewer where
  source_eq := h.source_eq
  queue_reached := h.queue_reached
  hop_eq := h.hop_eq
  followed := by
    intro c distance d link hc hfewer hlink
    exact h.followed c distance d link hc (fun hp => hfewer (hpending c d link hlink hp)) hlink
  nearer := h.nearer

/-- At the start only the source is reached. -/
theorem ordered_start (f : Fabric) (kind : RouterKind) (source : ChipCoord) :
    (start source).Ordered f kind source (fun _ _ => False) := by
  have hreached : ∀ c distance, (start source).distance? c = some distance →
      c = source ∧ distance = 0 := by
    intro c distance hc
    rw [distance?, start, getElem?_insert_of_lawful] at hc
    by_cases heq : source = c
    · rw [if_pos heq] at hc
      exact ⟨heq.symm, (Option.some.inj hc).symm⟩
    · rw [if_neg heq] at hc
      exact absurd hc (by simp)
  have hwaits : (⟨0, source⟩ : Waiting) ∈ (start source).queue := by simp [start]
  have hunsettled : ∀ c distance, ¬ (start source).Settled c distance := by
    intro c distance hc
    obtain ⟨rfl, rfl⟩ := hreached c distance hc.1
    exact hc.2 hwaits
  refine ⟨by simp [start], ?_, ?_, ?_, ?_⟩
  · intro e he
    rw [start, Std.ExtTreeSet.mem_insert, Std.LawfulEqCmp.compare_eq_iff_eq] at he
    rcases he with rfl | he
    · exact ⟨0, by simp [distance?, start], Nat.le_refl 0⟩
    · exact absurd he (by simp)
  · intro c label hc hne
    exact absurd (hreached c label.distance (by rw [distance?, hc]; rfl)).1 hne
  · intro c distance d link hc
    exact absurd hc (hunsettled c distance)
  · intro c distance hc
    exact absurd hc (hunsettled c distance)

/-! ## Following a link -/

/-- A way to a chip is found, from which its links are to be followed. -/
def reach (s : PathSearch) (c : ChipCoord) (label : PathLabel) : PathSearch :=
  ⟨s.labels.insert c label, s.queue.insert ⟨label.distance, c⟩⟩

theorem getElem?_labels_reach : (s.reach c label).labels[c']? =
    if c = c' then some label else s.labels[c']? :=
  getElem?_insert_of_lawful ..

theorem distance?_reach : (s.reach c label).distance? c' =
    if c = c' then some label.distance else s.distance? c' := by
  rw [distance?, getElem?_labels_reach]
  split
  · rfl
  · rfl

theorem mem_queue_reach :
    e ∈ (s.reach c label).queue ↔ (⟨label.distance, c⟩ : Waiting) = e ∨ e ∈ s.queue := by
  rw [reach, Std.ExtTreeSet.mem_insert, Std.LawfulEqCmp.compare_eq_iff_eq]

/-- The settled chips stay the same. -/
theorem settled_reach_iff (hc : ∀ distance, ¬ s.Settled c distance) :
    (s.reach c label).Settled c' distance ↔ s.Settled c' distance := by
  unfold Settled
  rw [distance?_reach, mem_queue_reach]
  by_cases heq : c = c'
  · rw [if_pos heq]
    refine ⟨?_, fun h => absurd h (heq ▸ hc distance)⟩
    rintro ⟨hdistance, hwaits⟩
    rw [heq, Option.some.inj hdistance] at hwaits
    exact absurd (.inl rfl) hwaits
  · have hne : (⟨label.distance, c⟩ : Waiting) ≠ ⟨distance, c'⟩ := fun h =>
      heq (congrArg Waiting.chip h)
    rw [if_neg heq, or_iff_right hne]

theorem improves_iff {cost : Nat} : s.improves c cost = true ↔
    ∀ known, s.distance? c = some known → cost < known := by
  unfold improves
  cases s.distance? c with
  | none => simp
  | some known => simp

/-- A link leads to no chip, or to one that is reached at no more cost, or a way to its end is
    found. -/
theorem relax_cases (s : PathSearch) (f : Fabric) (kind : RouterKind) (e : Waiting)
    (d : Direction) (link : Link) :
    (s.relax f kind e d link = s ∧ (f.contains link.destination = true →
      ∃ far, s.distance? link.destination = some far ∧ far ≤ e.cost + kind.linkCost link)) ∨
    (s.relax f kind e d link
        = s.reach link.destination ⟨e.cost + kind.linkCost link, some (e.chip, d)⟩ ∧
      f.contains link.destination = true ∧
      ∀ far, s.distance? link.destination = some far → e.cost + kind.linkCost link < far) := by
  unfold relax
  simp only [Bool.and_eq_true, improves_iff]
  split
  · next h => exact .inr ⟨rfl, h⟩
  · next h =>
      refine .inl ⟨rfl, ?_⟩
      intro hcontains
      have hworse := not_and.1 h hcontains
      simp only [not_forall, Nat.not_lt, exists_prop] at hworse
      exact hworse

/-- A way over the chip that was settled last is no cheaper than one to a settled chip. -/
theorem Latest.not_settled (h : s.Latest e)
    (hbetter : ∀ far, s.distance? c = some far → e.cost + kind.linkCost link < far)
    (far : Nat) : ¬ s.Settled c far := by
  intro hsettled
  have hfar := hbetter far hsettled.1
  have hlast := h.last c far hsettled
  omega

/-- Following a link leaves the settled chips. -/
theorem Latest.settled_relax_iff (h : s.Latest e) :
    (s.relax f kind e d link).Settled c distance ↔ s.Settled c distance := by
  rcases relax_cases s f kind e d link with ⟨heq, -⟩ | ⟨heq, -, hbetter⟩
  · rw [heq]
  · rw [heq]
    exact settled_reach_iff (h.not_settled hbetter)

theorem Latest.relax (h : s.Latest e) : (s.relax f kind e d link).Latest e where
  settled := h.settled_relax_iff.2 h.settled
  last := by
    intro c distance hc
    exact h.last c distance (h.settled_relax_iff.1 hc)

theorem size_queue_relax_le :
    (s.relax f kind e d link).queue.size ≤ s.queue.size + 1 := by
  rcases relax_cases s f kind e d link with ⟨heq, -⟩ | ⟨heq, -⟩
  · rw [heq]
    exact Nat.le_succ _
  · rw [heq]
    exact Std.ExtTreeSet.size_insert_le

/-- What is put in the queue was not there before, so that it does not matter that a set holds
    nothing twice. -/
theorem Ordered.not_mem_queue_of_better {cost : Nat} (h : s.Ordered f kind source pending)
    (hbetter : ∀ far, s.distance? c = some far → cost < far) : ⟨cost, c⟩ ∉ s.queue := by
  intro hwaits
  obtain ⟨far, hfar, hle⟩ := h.queue_reached ⟨cost, c⟩ hwaits
  exact absurd (hbetter far hfar) (Nat.not_lt.2 hle)

/-- Of the links that are pending, one was followed. -/
theorem Ordered.relax {rest : List Direction} (hlatest : s.Latest e)
    (h : s.Ordered f kind source (fun b d' => b = e.chip ∧ d' ∈ d :: rest))
    (hlink : f.link? e.chip d = some link) :
    (s.relax f kind e d link).Ordered f kind source (fun b d' => b = e.chip ∧ d' ∈ rest) := by
  -- any other link that was followed was followed before
  have hothers : ∀ b distance d' link', s.Settled b distance → ¬ (b = e.chip ∧ d' ∈ rest) →
      ¬ (b = e.chip ∧ d' = d) → f.link? b d' = some link' →
      f.contains link'.destination = true →
      ∃ far, s.distance? link'.destination = some far ∧ far ≤ distance + kind.linkCost link' := by
    intro b distance d' link' hb hrest hne
    refine h.followed b distance d' link' hb ?_
    rintro ⟨hb, hd⟩
    rcases List.mem_cons.1 hd with hd | hd
    · exact hne ⟨hb, hd⟩
    · exact hrest ⟨hb, hd⟩
  rcases relax_cases s f kind e d link with ⟨heq, hreached⟩ | ⟨heq, hcontains, hbetter⟩
  · rw [heq]
    refine ⟨h.source_eq, h.queue_reached, h.hop_eq, ?_, h.nearer⟩
    intro b distance d' link' hb hrest hlink' hcontains'
    by_cases hlast : b = e.chip ∧ d' = d
    · obtain ⟨rfl, rfl⟩ := hlast
      obtain rfl : link = link' := Option.some.inj (hlink.symm.trans hlink')
      rw [← hlatest.settled.unique hb]
      exact hreached hcontains'
    · exact hothers b distance d' link' hb hrest hlast hlink' hcontains'
  · have hsettled : ∀ b distance, (s.reach link.destination
        ⟨e.cost + kind.linkCost link, some (e.chip, d)⟩).Settled b distance ↔
          s.Settled b distance :=
      fun _ _ => settled_reach_iff (hlatest.not_settled hbetter)
    rw [heq]
    refine ⟨?_, ?_, ?_, ?_, ?_⟩
    · have hne : link.destination ≠ source := by
        intro hsource
        have hzero : s.distance? link.destination = some 0 := by
          rw [hsource, distance?, h.source_eq]
          rfl
        exact absurd (hbetter 0 hzero) (Nat.not_lt_zero _)
      rw [getElem?_labels_reach, if_neg hne]
      exact h.source_eq
    · intro e' he'
      rw [distance?_reach]
      rcases mem_queue_reach.1 he' with rfl | he'
      · exact ⟨_, if_pos rfl, Nat.le_refl _⟩
      · obtain ⟨far, hfar, hle⟩ := h.queue_reached e' he'
        by_cases hend : link.destination = e'.chip
        · have hlt := hbetter far (hend ▸ hfar)
          rw [if_pos hend]
          exact ⟨_, rfl, by simp only; omega⟩
        · rw [if_neg hend]
          exact ⟨far, hfar, hle⟩
    · intro b label hlabel hne
      rw [getElem?_labels_reach] at hlabel
      by_cases hb : link.destination = b
      · rw [if_pos hb] at hlabel
        obtain rfl := Option.some.inj hlabel
        exact ⟨e.chip, d, link, e.cost, rfl, (hsettled e.chip e.cost).2 hlatest.settled, hlink, hb,
          hb ▸ hcontains, rfl⟩
      · rw [if_neg hb] at hlabel
        obtain ⟨before, d', link', distance, hhop, hbefore, hrest⟩ := h.hop_eq b label hlabel hne
        exact ⟨before, d', link', distance, hhop, (hsettled before distance).2 hbefore, hrest⟩
    · intro b distance d' link' hb hrest hlink' hcontains'
      rw [hsettled] at hb
      rw [distance?_reach]
      by_cases hlast : b = e.chip ∧ d' = d
      · obtain ⟨rfl, rfl⟩ := hlast
        obtain rfl : link = link' := Option.some.inj (hlink.symm.trans hlink')
        rw [if_pos rfl, ← hlatest.settled.unique hb]
        exact ⟨_, rfl, Nat.le_refl _⟩
      · obtain ⟨far, hfar, hle⟩ := hothers b distance d' link' hb hrest hlast hlink' hcontains'
        by_cases hend : link.destination = link'.destination
        · rw [if_pos hend]
          have hlt := hbetter far (hend ▸ hfar)
          exact ⟨_, rfl, by simp only; omega⟩
        · rw [if_neg hend]
          exact ⟨far, hfar, hle⟩
    · intro b distance hb e' he'
      rw [hsettled] at hb
      rcases mem_queue_reach.1 he' with rfl | he'
      · exact Nat.le_trans (hlatest.last b distance hb) (Nat.le_add_right ..)
      · exact h.nearer b distance hb e' he'

/-- All links of the chip that was settled last are followed, and each puts one entry in the queue
    at most. -/
theorem Ordered.relaxAll {links : List (Direction × Link)}
    (h : s.Ordered f kind source (fun b d => b = e.chip ∧ d ∈ links.map Prod.fst))
    (hlatest : s.Latest e) (hlinks : ∀ link ∈ links, f.link? e.chip link.1 = some link.2)
    {after : PathSearch}
    (hafter : after = links.foldl (fun s link => s.relax f kind e link.1 link.2) s) :
    after.Ordered f kind source (fun _ _ => False) ∧
      (∀ c distance, after.Settled c distance ↔ s.Settled c distance) ∧
      after.queue.size ≤ s.queue.size + links.length := by
  subst hafter
  induction links generalizing s with
  | nil => exact ⟨h.mono (by simp), fun _ _ => Iff.rfl, Nat.le_refl _⟩
  | cons link rest ih =>
      obtain ⟨hordered, hsettled, hsize⟩ := ih (h.relax hlatest (hlinks link List.mem_cons_self))
        hlatest.relax (fun link' hlink' => hlinks link' (List.mem_cons_of_mem link hlink'))
      have hfirst : (s.relax f kind e link.1 link.2).queue.size ≤ s.queue.size + 1 :=
        size_queue_relax_le
      refine ⟨hordered, fun c distance => (hsettled c distance).trans hlatest.settled_relax_iff, ?_⟩
      rw [List.foldl_cons, List.length_cons]
      omega

/-! ## Taking an entry from the queue -/

theorem distance?_take : (s.take e).distance? c = s.distance? c := rfl

theorem mem_queue_take : e' ∈ (s.take e).queue ↔ e ≠ e' ∧ e' ∈ s.queue := by
  rw [take, Std.ExtTreeSet.mem_erase, ne_eq, ne_eq, Std.LawfulEqCmp.compare_eq_iff_eq]

/-- A chip is settled when its entry is taken from the queue, unless the entry is out of date. -/
theorem settled_take_iff : (s.take e).Settled c distance ↔
    s.Settled c distance ∨ (e = ⟨distance, c⟩ ∧ s.distance? c = some distance) := by
  unfold Settled
  rw [mem_queue_take, distance?_take]
  constructor
  · rintro ⟨hdistance, htaken⟩
    by_cases he : e = ⟨distance, c⟩
    · exact .inr ⟨he, hdistance⟩
    · exact .inl ⟨hdistance, fun hwaits => htaken ⟨he, hwaits⟩⟩
  · rintro (⟨hdistance, hwaits⟩ | ⟨rfl, hdistance⟩)
    · exact ⟨hdistance, fun htaken => hwaits htaken.2⟩
    · exact ⟨hdistance, fun htaken => htaken.1 rfl⟩

theorem isStale_iff : s.isStale e = true ↔ ∃ known, s.distance? e.chip = some known ∧
    known < e.cost := by
  unfold isStale
  cases s.distance? e.chip with
  | none => simp
  | some known => simp

/-- The cheapest entry is taken from the queue before the links of its chip are followed. -/
theorem Ordered.take (h : s.Ordered f kind source (fun _ _ => False))
    (hleast : ∀ e' ∈ s.queue, e.cost ≤ e'.cost) :
    (s.take e).Ordered f kind source (fun b _ => b = e.chip ∧ s.distance? b = some e.cost) := by
  refine ⟨h.source_eq, ?_, ?_, ?_, ?_⟩
  · intro e' he'
    exact h.queue_reached e' (mem_queue_take.1 he').2
  · intro c label hlabel hne
    obtain ⟨before, d, link, distance, hhop, hbefore, hrest⟩ := h.hop_eq c label hlabel hne
    exact ⟨before, d, link, distance, hhop, settled_take_iff.2 (.inl hbefore), hrest⟩
  · intro c distance d link hc hpending
    rcases settled_take_iff.1 hc with hc | ⟨rfl, hdistance⟩
    · exact h.followed c distance d link hc id
    · exact absurd ⟨rfl, hdistance⟩ hpending
  · intro c distance hc e' he'
    obtain ⟨-, hwaits⟩ := mem_queue_take.1 he'
    rcases settled_take_iff.1 hc with hc | ⟨rfl, -⟩
    · exact h.nearer c distance hc e' hwaits
    · exact hleast e' hwaits

/-- If the entry is not out of date, its chip is settled last. -/
theorem Ordered.latest_take (h : s.Ordered f kind source (fun _ _ => False)) (he : e ∈ s.queue)
    (hdistance : s.distance? e.chip = some e.cost) : (s.take e).Latest e where
  settled := settled_take_iff.2 (.inr ⟨rfl, hdistance⟩)
  last := by
    intro c distance hc
    rcases settled_take_iff.1 hc with hc | ⟨rfl, -⟩
    · exact h.nearer c distance hc e he
    · exact Nat.le_refl _

/-! ## What is left to be done -/

/-- Whether a chip is settled. -/
def isSettled (s : PathSearch) (c : ChipCoord) : Bool :=
  match s.distance? c with
  | some distance => !s.queue.contains ⟨distance, c⟩
  | none => false

theorem isSettled_iff : s.isSettled c = true ↔ ∃ distance, s.Settled c distance := by
  unfold isSettled Settled
  cases s.distance? c with
  | none => simp
  | some distance => simp [← Std.ExtTreeSet.contains_iff_mem]

/-- What is not settled later was not settled before. -/
theorem not_isSettled_of_later {after : PathSearch}
    (h : ∀ c distance, s.Settled c distance → after.Settled c distance)
    (hc : (!after.isSettled c) = true) : (!s.isSettled c) = true := by
  rw [Bool.not_eq_true', Bool.eq_false_iff, ne_eq, isSettled_iff] at hc ⊢
  exact fun hsettled => hc (hsettled.imp (h c))

/-- The number of links of the chips that are not settled. -/
def linksLeft (f : Fabric) (s : PathSearch) : Nat :=
  total (fun x => x.2.router.links.size) (f.chips.toList.filter fun x => !s.isSettled x.1)

theorem linksLeft_le {after : PathSearch}
    (h : ∀ c distance, s.Settled c distance → after.Settled c distance) :
    after.linksLeft f ≤ s.linksLeft f :=
  total_filter_le fun x _ => not_isSettled_of_later (c := x.1) h

/-- When a chip is settled, its links are no longer left. -/
theorem linksLeft_add_le {after : PathSearch} {chip : Chip}
    (h : ∀ c distance, s.Settled c distance → after.Settled c distance)
    (hchip : f.chip? c = some chip) (hbefore : ∀ distance, ¬ s.Settled c distance)
    (hafter : after.Settled c distance) :
    after.linksLeft f + chip.router.links.size ≤ s.linksLeft f := by
  have hmem : (c, chip) ∈ f.chips.toList :=
    Std.ExtTreeMap.mem_toList_iff_getElem?_eq_some.2 hchip
  have hnot : (!s.isSettled c) = true := by
    rw [Bool.not_eq_true', Bool.eq_false_iff, ne_eq, isSettled_iff]
    exact fun hsettled => hsettled.elim hbefore
  have hsettled : (!after.isSettled c) = false := by
    rw [isSettled_iff.2 ⟨distance, hafter⟩]
    rfl
  exact total_filter_add_le (fun x _ => not_isSettled_of_later (c := x.1) h) hmem hnot hsettled

/-- What is left to be done: the entries of the queue, and the links of the chips that are not
    settled. -/
def potential (f : Fabric) (s : PathSearch) : Nat := s.queue.size + s.linksLeft f

/-- **A step.** The cheapest entry is taken from the queue, and less is left to be done. -/
theorem Ordered.visit (h : s.Ordered f kind source (fun _ _ => False)) (he : e ∈ s.queue)
    (hleast : ∀ e' ∈ s.queue, e.cost ≤ e'.cost) :
    ((s.take e).visit f kind e).Ordered f kind source (fun _ _ => False) ∧
      ((s.take e).visit f kind e).potential f < s.potential f := by
  have hordered := h.take hleast
  have htaken : ∀ c distance, s.Settled c distance → (s.take e).Settled c distance :=
    fun _ _ hc => settled_take_iff.2 (.inl hc)
  have hsize : (s.take e).queue.size + 1 = s.queue.size := size_erase_add_one he
  have hless : (s.take e).potential f < s.potential f := by
    have hlinks : (s.take e).linksLeft f ≤ s.linksLeft f := linksLeft_le htaken
    unfold potential
    omega
  obtain ⟨known, hknown, hle⟩ := h.queue_reached e he
  unfold PathSearch.visit
  split
  · next hstale =>
      obtain ⟨known', hknown', hlt⟩ := isStale_iff.1 hstale
      refine ⟨hordered.mono ?_, hless⟩
      rintro c d link - ⟨rfl, hdistance⟩
      rw [distance?_take, hdistance] at hknown'
      exact absurd (Option.some.inj hknown') (by omega)
  · next hfresh =>
      have hcost : known = e.cost := by
        by_contra hne
        exact hfresh (isStale_iff.2 ⟨known, hknown, by omega⟩)
      rw [hcost] at hknown
      have hlatest := h.latest_take he hknown
      cases hchip : f.chip? e.chip with
      | none =>
          refine ⟨hordered.mono ?_, hless⟩
          rintro c d link hlink ⟨rfl, -⟩
          rw [Fabric.link?, hchip] at hlink
          exact absurd hlink (by simp)
      | some chip =>
          have hlinks : ∀ link ∈ chip.router.links.toList,
              f.link? e.chip link.1 = some link.2 :=
            fun _ => (Fabric.mem_links_iff hchip).1
          have hpending : ∀ c d link, f.link? c d = some link →
              c = e.chip ∧ s.distance? c = some e.cost →
              c = e.chip ∧ d ∈ chip.router.links.toList.map Prod.fst := by
            rintro c d link hlink ⟨rfl, -⟩
            have hmem := (Fabric.mem_links_iff hchip).2 hlink
            exact ⟨rfl, List.mem_map.2 ⟨(d, link), hmem, rfl⟩⟩
          obtain ⟨hall, hsettled, hqueue⟩ :=
            (hordered.mono hpending).relaxAll hlatest hlinks rfl
          refine ⟨hall, ?_⟩
          have hnot : ∀ distance, ¬ s.Settled e.chip distance := by
            rintro distance ⟨hdistance, hwaits⟩
            rw [Option.some.inj (hdistance.symm.trans hknown)] at hwaits
            exact hwaits he
          -- the links of the chip pay for what is put in the queue
          have hpaid := linksLeft_add_le
            (fun c distance hc => (hsettled c distance).2 (htaken c distance hc)) hchip hnot
            ((hsettled e.chip e.cost).2 hlatest.settled)
          rw [Std.ExtTreeMap.length_toList] at hqueue
          simp only [potential]
          omega

theorem Ordered.step (h : s.Ordered f kind source (fun _ _ => False)) :
    (s.step f kind).Ordered f kind source (fun _ _ => False) ∧
      (s.queue = ∅ → s.step f kind = s) ∧
      (s.queue ≠ ∅ → (s.step f kind).potential f < s.potential f) := by
  unfold PathSearch.step
  rw [← Std.ExtTreeSet.min?_eq_head?_toList]
  cases hfirst : s.queue.min? with
  | none =>
      exact ⟨h, fun _ => rfl, fun hne => absurd (Std.ExtTreeSet.min?_eq_none_iff.1 hfirst) hne⟩
  | some e =>
      obtain ⟨he, hleast⟩ := Std.ExtTreeSet.min?_eq_some_iff_mem_and_forall.1 hfirst
      obtain ⟨hordered, hless⟩ := h.visit he (fun e' he' => Waiting.cost_le_of_isLE (hleast e' he'))
      refine ⟨hordered, ?_, fun _ => hless⟩
      intro hempty
      rw [hempty] at he
      exact absurd he (by simp)

/-! ## The whole search -/

/-- After some steps the queue is empty, or as much is done. -/
theorem ordered_repeat (f : Fabric) (kind : RouterKind) (source : ChipCoord) (n : Nat) :
    (Nat.repeat (PathSearch.step f kind) n (start source)).Ordered f kind source
        (fun _ _ => False) ∧
      ((Nat.repeat (PathSearch.step f kind) n (start source)).queue = ∅ ∨
        (Nat.repeat (PathSearch.step f kind) n (start source)).potential f + n
          ≤ (start source).potential f) := by
  induction n with
  | zero => exact ⟨ordered_start f kind source, .inr (Nat.le_refl _)⟩
  | succ n ih =>
      obtain ⟨hordered, hdone⟩ := ih
      obtain ⟨hordered', hstays, hless⟩ := hordered.step
      refine ⟨hordered', ?_⟩
      rw [Nat.repeat]
      by_cases hempty : (Nat.repeat (PathSearch.step f kind) n (start source)).queue = ∅
      · rw [hstays hempty]
        exact .inl hempty
      · have hle := hdone.resolve_left hempty
        have hlt := hless hempty
        exact .inr (by omega)

theorem potential_start_le (f : Fabric) (source : ChipCoord) :
    (start source).potential f ≤ f.linkCount + 1 := by
  have hsize : (start source).queue.size = 1 := by
    rw [start, Std.ExtTreeSet.size_insert]
    simp
  have hlinks : (start source).linksLeft f
      ≤ total (fun x => x.2.router.links.size) (f.chips.toList.filter fun _ => true) :=
    total_filter_le fun _ _ _ => rfl
  rw [List.filter_true] at hlinks
  rw [Fabric.linkCount, Fabric.chipList, total_map]
  unfold potential
  omega

theorem ordered_run (f : Fabric) (kind : RouterKind) (source : ChipCoord) :
    (run f kind source).Ordered f kind source (fun _ _ => False) :=
  (ordered_repeat f kind source (f.linkCount + 1)).1

/-- **The search ends.** There are enough steps for all that is put in the queue. -/
theorem queue_run (f : Fabric) (kind : RouterKind) (source : ChipCoord) :
    (run f kind source).queue = ∅ := by
  obtain ⟨-, hempty | hdone⟩ := ordered_repeat f kind source (f.linkCount + 1)
  · exact hempty
  · have hstart := potential_start_le f source
    rw [potential] at hdone
    rw [run, Std.ExtTreeSet.eq_empty_iff_size_eq_zero]
    omega

end PathSearch

end SpikeMesh
