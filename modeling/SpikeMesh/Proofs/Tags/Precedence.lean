import SpikeMesh.Proofs.Tags.Allocation

set_option autoImplicit false

/-! # Pinned tags come first

A request that names its tag is pinned; any other request is automatic. Pinned requests are served
first, so that they meet the pools as they would without any automatic request. Automatic requests
fail in one way only, when a pool is exhausted, and add to what the pinned ones were given. So a
graph fails over its pinned requests as it does without its automatic ones, and two graphs that pin
the same tags fail over them alike, wherever automatic requests stand in between. -/

namespace SpikeMesh

/-! ## Graphs with pinned requests only -/

/-- The unit without its automatic requests. -/
def GraphUnit.pinnedTags (u : GraphUnit) : GraphUnit :=
  { u with
    notificationTag := u.notificationTag.filter fun r => r.tag.isSome
    reverseTag := u.reverseTag.filter fun r => r.tag.isSome }

/-- The graph without automatic requests. -/
def ApplicationGraph.pinnedTags (g : ApplicationGraph) : ApplicationGraph :=
  { g with units := g.units.map GraphUnit.pinnedTags }

/-- What is asked of the pools: the kind of tag, the tag if it is named, and who asks. -/
abbrev TagAsk := TagKind × Option UInt32 × String

/-- What a unit asks of the pools. -/
def GraphUnit.tagAsks (u : GraphUnit) : List TagAsk :=
  u.notificationTag.toList.map (fun r => (.notification, r.tag, u.subject))
    ++ u.reverseTag.toList.map fun r => (.reverse, r.tag, u.subject)

/-- What the units ask of the pools, in the order of the units. -/
def ApplicationGraph.tagAsks (g : ApplicationGraph) : List TagAsk :=
  g.units.flatMap GraphUnit.tagAsks

/-- The core on which a unit runs, if it runs on one. -/
def PartitionedGraph.coreOf? (p : PartitionedGraph) (placements : Placements) (id : UnitId) :
    Option Location :=
  match p.slicesOf id with
  | [s] => placements.get? s
  | _ => none

/-- Each unit with a reverse tag has one slice, which is placed. -/
def ApplicationGraph.ReverseTagsPlaced (g : ApplicationGraph) (p : PartitionedGraph)
    (placements : Placements) : Prop :=
  ∀ e ∈ g.numberedUnits, e.2.reverseTag.isSome = true →
    (p.coreOf? placements e.1).isSome = true

/-- Where the tag goes that a unit asks for without naming one. -/
def GraphUnit.automaticTarget? (u : GraphUnit) (core? : Option Location) :
    TagKind → Option TagTarget
  | .notification =>
    (u.notificationTag.filter fun r => r.tag.isNone).map fun r => .host r.host r.port
  | .reverse =>
    (u.reverseTag.filter fun r => r.tag.isNone).bind fun r => core?.map fun l => .core r.port l

/-- The units that ask for a tag of a kind without naming one, in their order, and where the tags
    go. -/
def ApplicationGraph.automaticHolders (g : ApplicationGraph) (p : PartitionedGraph)
    (placements : Placements) (kind : TagKind) : List (UnitId × TagTarget) :=
  g.numberedUnits.filterMap fun e =>
    (e.2.automaticTarget? (p.coreOf? placements e.1) kind).map fun target => (e.1, target)

/-- The units that were allocated a tag of a kind, and where the tags go. -/
def TagAllocations.holders (a : TagAllocations) : TagKind → List (UnitId × TagTarget)
  | .notification => a.notification.map fun t => (t.unit, .host t.host t.port)
  | .reverse => a.reverse.map fun t => (t.unit, .core t.port t.destination)

/-! ## The requests of a graph -/

/-- The requests of a unit that runs on a core, if it runs on one. -/
def GraphUnit.requestsAt (u : GraphUnit) (id : UnitId) (core? : Option Location) :
    List TagRequest :=
  u.notificationTag.toList.map (fun r => ⟨id, u.subject, r.tag, .host r.host r.port⟩)
    ++ u.reverseTag.toList.flatMap fun r =>
      core?.toList.map fun l => ⟨id, u.subject, r.tag, .core r.port l⟩

/-- What a request asks of the pools. -/
def TagRequest.ask (r : TagRequest) : TagAsk := (r.kind, r.tag, r.subject)

section Requests

variable {g : ApplicationGraph} {p : PartitionedGraph} {placements : Placements} {id : UnitId}
  {u : GraphUnit} {core? : Option Location}

theorem reverseDestination_eq_ok {l : Location} (h : p.coreOf? placements id = some l) :
    reverseDestination p placements id u = .ok l := by
  unfold PartitionedGraph.coreOf? at h
  unfold reverseDestination
  rcases hslices : p.slicesOf id with _ | ⟨s, _ | ⟨_, _⟩⟩
  · exact absurd h (by simp [hslices])
  · rw [hslices] at h
    simp only [show placements.get? s = some l from h]
  · exact absurd h (by simp [hslices])

theorem unitRequests_eq_ok
    (h : u.reverseTag.isSome = true → (p.coreOf? placements id).isSome = true) :
    unitRequests p placements id u = .ok (u.requestsAt id (p.coreOf? placements id)) := by
  unfold unitRequests GraphUnit.requestsAt
  cases hr : u.reverseTag with
  | none => simp [pure_eq_ok]
  | some r =>
      obtain ⟨l, hl⟩ := Option.isSome_iff_exists.1 (h (by rw [hr]; rfl))
      simp [hl, reverseDestination_eq_ok hl, ok_bind, pure_eq_ok]

/-- The requests of a graph are those of its units. -/
theorem tagRequests_eq_ok (h : g.ReverseTagsPlaced p placements) : g.tagRequests p placements
    = .ok (g.numberedUnits.flatMap fun e => e.2.requestsAt e.1 (p.coreOf? placements e.1)) := by
  have hunits : (g.numberedUnits.mapM fun e => unitRequests p placements e.1 e.2)
      = .ok (g.numberedUnits.map fun e => e.2.requestsAt e.1 (p.coreOf? placements e.1)) :=
    mapM_eq_ok_map fun e he => unitRequests_eq_ok (h e he)
  rw [ApplicationGraph.tagRequests, hunits, ok_bind, pure_eq_ok, List.flatMap]

theorem requestsAt_pinnedTags (u : GraphUnit) (id : UnitId) (core? : Option Location) :
    u.pinnedTags.requestsAt id core?
      = (u.requestsAt id core?).filter fun r => r.tag.isSome := by
  have hsubject : u.pinnedTags.subject = u.subject := rfl
  unfold GraphUnit.requestsAt
  rw [hsubject, List.filter_append]
  congr 1
  · simp only [GraphUnit.pinnedTags]
    rcases u.notificationTag with _ | ⟨_ | tag, host, port⟩ <;> rfl
  · simp only [GraphUnit.pinnedTags]
    rcases u.reverseTag with _ | ⟨_ | tag, port⟩ <;> rcases core? with _ | l <;> rfl

theorem numberedUnits_pinnedTags (g : ApplicationGraph) :
    g.pinnedTags.numberedUnits = g.numberedUnits.map fun e => (e.1, e.2.pinnedTags) := by
  simp [ApplicationGraph.numberedUnits, ApplicationGraph.pinnedTags, List.zipIdx_map]

theorem ApplicationGraph.ReverseTagsPlaced.pinnedTags (h : g.ReverseTagsPlaced p placements) :
    g.pinnedTags.ReverseTagsPlaced p placements := by
  intro e he hreverse
  rw [numberedUnits_pinnedTags] at he
  obtain ⟨e', he', rfl⟩ := List.mem_map.1 he
  refine h e' he' ?_
  simp only [GraphUnit.pinnedTags] at hreverse
  rcases hr : e'.2.reverseTag with _ | r
  · rw [hr] at hreverse
    exact absurd hreverse (by simp)
  · rfl

/-- Without its automatic requests a graph has its pinned ones. -/
theorem tagRequests_pinnedTags (h : g.ReverseTagsPlaced p placements) :
    ∃ requests, g.tagRequests p placements = .ok requests ∧
      g.pinnedTags.tagRequests p placements = .ok (requests.filter fun r => r.tag.isSome) := by
  refine ⟨_, tagRequests_eq_ok h, ?_⟩
  rw [tagRequests_eq_ok h.pinnedTags, numberedUnits_pinnedTags, List.flatMap_map,
    List.filter_flatMap]
  simp only [requestsAt_pinnedTags]

theorem requestsAt_asks (h : u.reverseTag.isSome = true → core?.isSome = true) :
    (u.requestsAt id core?).map TagRequest.ask = u.tagAsks := by
  unfold GraphUnit.requestsAt GraphUnit.tagAsks
  rw [List.map_append]
  congr 1
  · rw [List.map_map]
    rfl
  · cases hr : u.reverseTag with
    | none => rfl
    | some r =>
        obtain ⟨l, rfl⟩ := Option.isSome_iff_exists.1 (h (by rw [hr]; rfl))
        rfl

/-- The requests of a graph ask what its units ask. -/
theorem map_ask_of_tagRequests {requests : List TagRequest} (h : g.ReverseTagsPlaced p placements)
    (hrequests : g.tagRequests p placements = .ok requests) :
    requests.map TagRequest.ask = g.tagAsks := by
  obtain rfl := Except.ok.inj ((tagRequests_eq_ok h).symm.trans hrequests)
  rw [List.map_flatMap, ApplicationGraph.tagAsks]
  have hunits : g.units = g.numberedUnits.map Prod.snd := by
    simp [ApplicationGraph.numberedUnits, List.map_map, Function.comp_def, List.zipIdx_map_fst]
  rw [hunits, List.flatMap_map]
  exact List.flatMap_congr fun e he => requestsAt_asks (h e he)

end Requests

/-! ## What the requests are given -/

/-- Who asks for a tag of a kind, and where the tags go. -/
def TagRequest.holdersOf (kind : TagKind) (requests : List TagRequest) :
    List (UnitId × TagTarget) :=
  (requests.filter fun r => r.kind = kind).map fun r => (r.unit, r.target)

theorem holdersOf_requestsAt (u : GraphUnit) (id : UnitId) (core? : Option Location)
    (kind : TagKind) :
    TagRequest.holdersOf kind ((u.requestsAt id core?).filter fun r => r.tag.isNone)
      = ((u.automaticTarget? core? kind).map fun target => (id, target)).toList := by
  unfold GraphUnit.requestsAt GraphUnit.automaticTarget? TagRequest.holdersOf
  cases kind <;>
    rcases u.notificationTag with _ | ⟨_ | tag, host, port⟩ <;>
      rcases u.reverseTag with _ | ⟨_ | tag', port'⟩ <;> rcases core? with _ | l <;> rfl

/-- The automatic requests of a graph are those of its units. -/
theorem holdersOf_automatic {g : ApplicationGraph} {p : PartitionedGraph} {placements : Placements}
    {requests : List TagRequest} (h : g.ReverseTagsPlaced p placements)
    (hrequests : g.tagRequests p placements = .ok requests) (kind : TagKind) :
    TagRequest.holdersOf kind (requests.filter fun r => r.tag.isNone)
      = g.automaticHolders p placements kind := by
  obtain rfl := Except.ok.inj ((tagRequests_eq_ok h).symm.trans hrequests)
  have hflat : ∀ units : List (UnitId × GraphUnit),
      TagRequest.holdersOf kind ((units.flatMap fun e =>
        e.2.requestsAt e.1 (p.coreOf? placements e.1)).filter fun r => r.tag.isNone)
      = units.filterMap fun e =>
        (e.2.automaticTarget? (p.coreOf? placements e.1) kind).map fun target => (e.1, target) := by
    intro units
    induction units with
    | nil => rfl
    | cons e rest ih =>
        have hunit := holdersOf_requestsAt e.2 e.1 (p.coreOf? placements e.1) kind
        unfold TagRequest.holdersOf at ih hunit ⊢
        rw [List.flatMap_cons, List.filter_append, List.filter_append, List.map_append, ih, hunit,
          List.filterMap_cons]
        cases e.2.automaticTarget? (p.coreOf? placements e.1) kind <;> rfl
  exact hflat g.numberedUnits

/-- The allocations of `b` are those of `a`, and after them those of further holders of each
    kind. -/
structure TagAllocations.ExtendedBy (a b : TagAllocations)
    (further : TagKind → List (UnitId × TagTarget)) : Prop where
  notification_prefix : a.notification <+: b.notification
  reverse_prefix : a.reverse <+: b.reverse
  holders_eq : ∀ kind, b.holders kind = a.holders kind ++ further kind

namespace TagLedger

variable {ledger ledger' : TagLedger} {config : TagConfig} {r r' : TagRequest}
  {requests : List TagRequest} {e : PipelineError}

/-- A request is served if its pool has a tag for it. -/
theorem serve_eq_error_iff : ledger.serve r = .error e ↔
    (ledger.pool r.kind).allocate r.tag r.subject = .error e := by
  unfold serve TagRequest.kind
  cases r.target with
  | host host port =>
      simp only [pool]
      cases ledger.notificationPool.allocate r.tag r.subject <;>
        simp [ok_bind, error_bind, pure_eq_ok]
  | core port destination =>
      simp only [pool]
      cases ledger.reversePool.allocate r.tag r.subject <;> simp [ok_bind, error_bind, pure_eq_ok]

/-- One request is allocated a tag, after those that were allocated before. -/
theorem extendedBy_serve (h : ledger.serve r = .ok ledger') :
    ledger.allocations.ExtendedBy ledger'.allocations
      fun kind => TagRequest.holdersOf kind [r] := by
  unfold serve at h
  unfold TagRequest.holdersOf TagRequest.kind
  cases hr : r.target with
  | host host port =>
      rw [hr] at h
      obtain ⟨⟨tag, p'⟩, -, h⟩ := bind_eq_ok_iff.1 h
      obtain rfl := Except.ok.inj h
      refine ⟨List.prefix_append .., List.prefix_rfl, ?_⟩
      rintro (_ | _) <;> simp [TagAllocations.holders, hr]
  | core port destination =>
      rw [hr] at h
      obtain ⟨⟨tag, p'⟩, -, h⟩ := bind_eq_ok_iff.1 h
      obtain rfl := Except.ok.inj h
      refine ⟨List.prefix_rfl, List.prefix_append .., ?_⟩
      rintro (_ | _) <;> simp [TagAllocations.holders, hr]

theorem extendedBy_serveAll (h : requests.foldlM serve ledger = .ok ledger') :
    ledger.allocations.ExtendedBy ledger'.allocations
      fun kind => TagRequest.holdersOf kind requests := by
  refine foldlM_ok_induction (fun done l => ledger.allocations.ExtendedBy l.allocations
    fun kind => TagRequest.holdersOf kind done) ?_
    ⟨List.prefix_rfl, List.prefix_rfl, fun kind => by simp [TagRequest.holdersOf]⟩ h
  intro done r l l' hdone hr
  have hone := extendedBy_serve hr
  refine ⟨hdone.notification_prefix.trans hone.notification_prefix,
    hdone.reverse_prefix.trans hone.reverse_prefix, ?_⟩
  intro kind
  rw [hone.holders_eq, hdone.holders_eq, List.append_assoc]
  simp [TagRequest.holdersOf]

/-! ## How requests fail -/

/-- Two ledgers have the same tags left in their pools. -/
def SamePools (ledger ledger' : TagLedger) : Prop := ∀ kind, ledger.pool kind = ledger'.pool kind

/-- What a request asks decides how it fails, and what it leaves in the pools. -/
theorem SamePools.serve (h : ledger.SamePools ledger') (hask : r.ask = r'.ask) :
    Corresponds SamePools (ledger.serve r) (ledger'.serve r') := by
  obtain ⟨hkind, htag, hsubject⟩ : r.kind = r'.kind ∧ r.tag = r'.tag ∧ r.subject = r'.subject := by
    simpa [TagRequest.ask] using hask
  have hpool : (ledger.pool r.kind).allocate r.tag r.subject
      = (ledger'.pool r'.kind).allocate r'.tag r'.subject := by
    rw [h, hkind, htag, hsubject]
  cases hr : ledger.serve r with
  | error e =>
      rw [serve_eq_error_iff, hpool, ← serve_eq_error_iff] at hr
      rw [hr]
      exact corresponds_error e
  | ok after =>
      cases hr' : ledger'.serve r' with
      | error e =>
          rw [serve_eq_error_iff, ← hpool, ← serve_eq_error_iff, hr] at hr'
          exact absurd hr' (by simp)
      | ok after' =>
          obtain ⟨tag, left, hok, hleft, -, hother⟩ := serve_eq_ok hr
          obtain ⟨tag', left', hok', hleft', -, hother'⟩ := serve_eq_ok hr'
          rw [hpool, hok', Except.ok.injEq, Prod.mk.injEq] at hok
          intro kind
          by_cases heq : r.kind = kind
          · subst heq
            rw [hleft, hkind, hleft', hok.2]
          · rw [(hother kind heq).1, (hother' kind (hkind ▸ heq)).1, h]

/-- A request that names no tag fails only if its pool is exhausted. -/
theorem exhausted_of_automatic (hserves : ledger.Serves config requests) (hnone : r.tag = none)
    (h : ledger.serve r = .error e) : e = .tagPoolExhausted r.kind config.maxTag := by
  have hpool : (ledger.pool r.kind).kind = r.kind ∧ (ledger.pool r.kind).max = config.maxTag := by
    rw [hserves.pool_eq, TagPool.kind_afterAll, TagPool.max_afterAll]
    cases r.kind with
    | notification => exact ⟨rfl, rfl⟩
    | reverse => exact ⟨rfl, rfl⟩
  rw [serve_eq_error_iff, hnone] at h
  unfold TagPool.allocate TagPool.automaticTag at h
  simp only at h
  split at h
  · rw [error_bind, Except.error.injEq, hpool.1, hpool.2] at h
    exact h.symm
  · exact absurd h (by simp [ok_bind, pure_eq_ok])

/-- So do requests of which none names a tag, after others were served. -/
theorem exhausted_of_automatics {automatic : List TagRequest}
    (hledger : requests.foldlM serve (start config) = .ok ledger)
    (hnone : ∀ r ∈ automatic, r.tag = none) (h : automatic.foldlM serve ledger = .error e) :
    ∃ kind, e = .tagPoolExhausted kind config.maxTag := by
  obtain ⟨done, r, rest, before, rfl, hdone, hr⟩ := foldlM_eq_error_iff_exists.1 h
  have hbefore : (requests ++ done).foldlM serve (start config) = .ok before := by
    rw [List.foldlM_append, hledger, ok_bind, hdone]
  have hserves := foldlM_ok_induction (fun done l => TagLedger.Serves l config done)
    (fun _ _ _ _ hdone hr => hdone.serve hr) (serves_start config) hbefore
  exact ⟨r.kind, exhausted_of_automatic hserves (hnone r (by simp)) hr⟩

end TagLedger

/-! ## Allocation -/

namespace ApplicationGraph

variable {g g' : ApplicationGraph} {p p' : PartitionedGraph} {placements placements' : Placements}
  {config : TagConfig}

/-- A graph is given tags for its pinned requests, as it is without the automatic ones, and then for
    these. -/
theorem allocateTags_eq_bind (config : TagConfig) {requests : List TagRequest}
    (hrequests : g.tagRequests p placements = .ok requests)
    (hpinned : g.pinnedTags.tagRequests p placements
      = .ok (requests.filter fun r => r.tag.isSome)) :
    g.allocateTags p placements config =
        ((requests.filter fun r => r.tag.isSome).foldlM TagLedger.serve (.start config) >>=
          fun ledger => (requests.filter fun r => r.tag.isNone).foldlM TagLedger.serve ledger >>=
            fun ledger' => .ok ledger'.allocations) ∧
      g.pinnedTags.allocateTags p placements config =
        ((requests.filter fun r => r.tag.isSome).foldlM TagLedger.serve (.start config) >>=
          fun ledger => .ok ledger.allocations) := by
  constructor
  · rw [allocateTags, hrequests, ok_bind, servingOrder, List.foldlM_append, bind_assoc]
    rfl
  · have horder : servingOrder (requests.filter fun r => r.tag.isSome)
        = requests.filter fun r => r.tag.isSome := by
      rw [servingOrder, List.filter_filter, List.filter_filter]
      simp
    rw [allocateTags, hpinned, ok_bind, horder]
    rfl

/-- Over the pinned requests a graph fails as it does without the automatic ones. -/
theorem allocateTags_eq_error_of_pinnedTags (h : g.ReverseTagsPlaced p placements)
    {e : PipelineError} (he : g.pinnedTags.allocateTags p placements config = .error e) :
    g.allocateTags p placements config = .error e := by
  obtain ⟨requests, hrequests, hpinned⟩ := tagRequests_pinnedTags h
  obtain ⟨hall, hfirst⟩ := allocateTags_eq_bind config hrequests hpinned
  rcases bind_eq_error_iff.1 (hfirst.symm.trans he) with hserve | ⟨ledger, -, hok⟩
  · exact hall.trans (bind_eq_error_iff.2 (.inl hserve))
  · exact absurd hok (by simp)

/-- If the pinned requests can be served, the automatic ones exhaust a pool, or are served after
    them. -/
theorem allocateTags_of_pinnedTags (h : g.ReverseTagsPlaced p placements) {pinned : TagAllocations}
    (hok : g.pinnedTags.allocateTags p placements config = .ok pinned) :
    (∃ kind, g.allocateTags p placements config = .error (.tagPoolExhausted kind config.maxTag)) ∨
      ∃ a, g.allocateTags p placements config = .ok a ∧
        pinned.ExtendedBy a (g.automaticHolders p placements) := by
  obtain ⟨requests, hrequests, hpinned⟩ := tagRequests_pinnedTags h
  obtain ⟨hall, hfirst⟩ := allocateTags_eq_bind config hrequests hpinned
  rw [hfirst] at hok
  obtain ⟨ledger, hledger, hok⟩ := bind_eq_ok_iff.1 hok
  obtain rfl := Except.ok.inj hok
  rw [hall, hledger, ok_bind]
  cases hrest : (requests.filter fun r => r.tag.isNone).foldlM TagLedger.serve ledger with
  | error e =>
      obtain ⟨kind, rfl⟩ := TagLedger.exhausted_of_automatics hledger
        (fun r hr => by simpa using (List.mem_filter.1 hr).2) hrest
      exact .inl ⟨kind, rfl⟩
  | ok ledger' =>
      have hextended := TagLedger.extendedBy_serveAll hrest
      refine .inr ⟨ledger'.allocations, rfl, hextended.notification_prefix,
        hextended.reverse_prefix, ?_⟩
      intro kind
      rw [hextended.holders_eq, holdersOf_automatic h hrequests]

/-- Without automatic requests graphs fail alike that pin the same tags. -/
theorem corresponds_pinnedTags (h : g.ReverseTagsPlaced p placements)
    (h' : g'.ReverseTagsPlaced p' placements')
    (hasks : g.pinnedTags.tagAsks = g'.pinnedTags.tagAsks) :
    Corresponds (fun _ _ => True) (g.pinnedTags.allocateTags p placements config)
      (g'.pinnedTags.allocateTags p' placements' config) := by
  obtain ⟨requests, hrequests, hpinned⟩ := tagRequests_pinnedTags h
  obtain ⟨requests', hrequests', hpinned'⟩ := tagRequests_pinnedTags h'
  rw [(allocateTags_eq_bind _ hrequests hpinned).2,
    (allocateTags_eq_bind _ hrequests' hpinned').2]
  rw [← map_ask_of_tagRequests h.pinnedTags hpinned,
    ← map_ask_of_tagRequests h'.pinnedTags hpinned', ← List.forall₂_eq_eq_eq,
    List.forall₂_map_left_iff, List.forall₂_map_right_iff] at hasks
  refine (corresponds_foldlM (T := TagLedger.SamePools) hasks ?_ fun _ => rfl).bind
    fun _ _ _ => trivial
  intro ledger ledger' r r' hledger hr
  exact hledger.serve hr

/-- But for an exhausted pool, a graph fails as it does without its automatic requests. -/
theorem allocateTags_eq_error_iff (h : g.ReverseTagsPlaced p placements) {e : PipelineError}
    (he : ∀ kind, e ≠ .tagPoolExhausted kind config.maxTag) :
    g.allocateTags p placements config = .error e ↔
      g.pinnedTags.allocateTags p placements config = .error e := by
  refine ⟨fun hall => ?_, allocateTags_eq_error_of_pinnedTags h⟩
  cases hpinned : g.pinnedTags.allocateTags p placements config with
  | error e' =>
      rw [allocateTags_eq_error_of_pinnedTags h hpinned, Except.error.injEq] at hall
      rw [hall]
  | ok pinned =>
      rcases allocateTags_of_pinnedTags h hpinned with ⟨kind, hfull⟩ | ⟨a, hok, -⟩
      · rw [hfull, Except.error.injEq] at hall
        exact absurd hall.symm (he kind)
      · rw [hok] at hall
        exact absurd hall (by simp)

end ApplicationGraph

/-- **Automatic requests never disturb pinned ones.** What fails without the automatic requests of a
    graph fails with them for the same reason. What succeeds without them is kept: with them a pool
    is exhausted, or the pinned requests are given the same tags, and the automatic ones follow in
    the order of the units. So any failure but an exhausted pool depends only on which tags are
    pinned, by whom and in which order, and not on the automatic requests before, between and
    after. -/
theorem pinnedTags_undisturbed {g : ApplicationGraph} {p : PartitionedGraph}
    {placements : Placements} (config : TagConfig) (h : g.ReverseTagsPlaced p placements) :
    (∀ e, g.pinnedTags.allocateTags p placements config = .error e →
      g.allocateTags p placements config = .error e) ∧
    (∀ pinned, g.pinnedTags.allocateTags p placements config = .ok pinned →
      (∃ kind, g.allocateTags p placements config = .error (.tagPoolExhausted kind config.maxTag)) ∨
      ∃ a, g.allocateTags p placements config = .ok a ∧
        pinned.ExtendedBy a (g.automaticHolders p placements)) ∧
    ∀ (g' : ApplicationGraph) (p' : PartitionedGraph) (placements' : Placements),
      g'.ReverseTagsPlaced p' placements' → g.pinnedTags.tagAsks = g'.pinnedTags.tagAsks →
      ∀ e, (∀ kind, e ≠ .tagPoolExhausted kind config.maxTag) →
        (g.allocateTags p placements config = .error e ↔
          g'.allocateTags p' placements' config = .error e) := by
  refine ⟨fun _ => ApplicationGraph.allocateTags_eq_error_of_pinnedTags h,
    fun _ => ApplicationGraph.allocateTags_of_pinnedTags h, ?_⟩
  intro g' p' placements' h' hasks e he
  rw [ApplicationGraph.allocateTags_eq_error_iff h he,
    ApplicationGraph.allocateTags_eq_error_iff h' he]
  exact (ApplicationGraph.corresponds_pinnedTags h h' hasks).error_iff e

/-- Two units that ask for tags of both kinds, the second one for certain ones. -/
def mixedPair : ApplicationGraph where
  units :=
    let model : UnitModel := .linear ⟨"model", .zero, ⟨1, 1, 1⟩, 4⟩
    [{ label := "any", atoms := 1, model, notificationTag := some ⟨none, "host", 80⟩,
        reverseTag := some ⟨none, 90⟩ },
      { label := "certain", atoms := 1, model, notificationTag := some ⟨some 0, "host", 81⟩,
        reverseTag := some ⟨some 2, 91⟩ }]
  connections := []

/-- The slices of the two units, and the cores on which they run. -/
def mixedPairSlices : PartitionedGraph :=
  (PartitionedGraph.empty.addSlice ⟨0⟩ ⟨0, 1⟩ .zero).addSlice ⟨1⟩ ⟨0, 1⟩ .zero

def mixedPairPlacements : Placements := .ofList [(⟨0⟩, ⟨⟨0, 0⟩, 1⟩), (⟨1⟩, ⟨⟨0, 0⟩, 2⟩)]

theorem mixedPair_undisturbed :
    mixedPair.ReverseTagsPlaced mixedPairSlices mixedPairPlacements ∧
    ∃ pinned a,
      mixedPair.pinnedTags.allocateTags mixedPairSlices mixedPairPlacements {} = .ok pinned ∧
      mixedPair.allocateTags mixedPairSlices mixedPairPlacements {} = .ok a ∧
      pinned.ExtendedBy a (mixedPair.automaticHolders mixedPairSlices mixedPairPlacements) ∧
      pinned.tagsOf .notification = [0] ∧ a.tagsOf .notification = [0, 1] := by
  have hplaced : mixedPair.ReverseTagsPlaced mixedPairSlices mixedPairPlacements := by
    unfold ApplicationGraph.ReverseTagsPlaced
    decide +kernel
  obtain ⟨pinned, hpinned⟩ := exists_eq_ok_of_isOk (by decide +kernel :
    (mixedPair.pinnedTags.allocateTags mixedPairSlices mixedPairPlacements {}).isOk = true)
  obtain ⟨a, ha⟩ := exists_eq_ok_of_isOk (by decide +kernel :
    (mixedPair.allocateTags mixedPairSlices mixedPairPlacements {}).isOk = true)
  have hfirst : (mixedPair.pinnedTags.allocateTags mixedPairSlices
      mixedPairPlacements {}).toOption.map (fun a => a.tagsOf .notification) = some [0] := by
    decide +kernel
  have hboth : (mixedPair.allocateTags mixedPairSlices mixedPairPlacements {}).toOption.map
      (fun a => a.tagsOf .notification) = some [0, 1] := by decide +kernel
  rw [hpinned] at hfirst
  rw [ha] at hboth
  rcases (pinnedTags_undisturbed {} hplaced).2.1 pinned hpinned with
    ⟨kind, he⟩ | ⟨a', ha', hextended⟩
  · exact absurd (ha.symm.trans he) (by simp)
  · obtain rfl := Except.ok.inj (ha.symm.trans ha')
    exact ⟨hplaced, pinned, a, hpinned, ha, hextended, Option.some.inj hfirst,
      Option.some.inj hboth⟩

end SpikeMesh
