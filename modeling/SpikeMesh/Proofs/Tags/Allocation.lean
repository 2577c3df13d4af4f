import SpikeMesh.Proofs.Tags.Pool
import SpikeMesh.Tags.Allocation

set_option autoImplicit false

/-! # Which tags the units hold

Each pool serves the requests of its kind one after the other. So the tags that units hold are those
that a pool hands out, and two units hold the same tag of a pool only if it is the last tag that a
word holds. -/

namespace SpikeMesh

/-! ## The requests to each pool -/

namespace TagRequest

/-- The pool from which a request is served. -/
def kind (r : TagRequest) : TagKind :=
  match r.target with
  | .host _ _ => .notification
  | .core _ _ => .reverse

/-- What the requests of a kind ask of their pool. -/
def ofKind (kind : TagKind) (requests : List TagRequest) : List TagPool.Request :=
  (requests.filter fun r => r.kind = kind).map fun r => (r.tag, r.subject)

theorem ofKind_concat_self (requests : List TagRequest) (r : TagRequest) :
    ofKind r.kind (requests ++ [r]) = ofKind r.kind requests ++ [(r.tag, r.subject)] := by
  simp [ofKind]

theorem ofKind_concat_of_ne {kind : TagKind} (requests : List TagRequest) {r : TagRequest}
    (h : r.kind ≠ kind) : ofKind kind (requests ++ [r]) = ofKind kind requests := by
  simp [ofKind, h]

end TagRequest

/-- The pool of a kind before any request. -/
def TagConfig.pool (config : TagConfig) : TagKind → TagPool
  | .notification => .new .notification config.notificationMin config.maxTag
  | .reverse => .new .reverse config.reverseMin config.maxTag

theorem TagConfig.exists_pool_eq_new (config : TagConfig) (kind : TagKind) :
    ∃ min, config.pool kind = .new kind min config.maxTag := by
  cases kind with
  | notification => exact ⟨config.notificationMin, rfl⟩
  | reverse => exact ⟨config.reverseMin, rfl⟩

namespace TagAllocations

/-- The allocated tags of a kind. -/
def tagsOf (a : TagAllocations) : TagKind → List UInt32
  | .notification => a.notification.map NotificationTag.tag
  | .reverse => a.reverse.map ReverseTag.tag

end TagAllocations

namespace TagLedger

/-- The pool of a kind. -/
def pool (ledger : TagLedger) : TagKind → TagPool
  | .notification => ledger.notificationPool
  | .reverse => ledger.reversePool

/-- One request is served by the pool of its kind, and the other pool stays. -/
theorem serve_eq_ok {ledger ledger' : TagLedger} {r : TagRequest}
    (h : ledger.serve r = .ok ledger') :
    ∃ tag p', (ledger.pool r.kind).allocate r.tag r.subject = .ok (tag, p') ∧
      ledger'.pool r.kind = p' ∧
      ledger'.allocations.tagsOf r.kind = ledger.allocations.tagsOf r.kind ++ [tag] ∧
      ∀ kind, r.kind ≠ kind → ledger'.pool kind = ledger.pool kind ∧
        ledger'.allocations.tagsOf kind = ledger.allocations.tagsOf kind := by
  unfold serve at h
  unfold TagRequest.kind
  cases hr : r.target with
  | host host port =>
      rw [hr] at h
      obtain ⟨⟨tag, p'⟩, hok, h⟩ := bind_eq_ok_iff.1 h
      obtain rfl := Except.ok.inj h
      refine ⟨tag, p', hok, rfl, by simp [TagAllocations.tagsOf], ?_⟩
      intro kind hne
      cases kind with
      | notification => exact absurd rfl hne
      | reverse => exact ⟨rfl, rfl⟩
  | core port destination =>
      rw [hr] at h
      obtain ⟨⟨tag, p'⟩, hok, h⟩ := bind_eq_ok_iff.1 h
      obtain rfl := Except.ok.inj h
      refine ⟨tag, p', hok, rfl, by simp [TagAllocations.tagsOf], ?_⟩
      intro kind hne
      cases kind with
      | notification => exact ⟨rfl, rfl⟩
      | reverse => exact absurd rfl hne

/-- Each pool is what the requests of its kind make of it, and the allocated tags are those that it
    handed out. -/
structure Serves (ledger : TagLedger) (config : TagConfig) (requests : List TagRequest) : Prop where
  pool_eq : ∀ kind, ledger.pool kind = (config.pool kind).afterAll (TagRequest.ofKind kind requests)
  tags_eq : ∀ kind, ledger.allocations.tagsOf kind
    = (config.pool kind).grants (TagRequest.ofKind kind requests)

theorem serves_start (config : TagConfig) : (start config).Serves config [] where
  pool_eq := by rintro (_ | _) <;> rfl
  tags_eq := by rintro (_ | _) <;> rfl

theorem Serves.serve {ledger ledger' : TagLedger} {config : TagConfig} {requests : List TagRequest}
    (h : ledger.Serves config requests) {r : TagRequest} (hr : ledger.serve r = .ok ledger') :
    ledger'.Serves config (requests ++ [r]) := by
  obtain ⟨tag, p', hok, hpool, htags, hother⟩ := serve_eq_ok hr
  rw [h.pool_eq] at hok
  constructor
  · intro kind
    by_cases hkind : r.kind = kind
    · subst hkind
      rw [TagRequest.ofKind_concat_self, TagPool.afterAll_append, hpool]
      simp [TagPool.afterAll, hok]
    · rw [TagRequest.ofKind_concat_of_ne requests hkind, (hother kind hkind).1, h.pool_eq]
  · intro kind
    by_cases hkind : r.kind = kind
    · subst hkind
      rw [TagRequest.ofKind_concat_self, TagPool.grants_append, htags, h.tags_eq]
      simp [TagPool.grants, hok]
    · rw [TagRequest.ofKind_concat_of_ne requests hkind, (hother kind hkind).2, h.tags_eq]

end TagLedger

/-! ## The tags of a graph -/

namespace ApplicationGraph

variable {g : ApplicationGraph} {p : PartitionedGraph} {placements : Placements}
  {config : TagConfig} {a : TagAllocations}

/-- The tags of a graph are those that the pools hand out to its requests. -/
theorem allocateTags_eq_ok (h : g.allocateTags p placements config = .ok a) :
    ∃ requests, g.tagRequests p placements = .ok requests ∧ ∀ kind, a.tagsOf kind
      = (config.pool kind).grants (TagRequest.ofKind kind (servingOrder requests)) := by
  obtain ⟨requests, hrequests, h⟩ := bind_eq_ok_iff.1 h
  obtain ⟨ledger, hledger, h⟩ := bind_eq_ok_iff.1 h
  obtain rfl := Except.ok.inj h
  have hserves := foldlM_ok_induction (fun done ledger => TagLedger.Serves ledger config done)
    (fun _ _ _ _ hdone hr => hdone.serve hr) (TagLedger.serves_start config) hledger
  exact ⟨requests, hrequests, hserves.tags_eq⟩

/-- A unit of a graph asks for any tag of a kind after another one got the last tag. -/
def AsksBeyond (g : ApplicationGraph) (p : PartitionedGraph) (placements : Placements)
    (config : TagConfig) (kind : TagKind) : Prop :=
  ∃ requests, g.tagRequests p placements = .ok requests ∧
    (config.pool kind).AsksBeyond (TagRequest.ofKind kind (servingOrder requests))

/-- The units hold distinct tags exactly if none asks for any tag after another one got the last. -/
theorem nodup_tagsOf_iff (h : g.allocateTags p placements config = .ok a) (kind : TagKind) :
    (a.tagsOf kind).Nodup ↔ ¬ g.AsksBeyond p placements config kind := by
  obtain ⟨requests, hrequests, htags⟩ := allocateTags_eq_ok h
  obtain ⟨min, hpool⟩ := config.exists_pool_eq_new kind
  rw [htags kind, hpool, TagPool.nodup_grants_iff, ← hpool, not_iff_not]
  constructor
  · intro hasks
    exact ⟨requests, hrequests, hasks⟩
  · rintro ⟨requests', hrequests', hasks⟩
    obtain rfl : requests = requests' := Except.ok.inj (hrequests.symm.trans hrequests')
    exact hasks

/-- Two units hold the same tag only if it is the last one, and then only if the pool reaches up to
    it. -/
theorem pairwise_tagsOf (h : g.allocateTags p placements config = .ok a) (kind : TagKind) :
    (a.tagsOf kind).Pairwise (fun s t => s = t → t = TagPool.lastTag ∧ config.maxTag = t) := by
  obtain ⟨requests, -, htags⟩ := allocateTags_eq_ok h
  obtain ⟨min, hpool⟩ := config.exists_pool_eq_new kind
  rw [htags kind, hpool]
  refine (TagPool.pairwise_grants kind min config.maxTag _).imp_of_mem ?_
  intro s t _ ht hlast hst
  have hmax := TagPool.grants_le_max ht
  rw [hlast hst] at hmax ⊢
  exact ⟨rfl, TagPool.eq_lastTag_of_le hmax⟩

end ApplicationGraph

/-- **Only the last tag is handed out twice.** The tags that a pool hands out are distinct, unless
    somebody asks for any tag after the last tag of a word was handed out; requests that fail leave
    the pool as it was. The units of a graph hold the tags that its requests get, one kind after the
    other. So two of them hold the same tag of a pool only if it is the last one, and only if the
    configuration lets the pool reach up to it. -/
theorem tags_distinct_up_to_last (kind : TagKind) (min max : UInt32)
    (requests : List TagPool.Request) :
    (((TagPool.new kind min max).grants requests).Nodup ↔
      ¬ (TagPool.new kind min max).AsksBeyond requests) ∧
    (TagPool.new kind min max).afterAll requests
      = ((TagPool.new kind min max).grants requests).foldl TagPool.handOut (.new kind min max) ∧
    ∀ (g : ApplicationGraph) p placements config a, g.allocateTags p placements config = .ok a →
      ((a.tagsOf kind).Nodup ↔ ¬ g.AsksBeyond p placements config kind) ∧
      (a.tagsOf kind).Pairwise fun s t => s = t → t = TagPool.lastTag ∧ config.maxTag = t :=
  ⟨TagPool.nodup_grants_iff, TagPool.afterAll_eq_foldl _ requests,
    fun _ _ _ _ _ h => ⟨ApplicationGraph.nodup_tagsOf_iff h kind,
      ApplicationGraph.pairwise_tagsOf h kind⟩⟩

/-- A unit that asks for any notification tag, and one that asks for a certain one. -/
def taggedPair (tag : UInt32) : ApplicationGraph where
  units :=
    let model : UnitModel := .linear ⟨"model", .zero, ⟨1, 1, 1⟩, 4⟩
    [{ label := "any", atoms := 1, model, notificationTag := some ⟨none, "host", 80⟩ },
      { label := "certain", atoms := 1, model, notificationTag := some ⟨some tag, "host", 81⟩ }]
  connections := []

theorem taggedPair_distinct : ∃ a, (taggedPair 4).allocateTags .empty .empty {} = .ok a ∧
    a.tagsOf .notification = [4, 5] ∧
    ((a.tagsOf .notification).Nodup ↔ ¬ (taggedPair 4).AsksBeyond .empty .empty {} .notification) ∧
    (a.tagsOf .notification).Pairwise fun s t =>
      s = t → t = TagPool.lastTag ∧ ({} : TagConfig).maxTag = t := by
  obtain ⟨a, h⟩ := exists_eq_ok_of_isOk
    (by decide +kernel : ((taggedPair 4).allocateTags .empty .empty {}).isOk = true)
  have htags : ((taggedPair 4).allocateTags .empty .empty {}).toOption.map
      (fun a => a.tagsOf .notification) = some [4, 5] := by decide +kernel
  rw [h] at htags
  exact ⟨a, h, Option.some.inj htags,
    (tags_distinct_up_to_last .notification 0 0 []).2.2 _ _ _ _ a h⟩

/-- The last tag, which one unit asks for, is handed out to the other unit too. -/
theorem lastTag_held_twice : ∃ a,
    (taggedPair TagPool.lastTag).allocateTags .empty .empty { maxTag := TagPool.lastTag } = .ok a ∧
    ¬ (a.tagsOf .notification).Nodup := by
  obtain ⟨a, h⟩ := exists_eq_ok_of_isOk
    (by decide +kernel : ((taggedPair TagPool.lastTag).allocateTags
      .empty .empty { maxTag := TagPool.lastTag }).isOk = true)
  have htags : ((taggedPair TagPool.lastTag).allocateTags .empty .empty
      { maxTag := TagPool.lastTag }).toOption.map (fun a => a.tagsOf .notification)
        = some [TagPool.lastTag, TagPool.lastTag] := by decide +kernel
  rw [h] at htags
  have htwice : a.tagsOf .notification = [TagPool.lastTag, TagPool.lastTag] := Option.some.inj htags
  exact ⟨a, h, by simp [htwice]⟩

end SpikeMesh
