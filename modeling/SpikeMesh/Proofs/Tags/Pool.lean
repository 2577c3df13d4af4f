import Mathlib.Algebra.Group.Nat.Defs
import Mathlib.Data.List.Induction
import Mathlib.Data.List.Nodup
import SpikeMesh.Proofs.Fallible
import SpikeMesh.Tags.Pool

set_option autoImplicit false

/-! # Which tags a pool hands out

A pool keeps the tags that it has handed out, and the highest of them. A request that names a tag is
compared with all of them. A request that names none is compared with the highest only: it gets a
tag above it, which therefore nobody has. There is no tag above the last one that a word holds, so a
pool that reaches up to it hands it out again to every request that names none
(`TagPool.nodup_grants_iff`). Any other pool hands out no tag twice. -/

namespace SpikeMesh

namespace TagPool

/-- The last tag that a word holds. -/
def lastTag : UInt32 := 0xffffffff

theorem toNat_lastTag : lastTag.toNat = 2 ^ 32 - 1 := rfl

theorem le_lastTag (tag : UInt32) : tag ≤ lastTag := by
  have := tag.toNat_lt
  rw [UInt32.le_iff_toNat_le, toNat_lastTag]
  omega

theorem eq_lastTag_of_le {tag : UInt32} (h : lastTag ≤ tag) : tag = lastTag :=
  UInt32.le_antisymm (le_lastTag tag) h

theorem left_le_max (a b : UInt32) : a ≤ Max.max a b := by
  show a ≤ if a ≤ b then b else a
  split
  · assumption
  · exact UInt32.le_refl a

theorem right_le_max (a b : UInt32) : b ≤ Max.max a b := by
  show b ≤ if a ≤ b then b else a
  split
  · exact UInt32.le_refl b
  · next h => exact UInt32.le_of_lt (UInt32.not_le.1 h)

theorem max_eq_or (a b : UInt32) : Max.max a b = a ∨ Max.max a b = b := by
  show (if a ≤ b then b else a) = a ∨ (if a ≤ b then b else a) = b
  split
  · exact .inr rfl
  · exact .inl rfl

/-! ## Requests one after the other -/

/-- A request to a pool: the tag that it names, if any, and who asks. -/
abbrev Request := Option UInt32 × String

/-- The pool after requests; one that fails leaves it as it was. -/
def afterAll (p : TagPool) : List Request → TagPool
  | [] => p
  | r :: rest =>
    match p.allocate r.1 r.2 with
    | .ok (_, p') => p'.afterAll rest
    | .error _ => p.afterAll rest

/-- The tags that requests get, in the order of the requests. -/
def grants (p : TagPool) : List Request → List UInt32
  | [] => []
  | r :: rest =>
    match p.allocate r.1 r.2 with
    | .ok (tag, p') => tag :: p'.grants rest
    | .error _ => p.grants rest

theorem afterAll_append (p : TagPool) (front back : List Request) :
    p.afterAll (front ++ back) = (p.afterAll front).afterAll back := by
  induction front generalizing p with
  | nil => rfl
  | cons r front ih =>
      simp only [List.cons_append, afterAll]
      split <;> exact ih _

theorem grants_append (p : TagPool) (front back : List Request) :
    p.grants (front ++ back) = p.grants front ++ (p.afterAll front).grants back := by
  induction front generalizing p with
  | nil => rfl
  | cons r front ih =>
      simp only [List.cons_append, grants, afterAll]
      split
      · rw [ih, List.cons_append]
      · exact ih p

/-! ## One request -/

variable {p p' : TagPool} {tags : List UInt32} {r : Request} {tag : UInt32}

theorem allocate_eq_ok (h : p.allocate r.1 r.2 = .ok (tag, p')) :
    p' = p.handOut tag ∧ tag ≤ p.max ∧
      ((r.1 = some tag ∧ tag ∉ p.used) ∨ (r.1 = none ∧ tag = p.nextTag)) := by
  unfold allocate at h
  cases hr : r.1 with
  | some named =>
      rw [hr] at h
      obtain ⟨tag', htag, h⟩ := bind_eq_ok_iff.1 h
      obtain ⟨rfl, rfl⟩ := Prod.mk.inj (Except.ok.inj h)
      unfold explicitTag at htag
      split at htag
      · contradiction
      · next hfree =>
          split at htag
          · contradiction
          · next hmax =>
              obtain rfl := Except.ok.inj htag
              exact ⟨rfl, UInt32.not_lt.1 hmax, .inl ⟨rfl, by simpa using hfree⟩⟩
  | none =>
      rw [hr] at h
      obtain ⟨tag', htag, h⟩ := bind_eq_ok_iff.1 h
      obtain ⟨rfl, rfl⟩ := Prod.mk.inj (Except.ok.inj h)
      unfold automaticTag at htag
      split at htag
      · contradiction
      · next hmax =>
          obtain rfl := Except.ok.inj htag
          exact ⟨rfl, UInt32.not_lt.1 hmax, .inr ⟨rfl, rfl⟩⟩

/-- Requests that fail leave no trace: a pool is what the tags that it handed out made of it. -/
theorem afterAll_eq_foldl (p : TagPool) (requests : List Request) :
    p.afterAll requests = (p.grants requests).foldl handOut p := by
  induction requests generalizing p with
  | nil => rfl
  | cons r rest ih =>
      simp only [afterAll, grants]
      cases h : p.allocate r.1 r.2 with
      | error e => exact ih p
      | ok granted =>
          obtain ⟨tag, p'⟩ := granted
          obtain ⟨rfl, -⟩ := allocate_eq_ok h
          exact ih _

/-! ## What a pool knows of the tags that it handed out -/

/-- A pool has handed out some tags, and no others. -/
structure HandedOut (p : TagPool) (tags : List UInt32) : Prop where
  mem_used_iff : ∀ tag, tag ∈ p.used ↔ tag ∈ tags
  le_max : ∀ tag ∈ tags, tag ≤ p.max
  highest_mem : ∀ h, p.highest = some h → h ∈ tags
  le_highest : ∀ tag ∈ tags, ∃ h, p.highest = some h ∧ tag ≤ h

theorem handedOut_new (kind : TagKind) (min max : UInt32) : (new kind min max).HandedOut [] where
  mem_used_iff := by simp [new]
  le_max := by simp
  highest_mem := by simp [new]
  le_highest := by simp

/-- The highest tag after one more was handed out is this one or the highest one before. -/
theorem highest_handOut (p : TagPool) (tag : UInt32) : ∃ h, (p.handOut tag).highest = some h ∧
    tag ≤ h ∧ (h = tag ∨ p.highest = some h) ∧ ∀ h', p.highest = some h' → h' ≤ h := by
  cases hp : p.highest with
  | none => exact ⟨tag, by simp [handOut, hp], UInt32.le_refl tag, .inl rfl, by simp⟩
  | some h =>
      refine ⟨Max.max h tag, by simp [handOut, hp], right_le_max h tag, ?_, ?_⟩
      · rcases max_eq_or h tag with heq | heq
        · exact .inr (congrArg some heq.symm)
        · exact .inl heq
      · rintro h' ⟨⟩
        exact left_le_max h tag

theorem HandedOut.handOut (h : p.HandedOut tags) (hmax : tag ≤ p.max) :
    (p.handOut tag).HandedOut (tags ++ [tag]) := by
  obtain ⟨top, htop, hle, hfrom, habove⟩ := p.highest_handOut tag
  constructor
  · intro t
    show t ∈ p.used.insert tag ↔ _
    rw [Std.ExtTreeSet.mem_insert, Std.LawfulEqCmp.compare_eq_iff_eq, h.mem_used_iff]
    simp [or_comm, eq_comm]
  · intro t ht
    rcases List.mem_append.1 ht with ht | ht
    · exact h.le_max t ht
    · rw [List.mem_singleton.1 ht]
      exact hmax
  · intro t ht
    obtain rfl : top = t := Option.some.inj (htop.symm.trans ht)
    rcases hfrom with rfl | hbefore
    · simp
    · exact List.mem_append_left _ (h.highest_mem top hbefore)
  · intro t ht
    refine ⟨top, htop, ?_⟩
    rcases List.mem_append.1 ht with ht | ht
    · obtain ⟨before, hbefore, hlt⟩ := h.le_highest t ht
      exact UInt32.le_trans hlt (habove before hbefore)
    · rwa [List.mem_singleton.1 ht]

theorem handedOut_afterAll (kind : TagKind) (min max : UInt32) (requests : List Request) :
    ((new kind min max).afterAll requests).HandedOut ((new kind min max).grants requests) := by
  suffices hfrom : ∀ (p : TagPool) (tags : List UInt32), p.HandedOut tags →
      (p.afterAll requests).HandedOut (tags ++ p.grants requests) from
    hfrom _ [] (handedOut_new kind min max)
  induction requests with
  | nil =>
      intro p tags h
      simpa [grants, afterAll] using h
  | cons r rest ih =>
      intro p tags h
      cases hr : p.allocate r.1 r.2 with
      | error e =>
          simp only [grants, afterAll, hr]
          exact ih p tags h
      | ok granted =>
          obtain ⟨tag, p'⟩ := granted
          obtain ⟨rfl, hmax, -⟩ := allocate_eq_ok hr
          have := ih _ _ (h.handOut hmax)
          simpa [grants, afterAll, hr] using this

/-! ## The tag of the next request -/

/-- The next tag is above the highest one, unless that is the last tag. -/
theorem lt_nextTag {h : UInt32} (hp : p.highest = some h) (hlast : h ≠ lastTag) :
    h < p.nextTag := by
  have hne : h.toNat ≠ 2 ^ 32 - 1 := fun heq => hlast (UInt32.toNat_inj.1 heq)
  have hlt := h.toNat_lt
  have habove : h < UInt32.ofNat (Min.min (h.toNat + 1) (UInt32.size - 1)) := by
    rw [UInt32.lt_iff_toNat_lt, UInt32.toNat_ofNat', UInt32.size]
    omega
  simp only [nextTag, hp]
  exact UInt32.lt_of_lt_of_le habove (left_le_max _ _)

/-- After the last tag there is no other. -/
theorem nextTag_eq_lastTag (hp : p.highest = some lastTag) : p.nextTag = lastTag := by
  refine eq_lastTag_of_le ?_
  simp only [nextTag, hp]
  exact left_le_max _ _

namespace HandedOut

theorem highest_eq_lastTag (h : p.HandedOut tags) (hlast : lastTag ∈ tags) :
    p.highest = some lastTag := by
  obtain ⟨top, htop, hle⟩ := h.le_highest lastTag hlast
  rw [htop, eq_lastTag_of_le hle]

/-- A tag that is handed out was not handed out before, unless it is the last one and the request
    names none. -/
theorem fresh (h : p.HandedOut tags) (hok : p.allocate r.1 r.2 = .ok (tag, p')) :
    tag ∉ tags ∨ (r.1 = none ∧ lastTag ∈ tags ∧ tag = lastTag) := by
  obtain ⟨-, -, ⟨-, hfree⟩ | ⟨hnone, rfl⟩⟩ := allocate_eq_ok hok
  · exact .inl (fun hmem => hfree ((h.mem_used_iff tag).2 hmem))
  · by_cases hlast : lastTag ∈ tags
    · exact .inr ⟨hnone, hlast, nextTag_eq_lastTag (h.highest_eq_lastTag hlast)⟩
    · refine .inl (fun hmem => ?_)
      obtain ⟨top, htop, hle⟩ := h.le_highest p.nextTag hmem
      have hne : top ≠ lastTag := fun heq => hlast (heq ▸ h.highest_mem top htop)
      exact UInt32.not_lt.2 hle (lt_nextTag htop hne)

/-- When the last tag is handed out, a request that names none gets it too. -/
theorem grants_lastTag (h : p.HandedOut tags) (hlast : lastTag ∈ tags) (hnone : r.1 = none) :
    p.grants [r] = [lastTag] := by
  have hauto : p.automaticTag = .ok lastTag := by
    rw [automaticTag, nextTag_eq_lastTag (h.highest_eq_lastTag hlast),
      if_neg (UInt32.not_lt.2 (h.le_max lastTag hlast))]
  simp [grants, allocate, hnone, hauto, ok_bind, pure_eq_ok]

end HandedOut

/-! ## Tags that are handed out twice -/

/-- A request that names no tag comes after the last tag was handed out. -/
def AsksBeyond (p : TagPool) (requests : List Request) : Prop :=
  ∃ before r after, requests = before ++ r :: after ∧ r.1 = none ∧ lastTag ∈ p.grants before

variable {kind : TagKind} {min max : UInt32} {requests : List Request}

/-- What no grant changes is the same after any requests. -/
theorem afterAll_keeps {β : Type} (part : TagPool → β)
    (h : ∀ (p : TagPool) (tag : UInt32), part (p.handOut tag) = part p) (p : TagPool)
    (requests : List Request) : part (p.afterAll requests) = part p := by
  rw [afterAll_eq_foldl]
  generalize p.grants requests = tags
  induction tags generalizing p with
  | nil => rfl
  | cons tag rest ih => exact (ih (p.handOut tag)).trans (h p tag)

theorem max_afterAll (p : TagPool) (requests : List Request) : (p.afterAll requests).max = p.max :=
  afterAll_keeps TagPool.max (fun _ _ => rfl) p requests

theorem kind_afterAll (p : TagPool) (requests : List Request) :
    (p.afterAll requests).kind = p.kind :=
  afterAll_keeps TagPool.kind (fun _ _ => rfl) p requests

theorem grants_le_max (htag : tag ∈ (new kind min max).grants requests) : tag ≤ max := by
  have := (handedOut_afterAll kind min max requests).le_max tag htag
  rwa [max_afterAll] at this

/-- One more request gets nothing, or a tag that nobody has, or the last tag again. -/
theorem grants_concat_cases (kind : TagKind) (min max : UInt32) (requests : List Request)
    (r : Request) :
    (new kind min max).grants (requests ++ [r]) = (new kind min max).grants requests ∨
    ∃ tag, (new kind min max).grants (requests ++ [r])
        = (new kind min max).grants requests ++ [tag] ∧
      (tag ∉ (new kind min max).grants requests ∨
        (r.1 = none ∧ lastTag ∈ (new kind min max).grants requests ∧ tag = lastTag)) := by
  have h := handedOut_afterAll kind min max requests
  rw [grants_append]
  cases hr : ((new kind min max).afterAll requests).allocate r.1 r.2 with
  | error e => exact .inl (by simp [grants, hr])
  | ok granted => exact .inr ⟨granted.1, by simp [grants, hr], h.fresh hr⟩

/-- No tag but the last one is handed out twice. -/
theorem pairwise_grants (kind : TagKind) (min max : UInt32) (requests : List Request) :
    ((new kind min max).grants requests).Pairwise (fun s t => s = t → t = lastTag) := by
  induction requests using List.reverseRecOn with
  | nil => exact .nil
  | append_singleton requests r ih =>
      rcases grants_concat_cases kind min max requests r with heq | ⟨tag, heq, hfresh⟩
      · rwa [heq]
      · rw [heq, List.pairwise_append]
        refine ⟨ih, List.pairwise_singleton _ _, ?_⟩
        rintro s hs t ht rfl
        obtain rfl := List.mem_singleton.1 ht
        rcases hfresh with hfree | ⟨-, -, hlast⟩
        · exact absurd hs hfree
        · exact hlast

/-- The tags are distinct exactly if nobody asks for one after the last one was handed out. -/
theorem nodup_grants_iff : ((new kind min max).grants requests).Nodup ↔
    ¬ (new kind min max).AsksBeyond requests := by
  constructor
  · rintro hnodup ⟨before, r, after, rfl, hnone, hlast⟩
    have h := handedOut_afterAll kind min max before
    rw [List.append_cons, grants_append, grants_append, h.grants_lastTag hlast hnone] at hnodup
    have htwice := List.nodup_append.1 (List.nodup_append.1 hnodup).1
    exact htwice.2.2 lastTag hlast lastTag (List.mem_singleton_self _) rfl
  · intro hnot
    induction requests using List.reverseRecOn with
    | nil => exact List.nodup_nil
    | append_singleton requests r ih =>
        have hfirst := ih (fun ⟨before, r', after, hsplit, hnone, hlast⟩ =>
          hnot ⟨before, r', after ++ [r], by simp [hsplit], hnone, hlast⟩)
        rcases grants_concat_cases kind min max requests r with heq | ⟨tag, heq, hfresh⟩
        · rwa [heq]
        · rw [heq, List.nodup_append]
          refine ⟨hfirst, List.nodup_singleton tag, ?_⟩
          rintro s hs t ht rfl
          obtain rfl := List.mem_singleton.1 ht
          rcases hfresh with hfree | ⟨hnone, hlast, -⟩
          · exact hfree hs
          · exact hnot ⟨requests, r, [], rfl, hnone, hlast⟩

end TagPool

end SpikeMesh
