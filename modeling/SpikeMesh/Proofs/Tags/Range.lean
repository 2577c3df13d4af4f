import SpikeMesh.Proofs.Tags.Pool

set_option autoImplicit false

/-! # Between which bounds the tags of a pool lie

A pool hands out no tag above its largest one, and to a request that names no tag none below its
first one either. A request that names its tag is compared with the largest one only: it gets the
tag if nobody has it, even one below the first. So the tags of a pool lie within its bounds exactly
if no request names a tag below the first one that is not above the largest
(`TagPool.grants_inRange_iff`). -/

namespace SpikeMesh

namespace TagPool

variable {p p' : TagPool} {kind : TagKind} {min max tag named : UInt32} {who : String}
  {requests : List Request}

/-! ## What one request gets -/

/-- The tag for a request that names none is not below the first one. -/
theorem min_le_nextTag (p : TagPool) : p.min ≤ p.nextTag := by
  unfold nextTag
  split
  · exact right_le_max _ _
  · exact UInt32.le_refl _

theorem min_afterAll (p : TagPool) (requests : List Request) : (p.afterAll requests).min = p.min :=
  afterAll_keeps TagPool.min (fun _ _ => rfl) p requests

/-- A request that names no tag gets one within the bounds. -/
theorem inRange_of_unnamed (h : p.allocate none who = .ok (tag, p')) :
    p.min ≤ tag ∧ tag ≤ p.max := by
  obtain ⟨-, hmax, ⟨hnamed, -⟩ | ⟨-, rfl⟩⟩ := allocate_eq_ok (r := (none, who)) h
  · exact absurd hnamed (by simp)
  · exact ⟨p.min_le_nextTag, hmax⟩

/-- A request gets the tag that it names, unless somebody has it or it is above the largest. -/
theorem allocate_named (hfree : named ∉ p.used) (hmax : named ≤ p.max) (who : String) :
    p.allocate (some named) who = .ok (named, p.handOut named) := by
  have htag : p.explicitTag named who = .ok named := by
    rw [explicitTag, if_neg (by simpa using hfree), if_neg (UInt32.not_lt.2 hmax)]
  simp [allocate, htag, ok_bind, pure_eq_ok]

/-! ## What requests get one after the other -/

/-- A tag below the first one goes to a request that names it. -/
theorem named_or_min_le (h : tag ∈ p.grants requests) :
    (∃ who, (some tag, who) ∈ requests) ∨ p.min ≤ tag := by
  induction requests generalizing p with
  | nil => simp [grants] at h
  | cons r rest ih =>
      -- what the requests after this one get, they get from a pool with the same first tag
      have hlater : ∀ p' : TagPool, p'.min = p.min → tag ∈ p'.grants rest →
          (∃ who, (some tag, who) ∈ r :: rest) ∨ p.min ≤ tag := by
        intro p' hmin htag
        rw [← hmin]
        exact (ih htag).imp_left (Exists.imp fun who hwho => List.mem_cons_of_mem r hwho)
      cases hr : p.allocate r.1 r.2 with
      | error e =>
          simp only [grants, hr] at h
          exact hlater p rfl h
      | ok granted =>
          obtain ⟨first, p'⟩ := granted
          simp only [grants, hr] at h
          obtain ⟨rfl, -, hfirst⟩ := allocate_eq_ok hr
          rcases List.mem_cons.1 h with rfl | h
          · rcases hfirst with ⟨hnamed, -⟩ | ⟨-, rfl⟩
            · exact .inl ⟨r.2, by simp [← hnamed]⟩
            · exact .inr p.min_le_nextTag
          · exact hlater (p.handOut first) rfl h

/-- A tag that somebody names is handed out sooner or later, unless it is above the largest. -/
theorem mem_grants_of_named (hnamed : (some named, who) ∈ requests) (hmax : named ≤ max) :
    named ∈ (new kind min max).grants requests := by
  obtain ⟨before, after, rfl⟩ := List.append_of_mem hnamed
  rw [grants_append, List.mem_append]
  by_cases hbefore : named ∈ (new kind min max).grants before
  · exact .inl hbefore
  · have hfree : named ∉ ((new kind min max).afterAll before).used := fun hused =>
      hbefore (((handedOut_afterAll kind min max before).mem_used_iff named).1 hused)
    have hok := allocate_named hfree (by rwa [max_afterAll]) who
    exact .inr (by simp [grants, hok])

/-- **Only tags that are named leave the bounds of a pool, and only downwards.** All tags that a
    pool hands out lie within its bounds exactly if every tag that a request names lies there or is
    above the largest. No tag is above the largest; a request that names none always gets a tag
    within the bounds; and one that names a tag which is not above the largest, and which nobody
    has, gets it, however low it is. -/
theorem grants_inRange_iff (kind : TagKind) (min max : UInt32) (requests : List Request) :
    ((∀ tag ∈ (new kind min max).grants requests, min ≤ tag ∧ tag ≤ max) ↔
      ∀ named who, (some named, who) ∈ requests → named ≤ max → min ≤ named) ∧
    (∀ tag ∈ (new kind min max).grants requests, tag ≤ max) ∧
    (∀ who tag p', ((new kind min max).afterAll requests).allocate none who = .ok (tag, p') →
      min ≤ tag ∧ tag ≤ max) ∧
    ∀ named who, named ≤ max → named ∉ (new kind min max).grants requests →
      ∃ p', ((new kind min max).afterAll requests).allocate (some named) who = .ok (named, p') := by
  refine ⟨⟨?_, ?_⟩, fun tag htag => grants_le_max htag, ?_, ?_⟩
  · intro hrange named who hnamed hmax
    exact (hrange named (mem_grants_of_named hnamed hmax)).1
  · intro hnamed tag htag
    have hmax := grants_le_max htag
    refine ⟨?_, hmax⟩
    rcases named_or_min_le htag with ⟨who, hwho⟩ | hmin
    · exact hnamed tag who hwho hmax
    · exact hmin
  · intro who tag p' hok
    have hrange := inRange_of_unnamed hok
    rwa [min_afterAll, max_afterAll] at hrange
  · intro named who hmax hnew
    have hfree : named ∉ ((new kind min max).afterAll requests).used := fun hused =>
      hnew (((handedOut_afterAll kind min max requests).mem_used_iff named).1 hused)
    exact ⟨_, allocate_named hfree (by rwa [max_afterAll]) who⟩

/-- A pool from 3 to 7 of which somebody asks for tag 5, and somebody else for any tag. -/
theorem grants_inRange_of_five : (new .reverse 3 7).grants [(some 5, "a"), (none, "b")] = [5, 6] ∧
    ∀ tag ∈ (new .reverse 3 7).grants [(some 5, "a"), (none, "b")], 3 ≤ tag ∧ tag ≤ 7 := by
  refine ⟨by decide +kernel, (grants_inRange_iff .reverse 3 7 _).1.2 ?_⟩
  intro named who hnamed _
  obtain ⟨rfl, -⟩ : named = 5 ∧ who = "a" := by simpa using hnamed
  decide

/-- A pool from 3 to 7 hands out tag 1 to somebody who asks for it. -/
theorem grants_one_below_three : (new .notification 3 7).grants [(some 1, "a")] = [1] ∧
    ¬ ∀ tag ∈ (new .notification 3 7).grants [(some 1, "a")], 3 ≤ tag ∧ tag ≤ 7 := by
  have hgrants : (new .notification 3 7).grants [(some 1, "a")] = [1] := by decide +kernel
  refine ⟨hgrants, fun hrange => ?_⟩
  exact absurd (hrange 1 (by rw [hgrants]; exact List.mem_singleton_self 1)).1 (by decide)

end TagPool

end SpikeMesh
