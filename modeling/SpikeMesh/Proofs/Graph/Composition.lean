import Mathlib.Data.List.Induction
import SpikeMesh.Proofs.Bytes
import SpikeMesh.Proofs.Collections
import SpikeMesh.Proofs.Fallible
import SpikeMesh.Lists

set_option autoImplicit false

/-! # Parameters of composed models

A composed model finds the component that declares a parameter in an index that is built once, from
the components it is made of. The index tells the truth about these components
(`ComposedModel.Indexed`), and as setting a parameter changes values only, never which component
declares what, it still does after any number of settings. So every model that was made of
components answers for them: a parameter has the value that was set last, and setting it changes
nothing else (`ComposedModel.parameters_consistent`).

The state of a model is made of fields of eight bytes. Which parameter each of them holds follows
from the names alone (`ParameterBlock.layout`), and so is the same before and after a setting. -/

namespace SpikeMesh

/-! ## Fields of bytes -/

section Fields

variable {α : Type} {encode : α → List UInt8}

/-- The eight bytes of the field at a position. -/
def byteField (bytes : List UInt8) (i : Nat) : List UInt8 := (bytes.drop (8 * i)).take 8

@[simp] theorem length_littleEndian64 (n : UInt64) : (littleEndian64 n).length = 8 := rfl

/-- The fields of items in a row hold the items. -/
theorem byteField_flatMap (hwidth : ∀ a, (encode a).length = 8) (items : List α) (i : Nat) :
    byteField (items.flatMap encode) i = (items[i]?.map encode).getD [] := by
  induction items generalizing i with
  | nil => simp [byteField]
  | cons a rest ih =>
      cases i with
      | zero => simp [byteField, ← hwidth a]
      | succ i =>
          rw [List.getElem?_cons_succ, ← ih i, byteField, byteField, List.flatMap_cons,
            show 8 * (i + 1) = (encode a).length + 8 * i by rw [hwidth]; omega,
            List.drop_append, List.drop_eq_nil_of_le (by omega), List.nil_append,
            Nat.add_sub_cancel_left]

end Fields

/-! ## Components -/

namespace ParameterBlock

variable {b : ParameterBlock} {p q : String} {value : Float}

theorem declares_iff : b.declares p = true ↔ ∃ v, b.parameters[p]? = some v := by
  rw [declares, Std.ExtTreeMap.contains_eq_isSome_getElem?, Option.isSome_iff_exists]

theorem mem_names : p ∈ b.names ↔ b.declares p = true := by
  rw [names, Std.ExtTreeMap.map_fst_toList_eq_keys, Std.ExtTreeMap.mem_keys, declares,
    Std.ExtTreeMap.mem_iff_contains]

/-- Names come in ascending order. -/
theorem names_ascending (b : ParameterBlock) : b.names.Pairwise fun p q => compare p q = .lt := by
  rw [names, Std.ExtTreeMap.map_fst_toList_eq_keys]
  exact b.parameters.ordered_keys

theorem names_nodup (b : ParameterBlock) : b.names.Nodup :=
  b.names_ascending.imp fun hlt heq => absurd hlt (by simp [heq])

/-- Two components that declare the same parameters list them in the same order. -/
theorem names_congr {b b' : ParameterBlock} (h : ∀ p, b.declares p = b'.declares p) :
    b.names = b'.names := by
  have hperm : b.names.Perm b'.names :=
    (List.perm_ext_iff_of_nodup b.names_nodup b'.names_nodup).2 fun p => by
      rw [mem_names, mem_names, h]
  refine hperm.eq_of_pairwise ?_ b.names_ascending b'.names_ascending
  intro p q _ _ hlt hgt
  exact absurd hlt (Std.OrientedCmp.not_lt_of_lt hgt)

/-- The component after a setting, which means nothing to it unless it declares the parameter. -/
def afterSetting (b : ParameterBlock) (setting : String × Float) : ParameterBlock :=
  (b.set? setting.1 setting.2).getD b

theorem afterSetting_eq (b : ParameterBlock) (setting : String × Float) : b.afterSetting setting =
    if b.declares setting.1 then
      { b with parameters := b.parameters.insert setting.1 setting.2 } else b := by
  unfold afterSetting set?
  split <;> rfl

/-- Whatever does not depend on the parameters stays as it is. -/
theorem afterSetting_keeps {α : Type} (f : ParameterBlock → α)
    (hf : ∀ b parameters, f { b with parameters := parameters } = f b) (b : ParameterBlock)
    (setting : String × Float) : f (b.afterSetting setting) = f b := by
  rw [afterSetting_eq]
  split
  · exact hf b _
  · rfl

theorem getElem?_afterSetting (b : ParameterBlock) (setting : String × Float) (q : String) :
    (b.afterSetting setting).parameters[q]? =
      b.parameters[q]?.map fun v => if setting.1 = q then setting.2 else v := by
  rw [afterSetting_eq]
  split
  case isTrue hdeclares =>
    rw [getElem?_insert_of_lawful]
    obtain ⟨v, hv⟩ := declares_iff.1 hdeclares
    by_cases hq : setting.1 = q
    · simp [← hq, hv]
    · simp [hq]
  case isFalse hdeclares =>
    by_cases hq : setting.1 = q
    · have hnone : b.parameters[q]? = none := by
        rw [Option.eq_none_iff_forall_not_mem]
        exact fun v hv => hdeclares (declares_iff.2 ⟨v, hq ▸ hv⟩)
      simp [hnone]
    · simp [hq]

@[simp] theorem declares_afterSetting (b : ParameterBlock) (setting : String × Float)
    (q : String) : (b.afterSetting setting).declares q = b.declares q := by
  simp only [declares, Std.ExtTreeMap.contains_eq_isSome_getElem?, getElem?_afterSetting,
    Option.isSome_map]

@[simp] theorem names_afterSetting (b : ParameterBlock) (setting : String × Float) :
    (b.afterSetting setting).names = b.names :=
  names_congr fun q => b.declares_afterSetting setting q

/-- The parameters in the fields of the state of some atoms: component by component, in each the
    names once for every atom. -/
def layout (components : List ParameterBlock) (atoms : AtomRange) : List String :=
  components.flatMap fun b => atoms.atoms.flatMap fun _ => b.names

theorem length_layout (components : List ParameterBlock) (atoms : AtomRange) :
    (layout components atoms).length =
      atoms.atoms.length * total (fun b => b.names.length) components := by
  induction components with
  | nil => rfl
  | cons b rest ih =>
      have hcons : layout (b :: rest) atoms
          = (atoms.atoms.flatMap fun _ => b.names) ++ layout rest atoms := rfl
      rw [hcons, List.length_append, ih, total_cons, Nat.mul_add]
      simp [List.length_flatMap]

end ParameterBlock

namespace ComposedModel

open ParameterBlock (layout)

variable {m m' : ComposedModel} {components : List ParameterBlock} {p q : String}

/-! ## Building the index -/

/-- All declarations of parameters, each with the component that makes it and its position. -/
def declarations (components : List ParameterBlock) : List (String × ParameterBlock × Nat) :=
  components.zipIdx.flatMap fun e => e.1.names.map fun p => (p, e)

theorem mem_declarations {d : String × ParameterBlock × Nat} :
    d ∈ declarations components ↔ components[d.2.2]? = some d.2.1 ∧ d.2.1.declares d.1 = true := by
  obtain ⟨p, b, i⟩ := d
  simp only [declarations, List.mem_flatMap, List.mem_map, List.mem_zipIdx_iff_getElem?,
    ← ParameterBlock.mem_names]
  constructor
  · rintro ⟨e, he, q, hq, heq⟩
    obtain ⟨rfl, rfl⟩ := Prod.mk.inj heq
    exact ⟨he, hq⟩
  · intro h
    exact ⟨(b, i), h.1, p, h.2, rfl⟩

/-- Declarations are of different parameters if and only if no two components share one. -/
theorem declarations_pairwise_iff :
    (declarations components).Pairwise (fun c d => c.1 ≠ d.1) ↔
      components.Pairwise fun a b => ∀ p, ¬ (a.declares p = true ∧ b.declares p = true) := by
  have hown : ∀ e ∈ components.zipIdx,
      (e.1.names.map fun p => (p, e)).Pairwise fun c d => c.1 ≠ d.1 := by
    intro e _
    rw [List.pairwise_map]
    exact e.1.names_nodup
  rw [declarations, List.pairwise_flatMap, and_iff_right hown]
  conv_rhs => rw [← List.zipIdx_map_fst 0 components, List.pairwise_map]
  refine List.Pairwise.iff ?_
  intro e e'
  simp only [List.forall_mem_map, ParameterBlock.mem_names]
  constructor
  · intro h p hp
    exact h p hp.1 p hp.2 rfl
  · rintro h p hp q hq rfl
    exact h p ⟨hp, hq⟩

/-- The step of the index for a declaration. -/
def record (components : List ParameterBlock) (owners : Std.ExtTreeMap String Nat)
    (d : String × ParameterBlock × Nat) : Except GraphError (Std.ExtTreeMap String Nat) :=
  addOwner components d.2.1 d.2.2 owners d.1

/-- The index takes in the declarations one after the other. -/
theorem indexOwners_eq_foldlM (components : List ParameterBlock) :
    indexOwners components = (declarations components).foldlM (record components) ∅ := by
  have hfrom : ∀ (items : List (ParameterBlock × Nat)) (owners : Std.ExtTreeMap String Nat),
      items.foldlM (fun owners e => e.1.names.foldlM (addOwner components e.1 e.2) owners) owners
        = (items.flatMap fun e => e.1.names.map fun p => (p, e)).foldlM (record components)
            owners := by
    intro items
    induction items with
    | nil => intro owners; rfl
    | cons e rest ih =>
        intro owners
        simp only [List.foldlM_cons, List.flatMap_cons, List.foldlM_append, List.foldlM_map, ih]
        rfl
  exact hfrom _ _

/-- The index holds some declarations and no others. -/
def Recorded (done : List (String × ParameterBlock × Nat))
    (owners : Std.ExtTreeMap String Nat) : Prop :=
  ∀ p i, owners[p]? = some i ↔ ∃ b, (p, b, i) ∈ done

section Record

variable {done : List (String × ParameterBlock × Nat)} {owners owners' : Std.ExtTreeMap String Nat}
  {d : String × ParameterBlock × Nat}

/-- A declaration is taken in unless there is one of the same parameter. -/
theorem record_eq_ok_iff (hrec : Recorded done owners)
    (hdone : ∀ c ∈ done, c ∈ declarations components) :
    record components owners d = .ok owners' ↔
      (∀ c ∈ done, c.1 ≠ d.1) ∧ owners' = owners.insert d.1 d.2.2 := by
  have hfree : ownerAmong? components owners d.1 = none ↔ ∀ c ∈ done, c.1 ≠ d.1 := by
    cases hi : owners[d.1]? with
    | none =>
        refine iff_of_true (by simp [ownerAmong?, hi]) ?_
        rintro ⟨p, b, i⟩ hc (rfl : p = d.1)
        exact absurd ((hrec _ i).2 ⟨b, hc⟩) (by simp [hi])
    | some i =>
        obtain ⟨b, hb⟩ := (hrec _ i).1 hi
        have hposition : components[i]? = some b := (mem_declarations.1 (hdone _ hb)).1
        refine iff_of_false (by simp [ownerAmong?, hi, hposition]) ?_
        exact fun h => h _ hb rfl
  rw [← hfree, record, addOwner]
  cases ownerAmong? components owners d.1 with
  | none => simp [eq_comm]
  | some b => simp

theorem Recorded.insert (hrec : Recorded done owners) (hnew : ∀ c ∈ done, c.1 ≠ d.1) :
    Recorded (done ++ [d]) (owners.insert d.1 d.2.2) := by
  obtain ⟨p, b, i⟩ := d
  intro q j
  rw [getElem?_insert_of_lawful]
  by_cases hq : p = q
  · subst hq
    have hnone : ∀ c, (p, c, j) ∉ done := fun c hc => hnew _ hc rfl
    simp [hnone, eq_comm]
  · simp [hq, hrec q j, Ne.symm hq]

/-- An index can be built only from declarations of different parameters, and holds them all. -/
theorem recorded_of_indexOwners (h : indexOwners components = .ok owners) :
    (declarations components).Pairwise (fun c d => c.1 ≠ d.1) ∧
      Recorded (declarations components) owners := by
  rw [indexOwners_eq_foldlM] at h
  refine foldlM_ok_induction_prefix
    (fun done owners => done.Pairwise (fun c d => c.1 ≠ d.1) ∧ Recorded done owners) ?_ ?_ h
  · rintro done d owners owners' hprefix ⟨hpairwise, hrec⟩ hstep
    have hdone : ∀ c ∈ done, c ∈ declarations components := fun c hc =>
      hprefix.subset (List.mem_append_left _ hc)
    obtain ⟨hnew, rfl⟩ := (record_eq_ok_iff hrec hdone).1 hstep
    refine ⟨?_, hrec.insert hnew⟩
    rw [List.pairwise_append]
    exact ⟨hpairwise, List.pairwise_singleton _ _, by simpa using hnew⟩
  · exact ⟨.nil, fun p i => by simp⟩

/-- Declarations of different parameters can be taken in. -/
theorem exists_foldlM_record (ds : List (String × ParameterBlock × Nat))
    (hrec : Recorded done owners) (hall : ∀ c ∈ done ++ ds, c ∈ declarations components)
    (hpairwise : (done ++ ds).Pairwise fun c d => c.1 ≠ d.1) :
    ∃ owners', ds.foldlM (record components) owners = .ok owners' := by
  induction ds generalizing done owners with
  | nil => exact ⟨owners, rfl⟩
  | cons d rest ih =>
      have hnew : ∀ c ∈ done, c.1 ≠ d.1 := fun c hc =>
        (List.pairwise_append.1 hpairwise).2.2 c hc d List.mem_cons_self
      have hstep : record components owners d = .ok (owners.insert d.1 d.2.2) :=
        (record_eq_ok_iff hrec fun c hc => hall c (List.mem_append_left _ hc)).2 ⟨hnew, rfl⟩
      rw [List.foldlM_cons, hstep, ok_bind]
      exact ih (hrec.insert hnew) (by simpa using hall) (by simpa using hpairwise)

end Record

/-! ## What the index says -/

/-- The owner of a parameter is the component that declares it, and nothing else has one. -/
def Indexed (m : ComposedModel) : Prop :=
  ∀ p i, m.owners[p]? = some i ↔
    ∃ b : ParameterBlock, m.components[i]? = some b ∧ b.declares p = true

/-- A model can be made of components if there are any, and no two declare the same parameter. -/
theorem exists_ofComponents_iff {name image : String} :
    (∃ m, ofComponents name image components = .ok m) ↔ components ≠ [] ∧
      components.Pairwise fun a b => ∀ p, ¬ (a.declares p = true ∧ b.declares p = true) := by
  rw [← declarations_pairwise_iff]
  by_cases hempty : components = []
  · simp [ofComponents, hempty]
  · have hunfold : ofComponents name image components
        = indexOwners components >>= fun owners => pure ⟨name, image, components, owners⟩ := by
      rw [ofComponents, if_neg (by simpa using hempty)]
    rw [hunfold, and_iff_right hempty]
    constructor
    · rintro ⟨m, hm⟩
      obtain ⟨owners, howners, -⟩ := bind_eq_ok_iff.1 hm
      exact (recorded_of_indexOwners howners).1
    · intro hpairwise
      have hnothing : Recorded [] ∅ := fun p i => by simp
      obtain ⟨owners, howners⟩ := exists_foldlM_record (declarations components) hnothing
        (fun c hc => hc) hpairwise
      rw [← indexOwners_eq_foldlM] at howners
      exact ⟨⟨name, image, components, owners⟩, by rw [howners, ok_bind, pure_eq_ok]⟩

/-- A model that was made of components has these components and their index. -/
theorem indexed_of_ofComponents {name image : String}
    (h : ofComponents name image components = .ok m) : m.components = components ∧ m.Indexed := by
  unfold ofComponents at h
  split at h
  case isTrue => exact absurd h (by simp)
  case isFalse =>
    obtain ⟨owners, howners, hm⟩ := bind_eq_ok_iff.1 h
    obtain rfl := Except.ok.inj hm
    refine ⟨rfl, fun p i => ?_⟩
    rw [(recorded_of_indexOwners howners).2 p i]
    simp only [mem_declarations]

variable {b : ParameterBlock}

/-- The index finds the component that declares a parameter. -/
theorem Indexed.ownerAmong?_eq_some_iff (h : m.Indexed) :
    ownerAmong? m.components m.owners p = some b ↔ b ∈ m.components ∧ b.declares p = true := by
  unfold ownerAmong?
  constructor
  · intro hb
    obtain ⟨i, hi, hib⟩ := Option.bind_eq_some_iff.1 hb
    obtain ⟨b', hib', hp⟩ := (h p i).1 hi
    obtain rfl := Option.some.inj (hib.symm.trans hib')
    exact ⟨List.mem_of_getElem? hib, hp⟩
  · rintro ⟨hb, hp⟩
    obtain ⟨i, hi⟩ := List.mem_iff_getElem?.1 hb
    exact Option.bind_eq_some_iff.2 ⟨i, (h p i).2 ⟨b, hi, hp⟩, hi⟩

theorem Indexed.owner_of_declares (h : m.Indexed) (hb : b ∈ m.components)
    (hp : b.declares p = true) : m.owner p = .ok b := by
  rw [owner, h.ownerAmong?_eq_some_iff.2 ⟨hb, hp⟩]

theorem Indexed.ownerAmong?_of_undeclared (h : m.Indexed)
    (hnone : ∀ b ∈ m.components, b.declares p = false) :
    ownerAmong? m.components m.owners p = none := by
  rw [Option.eq_none_iff_forall_not_mem]
  intro b hb
  obtain ⟨hmem, hp⟩ := h.ownerAmong?_eq_some_iff.1 hb
  exact absurd hp (by simp [hnone b hmem])

/-- A parameter has the value that it has in the component that declares it. -/
theorem Indexed.parameter_of_mem (h : m.Indexed) (hb : b ∈ m.components) {v : Float}
    (hv : b.parameters[p]? = some v) : m.parameter p = .ok v := by
  rw [parameter, h.owner_of_declares hb (ParameterBlock.declares_iff.2 ⟨v, hv⟩), ok_bind, hv]

/-! ## Settings -/

/-- The model after a setting. One that fails leaves the model as it is. -/
def afterSetting (m : ComposedModel) (setting : String × Float) : ComposedModel :=
  match m.setParameter setting.1 setting.2 with
  | .ok m' => m'
  | .error _ => m

/-- The model after settings one after the other. -/
def afterSettings (m : ComposedModel) (settings : List (String × Float)) : ComposedModel :=
  settings.foldl afterSetting m

/-- The last value that settings give a parameter. -/
def lastSet? (settings : List (String × Float)) (p : String) : Option Float :=
  settings.reverse.lookup p

/-- The model with every component changed. -/
def mapComponents (f : ParameterBlock → ParameterBlock) (m : ComposedModel) : ComposedModel :=
  { m with components := m.components.map f }

theorem Indexed.mapComponents (h : m.Indexed) {f : ParameterBlock → ParameterBlock}
    (hf : ∀ b p, (f b).declares p = b.declares p) : (m.mapComponents f).Indexed := by
  intro p i
  refine (h p i).trans ?_
  simp [ComposedModel.mapComponents, hf]

/-- Setting a parameter that a component declares changes this component only. -/
theorem Indexed.setParameter_of_declares (h : m.Indexed) (hb : b ∈ m.components)
    (hp : b.declares p = true) (value : Float) :
    m.setParameter p value = .ok (m.mapComponents (·.afterSetting (p, value))) := by
  obtain ⟨i, hi⟩ := List.mem_iff_getElem?.1 hb
  have howner : m.owners[p]? = some i := (h p i).2 ⟨b, hi, hp⟩
  have hset : b.set? p value = some (b.afterSetting (p, value)) := by
    simp [ParameterBlock.afterSetting, ParameterBlock.set?, hp]
  have hcomponents : m.components.set i (b.afterSetting (p, value))
      = m.components.map (·.afterSetting (p, value)) := by
    refine List.ext_getElem? fun j => ?_
    rw [List.getElem?_map]
    by_cases hij : i = j
    · subst hij
      rw [List.getElem?_set_self (List.getElem?_eq_some_iff.1 hi).1, hi, Option.map_some]
    · rw [List.getElem?_set_ne hij]
      cases hj : m.components[j]? with
      | none => rfl
      | some c =>
          have hc : ¬ c.declares p = true := fun hc =>
            hij (Option.some.inj (howner.symm.trans ((h p j).2 ⟨c, hj, hc⟩)))
          rw [Option.map_some, ParameterBlock.afterSetting_eq, if_neg hc]
  simp only [setParameter, howner, hi, Option.bind_eq_bind, Option.bind_some, hset, hcomponents,
    ComposedModel.mapComponents]

theorem Indexed.setParameter_of_undeclared (h : m.Indexed)
    (hnone : ∀ b ∈ m.components, b.declares p = false) (value : Float) :
    m.setParameter p value = .error (.unknownParameter p) := by
  have howner : m.owners[p]? = none := by
    rw [Option.eq_none_iff_forall_not_mem]
    intro i hi
    obtain ⟨b, hb, hp⟩ := (h p i).1 hi
    exact absurd hp (by simp [hnone b (List.mem_of_getElem? hb)])
  simp [setParameter, howner]

/-- A setting changes the components that it means something to. -/
theorem Indexed.afterSetting_eq (h : m.Indexed) (setting : String × Float) :
    m.afterSetting setting = m.mapComponents (·.afterSetting setting) := by
  by_cases hdeclared : ∃ b ∈ m.components, b.declares setting.1 = true
  · obtain ⟨b, hb, hp⟩ := hdeclared
    rw [afterSetting, h.setParameter_of_declares hb hp]
  · have hnone : ∀ b ∈ m.components, b.declares setting.1 = false := fun b hb =>
      Bool.eq_false_iff.2 fun hp => hdeclared ⟨b, hb, hp⟩
    have hsame : m.components.map (·.afterSetting setting) = m.components := by
      refine (List.map_congr_left fun b hb => ?_).trans (List.map_id _)
      rw [ParameterBlock.afterSetting_eq, if_neg (by simp [hnone b hb]), id]
    rw [afterSetting, h.setParameter_of_undeclared hnone, ComposedModel.mapComponents, hsame]

theorem Indexed.afterSetting (h : m.Indexed) (setting : String × Float) :
    (m.afterSetting setting).Indexed := by
  rw [h.afterSetting_eq]
  exact h.mapComponents fun b p => b.declares_afterSetting setting p

theorem owner_mapComponents (f : ParameterBlock → ParameterBlock) (m : ComposedModel)
    (q : String) : (m.mapComponents f).owner q = (m.owner q).map f := by
  simp only [owner, mapComponents, ownerAmong?, List.getElem?_map]
  cases m.owners[q]? with
  | none => rfl
  | some i => cases hi : m.components[i]? <;> simp [hi, Except.map]

/-- The value of a parameter after a setting. -/
theorem Indexed.parameter_afterSetting (h : m.Indexed) (setting : String × Float) (q : String) :
    (m.afterSetting setting).parameter q =
      (m.parameter q).map fun v => if setting.1 = q then setting.2 else v := by
  rw [h.afterSetting_eq, parameter, owner_mapComponents, parameter]
  cases m.owner q with
  | error e => rfl
  | ok b =>
      simp only [Except.map, ok_bind, ParameterBlock.getElem?_afterSetting]
      cases b.parameters[q]? <;> rfl

theorem Indexed.ownerName_afterSetting (h : m.Indexed) (setting : String × Float) (q : String) :
    ((m.afterSetting setting).owner q).map ParameterBlock.name
      = (m.owner q).map ParameterBlock.name := by
  rw [h.afterSetting_eq, owner_mapComponents]
  cases m.owner q with
  | error e => rfl
  | ok b =>
      exact congrArg Except.ok
        (ParameterBlock.afterSetting_keeps ParameterBlock.name (fun _ _ => rfl) b setting)

theorem Indexed.cost_afterSetting (h : m.Indexed) (setting : String × Float) (n : UInt32) :
    (m.afterSetting setting).cost n = m.cost n := by
  have hcost := ParameterBlock.afterSetting_keeps (fun b => linearCost b.fixed b.perAtom n)
    fun _ _ => rfl
  rw [h.afterSetting_eq]
  simp [cost, ComposedModel.mapComponents, Function.comp_def, hcost]

theorem Indexed.layout_afterSetting (h : m.Indexed) (setting : String × Float)
    (atoms : AtomRange) :
    layout (m.afterSetting setting).components atoms = layout m.components atoms := by
  rw [h.afterSetting_eq]
  simp [layout, ComposedModel.mapComponents, List.flatMap_map]

/-! ## The state of a model -/

/-- The names and values of the parameters in the order in which the state holds them. -/
def entries (m : ComposedModel) (atoms : AtomRange) : List (String × Float) :=
  m.components.flatMap fun b => atoms.atoms.flatMap fun _ => b.parameters.toList

theorem state_eq_flatMap (m : ComposedModel) (atoms : AtomRange) :
    m.state atoms = (m.entries atoms).flatMap fun e => littleEndian64 e.2.toBits := by
  simp only [state, ParameterBlock.state, entries, List.flatMap_assoc]

theorem layout_eq_map (m : ComposedModel) (atoms : AtomRange) :
    layout m.components atoms = (m.entries atoms).map Prod.fst := by
  simp only [layout, ParameterBlock.names, entries, List.map_flatMap]

theorem length_state (m : ComposedModel) (atoms : AtomRange) :
    (m.state atoms).length = 8 * (layout m.components atoms).length := by
  rw [state_eq_flatMap, layout_eq_map, List.length_map]
  exact length_flatMap_of_width (fun e => length_littleEndian64 _) _

/-- A field of the state holds the value of its parameter. -/
theorem Indexed.byteField_state (h : m.Indexed) {atoms : AtomRange} {i : Nat}
    (hq : (layout m.components atoms)[i]? = some q) :
    ∃ v, m.parameter q = .ok v ∧ byteField (m.state atoms) i = littleEndian64 v.toBits := by
  rw [layout_eq_map, List.getElem?_map] at hq
  obtain ⟨⟨q', v⟩, he, rfl⟩ := Option.map_eq_some_iff.1 hq
  have hmem : (q', v) ∈ m.entries atoms := List.mem_of_getElem? he
  simp only [entries, List.mem_flatMap, Std.ExtTreeMap.mem_toList_iff_getElem?_eq_some] at hmem
  obtain ⟨b, hb, _, _, hv⟩ := hmem
  refine ⟨v, h.parameter_of_mem hb hv, ?_⟩
  rw [state_eq_flatMap, byteField_flatMap fun e => length_littleEndian64 _, he]
  rfl

/-- Beyond the layout there is nothing. -/
theorem byteField_state_of_none {atoms : AtomRange} {i : Nat}
    (hnone : (layout m.components atoms)[i]? = none) : byteField (m.state atoms) i = [] := by
  rw [layout_eq_map, List.getElem?_map, Option.map_eq_none_iff] at hnone
  rw [state_eq_flatMap, byteField_flatMap fun e => length_littleEndian64 _, hnone]
  rfl

/-- The bytes of the state are laid out as the names of the components say, and each field holds
    the value of its parameter. -/
structure LaidOut (components : List ParameterBlock) (m : ComposedModel) (atoms : AtomRange) :
    Prop where
  names : ∀ b ∈ components, (b.names.Pairwise fun p q => compare p q = .lt) ∧
    ∀ p, p ∈ b.names ↔ b.declares p = true
  length : (m.state atoms).length
    = 8 * (atoms.atoms.length * total (fun b => b.names.length) components)
  field : ∀ i q, (layout components atoms)[i]? = some q →
    ∃ v, m.parameter q = .ok v ∧ byteField (m.state atoms) i = littleEndian64 v.toBits

/-- A model is another one with a new value of one parameter, and differs in nothing else: of the
    state exactly the fields of the parameter are written. -/
structure Sets (components : List ParameterBlock) (m m' : ComposedModel) (p : String)
    (value : Float) : Prop where
  parameter : m'.parameter p = .ok value
  other : ∀ q, q ≠ p → m'.parameter q = m.parameter q
  owner : ∀ q, (m'.owner q).map ParameterBlock.name = (m.owner q).map ParameterBlock.name
  cost : ∀ n, m'.cost n = m.cost n
  length : ∀ atoms, (m'.state atoms).length = (m.state atoms).length
  field : ∀ atoms i, byteField (m'.state atoms) i =
    if (layout components atoms)[i]? = some p then littleEndian64 value.toBits
    else byteField (m.state atoms) i

theorem Indexed.sets (h : m.Indexed)
    (hlayout : ∀ atoms, layout m.components atoms = layout components atoms) {v : Float}
    (hp : m.parameter p = .ok v) (value : Float) :
    Sets components m (m.afterSetting (p, value)) p value where
  parameter := by rw [h.parameter_afterSetting, hp]; simp [Except.map]
  other q hq := by
    rw [h.parameter_afterSetting]
    cases m.parameter q <;> simp [Except.map, Ne.symm hq]
  owner q := h.ownerName_afterSetting (p, value) q
  cost n := h.cost_afterSetting (p, value) n
  length atoms := by rw [length_state, length_state, h.layout_afterSetting]
  field atoms i := by
    have hlayout' := (h.layout_afterSetting (p, value) atoms).trans (hlayout atoms)
    cases hi : (layout components atoms)[i]? with
    | none =>
        rw [if_neg (by simp), byteField_state_of_none (by rwa [hlayout']),
          byteField_state_of_none (by rwa [hlayout])]
    | some q =>
        obtain ⟨u, hu, hfield⟩ := h.byteField_state (by rwa [hlayout])
        obtain ⟨u', hu', hfield'⟩ := (h.afterSetting _).byteField_state (by rwa [hlayout'])
        rw [h.parameter_afterSetting, hu] at hu'
        obtain rfl := Except.ok.inj hu'
        rw [hfield, hfield']
        by_cases hq : p = q
        · simp [hq]
        · simp [hq, Ne.symm hq]

/-! ## Any number of settings -/

theorem lastSet?_append (settings : List (String × Float)) (setting : String × Float) (q : String) :
    lastSet? (settings ++ [setting]) q =
      if setting.1 = q then some setting.2 else lastSet? settings q := by
  obtain ⟨p, value⟩ := setting
  by_cases hq : p = q
  · simp [lastSet?, hq]
  · simp [lastSet?, List.lookup_cons, hq, beq_false_of_ne (Ne.symm hq)]

/-- What settings leave as it is, and the values that they lead to. -/
structure After (m : ComposedModel) (settings : List (String × Float)) (m' : ComposedModel) :
    Prop where
  indexed : m'.Indexed
  declares : ∀ p, (∃ b ∈ m'.components, b.declares p = true) ↔
    ∃ b ∈ m.components, b.declares p = true
  layout : ∀ atoms, layout m'.components atoms = layout m.components atoms
  owner : ∀ q, (m'.owner q).map ParameterBlock.name = (m.owner q).map ParameterBlock.name
  parameter : ∀ q, m'.parameter q = (m.parameter q).map fun v => (lastSet? settings q).getD v

/-- One more setting. -/
theorem After.afterSetting {settings : List (String × Float)} (h : After m settings m')
    (setting : String × Float) : After m (settings ++ [setting]) (m'.afterSetting setting) where
  indexed := h.indexed.afterSetting setting
  declares p := by
    rw [← h.declares p, h.indexed.afterSetting_eq]
    simp [ComposedModel.mapComponents]
  layout atoms := (h.indexed.layout_afterSetting setting atoms).trans (h.layout atoms)
  owner q := (h.indexed.ownerName_afterSetting setting q).trans (h.owner q)
  parameter q := by
    rw [h.indexed.parameter_afterSetting, h.parameter]
    simp only [lastSet?_append]
    cases m.parameter q with
    | error e => rfl
    | ok v => by_cases hq : setting.1 = q <;> simp [Except.map, hq]

theorem Indexed.after_afterSettings (h : m.Indexed) (settings : List (String × Float)) :
    After m settings (m.afterSettings settings) := by
  induction settings using List.reverseRecOn with
  | nil =>
      refine ⟨h, fun p => Iff.rfl, fun atoms => rfl, fun q => rfl, fun q => ?_⟩
      show m.parameter q = (m.parameter q).map id
      cases m.parameter q <;> rfl
  | append_singleton settings setting ih =>
      rw [afterSettings, List.foldl_append]
      exact ih.afterSetting setting

/-- A model answers for the components that it was made of, after settings. -/
structure AnswersFor (components : List ParameterBlock) (settings : List (String × Float))
    (m : ComposedModel) : Prop where
  declared : ∀ b ∈ components, ∀ p initial, b.parameters[p]? = some initial →
    (m.owner p).map ParameterBlock.name = .ok b.name ∧
    m.parameter p = .ok ((lastSet? settings p).getD initial) ∧
    ∀ value, ∃ m', m.setParameter p value = .ok m' ∧ Sets components m m' p value
  undeclared : ∀ p, (∀ b ∈ components, b.declares p = false) →
    m.owner p = .error (.unknownParameter p) ∧
    m.parameter p = .error (.unknownParameter p) ∧
    ∀ value, m.setParameter p value = .error (.unknownParameter p) ∧
      m.afterSetting (p, value) = m
  laidOut : ∀ atoms, LaidOut components m atoms

theorem After.answersFor {settings : List (String × Float)} (hm : m.Indexed)
    (h : After m settings m') : AnswersFor m.components settings m' where
  declared b hb p initial hinitial := by
    have hp : b.declares p = true := ParameterBlock.declares_iff.2 ⟨initial, hinitial⟩
    have hparameter : m'.parameter p = .ok ((lastSet? settings p).getD initial) := by
      rw [h.parameter, hm.parameter_of_mem hb hinitial]
      rfl
    refine ⟨?_, hparameter, fun value => ?_⟩
    · rw [h.owner, hm.owner_of_declares hb hp]
      rfl
    · obtain ⟨b', hb', hp'⟩ := (h.declares p).2 ⟨b, hb, hp⟩
      refine ⟨_, h.indexed.setParameter_of_declares hb' hp' value, ?_⟩
      rw [← h.indexed.afterSetting_eq]
      exact h.indexed.sets h.layout hparameter value
  undeclared p hnone := by
    have hnone' : ∀ b ∈ m'.components, b.declares p = false := by
      intro b' hb'
      rw [Bool.eq_false_iff]
      intro hp'
      obtain ⟨b, hb, hp⟩ := (h.declares p).1 ⟨b', hb', hp'⟩
      exact absurd hp (by simp [hnone b hb])
    have howner : m'.owner p = .error (.unknownParameter p) := by
      rw [ComposedModel.owner, h.indexed.ownerAmong?_of_undeclared hnone']
    refine ⟨howner, by rw [ComposedModel.parameter, howner, error_bind], fun value => ?_⟩
    have hset := h.indexed.setParameter_of_undeclared hnone' value
    exact ⟨hset, by rw [ComposedModel.afterSetting, hset]⟩
  laidOut atoms :=
    { names := fun b _ => ⟨b.names_ascending, fun _ => ParameterBlock.mem_names⟩
      length := by rw [length_state, h.layout, ParameterBlock.length_layout]
      field := fun i q hq => h.indexed.byteField_state (by rwa [h.layout]) }

/-- A component with the parameters of a membrane. -/
def membrane : ParameterBlock :=
  ⟨"membrane", ⟨40, 128, 0⟩, ⟨10, 24, 0⟩, {("v", -65), ("tau", 20)}⟩

/-- A component with the parameter of a synapse. -/
def synapse : ParameterBlock := ⟨"synapse", ⟨5, 8, 0⟩, ⟨2, 8, 64⟩, {("decay", 5)}⟩

/-- **A composed model answers for its components.** A model can be made of any components but
    none, as long as no two declare the same parameter. Whatever is set after that, a parameter
    that a component declares belongs to this component, and has the value set last, or its first
    one; setting it succeeds and changes no other parameter, no owner and no cost, and of the state
    its own fields only. A parameter that no component declares is unknown. -/
theorem parameters_consistent (name image : String) (components : List ParameterBlock) :
    ((∃ m, ofComponents name image components = .ok m) ↔ components ≠ [] ∧
      components.Pairwise fun a b => ∀ p, ¬ (a.declares p = true ∧ b.declares p = true)) ∧
    ∀ m settings, ofComponents name image components = .ok m →
      AnswersFor components settings (m.afterSettings settings) := by
  refine ⟨exists_ofComponents_iff, fun m settings hm => ?_⟩
  obtain ⟨rfl, hindexed⟩ := indexed_of_ofComponents hm
  exact (hindexed.after_afterSettings settings).answersFor hindexed

/-- A membrane and a synapse; of the settings the last one of a parameter counts, and one of a
    parameter that neither has changes nothing. -/
theorem parameters_consistent_of_membrane : ∃ m,
    ofComponents "neuron" "neuron.bin" [membrane, synapse] = .ok m ∧
    (m.afterSettings [("tau", 10), ("g", 1), ("tau", 15)]).parameter "tau" = .ok 15 ∧
    (m.afterSettings [("tau", 10), ("g", 1), ("tau", 15)]).parameter "decay" = .ok 5 ∧
    (m.afterSettings [("tau", 10), ("g", 1), ("tau", 15)]).parameter "g"
      = .error (.unknownParameter "g") := by
  obtain ⟨hmade, hanswers⟩ := parameters_consistent "neuron" "neuron.bin" [membrane, synapse]
  have hnames : ∀ p, membrane.declares p = true → synapse.declares p = true → False := by
    intro p hp hp'
    rw [← ParameterBlock.mem_names] at hp hp'
    have hmembrane : membrane.names = ["tau", "v"] := rfl
    have hsynapse : synapse.names = ["decay"] := rfl
    rw [hmembrane] at hp
    rw [hsynapse, List.mem_singleton] at hp'
    exact absurd hp (by simp [hp'])
  obtain ⟨m, hm⟩ := hmade.2 ⟨by simp, by simpa using hnames⟩
  have h := hanswers m [("tau", 10), ("g", 1), ("tau", 15)] hm
  refine ⟨m, hm, ?_, ?_, ?_⟩
  · exact (h.declared membrane (by simp) "tau" 20 rfl).2.1
  · exact (h.declared synapse (by simp) "decay" 5 rfl).2.1
  · exact (h.undeclared "g" (by simp [membrane, synapse, ParameterBlock.declares])).2.1

end ComposedModel

end SpikeMesh
