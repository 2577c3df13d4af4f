import SpikeMesh.Datum.Domain
import SpikeMesh.Proofs.Collections

set_option autoImplicit false

/-! # Typed values, read back from data

Text in JSON gives data whose tables are in the order of their names (`Datum.sorted`), whatever the
order in which they were written. No typed value is lost by this: the fields of a record are found
by their names, and the entries of a map are the same in another order, as long as different keys
have different names. -/

namespace SpikeMesh.Datum

/-! ## Tables in order -/

mutual

/-- The data with all tables in the order of their names, and only the last value of a name. -/
def sorted : Datum → Datum
  | .list items => .list (sortedItems items)
  | .table entries => sortedTable (sortedEntries entries)
  | d => d

/-- The items of a list with all their tables in order. -/
def sortedItems : List Datum → List Datum
  | [] => []
  | d :: rest => d.sorted :: sortedItems rest

/-- The entries of a table with all tables among their values in order. -/
def sortedEntries : List (String × Datum) → List (String × Datum)
  | [] => []
  | (name, d) :: rest => (name, d.sorted) :: sortedEntries rest

end

theorem sortedItems_eq_map (items : List Datum) : sortedItems items = items.map sorted := by
  induction items with
  | nil => rfl
  | cons d rest ih => rw [sortedItems, ih, List.map_cons]

theorem sortedEntries_eq_map (entries : List (String × Datum)) :
    sortedEntries entries = entries.map fun e => (e.1, e.2.sorted) := by
  induction entries with
  | nil => rfl
  | cons e rest ih => rw [sortedEntries, ih, List.map_cons]

theorem sorted_list (items : List Datum) : (list items).sorted = .list (items.map sorted) := by
  rw [sorted, sortedItems_eq_map]

theorem sorted_table (entries : List (String × Datum)) :
    (table entries).sorted = sortedTable (entries.map fun e => (e.1, e.2.sorted)) := by
  rw [sorted, sortedEntries_eq_map]

@[simp] theorem sorted_text (s : String) : (text s).sorted = .text s := by simp [sorted]

@[simp] theorem sorted_bool (b : Bool) : (bool b).sorted = .bool b := by simp [sorted]

@[simp] theorem sorted_natural (n : Nat) : (natural n).sorted = .natural n := by
  simp [natural, sorted]

@[simp] theorem valueNamed?_cons (e : String × Datum) (rest : List (String × Datum))
    (name : String) : valueNamed? (e :: rest) name =
      if name = e.1 then some e.2 else valueNamed? rest name := by
  obtain ⟨first, value⟩ := e
  by_cases h : name = first
  · simp [valueNamed?, h]
  · simp [valueNamed?, List.lookup_cons, beq_false_of_ne h, h]

theorem valueNamed?_insertEntry (first : String) (value : Datum)
    (entries : List (String × Datum)) (name : String) :
    valueNamed? (insertEntry first value entries) name =
      if name = first then some value else valueNamed? entries name := by
  induction entries with
  | nil => rw [insertEntry, valueNamed?_cons]
  | cons e rest ih =>
      obtain ⟨second, old⟩ := e
      unfold insertEntry
      split
      case isTrue => rw [valueNamed?_cons]
      case isFalse =>
        split
        case isTrue heq =>
          simp only [valueNamed?_cons, heq]
          split <;> rfl
        case isFalse hne =>
          rw [valueNamed?_cons, valueNamed?_cons, ih]
          by_cases h : name = second
          · simp [h, Ne.symm hne]
          · simp [h]

/-- The entries with more, one after the other. -/
def insertEntries (entries sorted : List (String × Datum)) : List (String × Datum) :=
  entries.foldl (fun sorted e => insertEntry e.1 e.2 sorted) sorted

theorem sortedTable_eq (entries : List (String × Datum)) :
    sortedTable entries = .table (insertEntries entries []) := rfl

theorem valueNamed?_append (entries before : List (String × Datum)) (name : String) :
    valueNamed? (entries ++ before) name
      = (valueNamed? entries name).or (valueNamed? before name) :=
  List.lookup_append

theorem valueNamed?_map_sorted (entries : List (String × Datum)) (name : String) :
    valueNamed? (entries.map fun e => (e.1, e.2.sorted)) name
      = (valueNamed? entries name).map sorted := by
  induction entries with
  | nil => rfl
  | cons e rest ih =>
      rw [List.map_cons, valueNamed?_cons, valueNamed?_cons, ih]
      split <;> rfl

/-- In a table in order a name has its last value. -/
theorem valueNamed?_insertEntries (entries before : List (String × Datum)) (name : String) :
    valueNamed? (insertEntries entries before) name
      = valueNamed? (entries.reverse ++ before) name := by
  induction entries generalizing before with
  | nil => rfl
  | cons e rest ih =>
      rw [insertEntries, List.foldl_cons]
      refine (ih _).trans ?_
      simp [valueNamed?_append, valueNamed?_insertEntry]

/-- Entries whose names are all different stay the same in another order. -/
theorem insertEntry_perm {name : String} {value : Datum} {entries : List (String × Datum)}
    (hnew : ∀ e ∈ entries, e.1 ≠ name) :
    (insertEntry name value entries).Perm ((name, value) :: entries) := by
  induction entries with
  | nil => exact .refl _
  | cons e rest ih =>
      obtain ⟨other, old⟩ := e
      unfold insertEntry
      split
      case isTrue => exact .refl _
      case isFalse =>
        rw [if_neg (hnew _ List.mem_cons_self).symm]
        exact ((ih fun e he => hnew e (List.mem_cons_of_mem _ he)).cons _).trans (.swap _ _ _)

theorem insertEntries_perm {entries before : List (String × Datum)}
    (hd : (entries ++ before).Pairwise fun a b => a.1 ≠ b.1) :
    (insertEntries entries before).Perm (entries ++ before) := by
  induction entries generalizing before with
  | nil => exact .refl _
  | cons e rest ih =>
      have hperm : (insertEntry e.1 e.2 before).Perm (e :: before) := by
        refine insertEntry_perm fun a ha => ?_
        exact ((List.pairwise_cons.1 hd).1 a (List.mem_append_right _ ha)).symm
      have hmiddle : (rest ++ insertEntry e.1 e.2 before).Perm (e :: (rest ++ before)) :=
        (hperm.append_left rest).trans List.perm_middle
      rw [insertEntries, List.foldl_cons]
      exact (ih ((hmiddle.pairwise_iff fun hne => hne.symm).2 hd)).trans hmiddle

/-! ## Lists, sets and maps -/

section Containers

variable {α κ ν : Type} [Ord κ] [Std.TransOrd κ]

/-- A list is read back if its items are. -/
theorem toList?_sorted {f : Datum → Option α} {g : α → Datum} (h : ∀ a, f (g a).sorted = some a)
    (items : List α) : toList? f (ofList g items).sorted = some items := by
  rw [ofList, sorted_list, toList?, List.map_map]
  exact mapM_map_eq_some h items

/-- The entry of a map that an entry of a table stands for. -/
def pairOf? (key : String → Option κ) (value : Datum → Option ν) (e : String × Datum) :
    Option (κ × ν) := do
  return (← key e.1, ← value e.2)

/-- A map is filled with the entries that those of a table stand for. -/
theorem foldlM_pairOf? {key : String → Option κ} {value : Datum → Option ν}
    {entries : List (String × Datum)}
    (h : ∀ e ∈ entries, (pairOf? key value e).isSome = true) (m : Std.ExtTreeMap κ ν) :
    entries.foldlM (fun m e => do return m.insert (← key e.1) (← value e.2)) m
      = some ((entries.filterMap (pairOf? key value)).foldl (fun m e => m.insert e.1 e.2) m) := by
  induction entries generalizing m with
  | nil => rfl
  | cons e rest ih =>
      obtain ⟨⟨k, v⟩, he⟩ := Option.isSome_iff_exists.1 (h e List.mem_cons_self)
      have hparts : key e.1 = some k ∧ value e.2 = some v := by
        simpa [pairOf?, Option.bind_eq_some_iff] using he
      rw [List.foldlM_cons, List.filterMap_cons_some he, List.foldl_cons, hparts.1, hparts.2]
      exact ih (fun e' he' => h e' (List.mem_cons_of_mem e he')) _

variable [Std.LawfulEqOrd κ]

/-- A set is read back if its items are. -/
theorem toSet?_sorted {f : Datum → Option κ} {g : κ → Datum} (h : ∀ k, f (g k).sorted = some k)
    (s : Std.ExtTreeSet κ) : toSet? f (ofSet g s).sorted = some s := by
  have hitems : (ofSet g s).sorted.toList? f = some s.toList := toList?_sorted h s.toList
  rw [toSet?, hitems]
  exact congrArg some (foldl_insert_toList_set s)

/-- A map is read back if its keys and values are. -/
theorem toMap?_sorted {key : String → Option κ} {name : κ → String} {value : Datum → Option ν}
    {g : ν → Datum} (hkey : ∀ k, key (name k) = some k) (hvalue : ∀ v, value (g v).sorted = some v)
    (m : Std.ExtTreeMap κ ν) : toMap? key value (ofMap name g m).sorted = some m := by
  let written : κ × ν → String × Datum := fun e => (name e.1, (g e.2).sorted)
  have hread : ∀ e, pairOf? key value (written e) = some e := fun e => by
    simp [pairOf?, written, hkey, hvalue]
  have hd : (m.toList.map written ++ []).Pairwise
      fun (a b : String × Datum) => a.1 ≠ b.1 := by
    rw [List.append_nil, List.pairwise_map]
    refine (toList_pairwise_fst_ne m).imp fun hne heq => hne ?_
    exact Option.some.inj ((hkey _).symm.trans ((congrArg key heq).trans (hkey _)))
  -- the table in order has the same entries, which stand for those of the map
  have hperm : (insertEntries (m.toList.map written) []).Perm (m.toList.map written) := by
    simpa using insertEntries_perm hd
  have hentries : ((insertEntries (m.toList.map written) []).filterMap
      (pairOf? key value)).Perm m.toList := by
    refine (hperm.filterMap _).trans ?_
    have hback : pairOf? key value ∘ written = some := funext hread
    rw [List.filterMap_map, hback, List.filterMap_some]
  have hsome : ∀ e ∈ insertEntries (m.toList.map written) [],
      (pairOf? key value e).isSome = true := by
    intro e he
    obtain ⟨a, _, rfl⟩ := List.mem_map.1 (hperm.mem_iff.1 he)
    rw [hread]
    rfl
  rw [ofMap, sorted_table, List.map_map, sortedTable_eq, toMap?]
  exact (foldlM_pairOf? hsome ∅).trans (congrArg some (foldl_insert_of_perm hentries))

end Containers

/-! ## Single values -/

theorem toNatBelow?_natural {n bound : Nat} (h : n < bound) :
    toNatBelow? bound (natural n) = some n := if_pos h

@[simp] theorem toUInt16?_natural (n : UInt16) : toUInt16? (natural n.toNat) = some n := by
  simp [toUInt16?, toNatBelow?_natural n.toNat_lt]

@[simp] theorem toUInt32?_natural (n : UInt32) : toUInt32? (natural n.toNat) = some n := by
  simp [toUInt32?, toNatBelow?_natural n.toNat_lt]

@[simp] theorem toUInt64?_natural (n : UInt64) : toUInt64? (natural n.toNat) = some n := by
  simp [toUInt64?, toNatBelow?_natural n.toNat_lt]

@[simp] theorem toBool?_bool (b : Bool) : toBool? (bool b) = some b := rfl

@[simp] theorem toText?_text (s : String) : toText? (text s) = some s := rfl

/-! ## Records -/

/-- The fields of a record are found by their names. -/
@[simp] theorem toFields?_sorted_table (names : List String) (entries : List (String × Datum)) :
    toFields? names (table entries).sorted
      = some ⟨fun name => (valueNamed? entries.reverse name).map sorted⟩ := by
  rw [sorted_table, sortedTable_eq, toFields?]
  congr 2
  funext name
  rw [valueNamed?_insertEntries, List.append_nil, ← List.map_reverse, valueNamed?_map_sorted]

@[simp] theorem Fields.required_mk {α : Type} (value? : String → Option Datum) (name : String)
    (f : Datum → Option α) : Fields.required ⟨value?⟩ name f = value? name >>= f := rfl

end SpikeMesh.Datum
