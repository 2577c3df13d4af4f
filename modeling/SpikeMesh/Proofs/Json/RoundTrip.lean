import SpikeMesh.Proofs.Datum.ReadBack
import SpikeMesh.Proofs.Json.Scalars

set_option autoImplicit false

/-! # JSON text, read back

Compact and indented text put the same marks in the same order and differ in the blanks between
them (`IsLayout`), which a reader skips. So data is read back from either, with its tables in the
order of their names (`read?_compact`, `read?_indented`), as long as a reader can hold it
(`FitsIn`): its integers have 64 bits, it has no doubles, and it nests not too deep. -/

namespace SpikeMesh.Json

open Text (Reader)
open Text.Reader

/-! ## What a reader can hold -/

/-- The data nests at most so deep, its integers have 64 bits, and it has no doubles. -/
def FitsIn : Nat → Datum → Prop
  | 0, _ => False
  | depth + 1, .list items => ∀ d ∈ items, FitsIn depth d
  | depth + 1, .table entries => ∀ e ∈ entries, FitsIn depth e.2
  | _ + 1, .int n => Int64.minValue.toInt ≤ n ∧ n < UInt64.size
  | _ + 1, .float _ => False
  | _ + 1, _ => True

/-! ## Layouts -/

/-- Texts with commas between them. -/
def commas : List (List Char) → List Char
  | [] => []
  | [t] => t
  | t :: rest => t ++ ',' :: commas rest

theorem commas_cons (t : List Char) (ts : List (List Char)) :
    commas (t :: ts) = t ++ ts.flatMap fun t => ',' :: t := by
  induction ts generalizing t with
  | nil => simp [commas]
  | cons t' rest ih =>
      show t ++ ',' :: commas (t' :: rest) = _
      rw [ih]
      simp

/-- Whether data is neither a list nor a table. -/
def isScalar : Datum → Bool
  | .list _ | .table _ => false
  | _ => true

/-- There are only blanks. -/
def Blank (cs : List Char) : Prop := ∀ c ∈ cs, isSpace c = true

/-- A layout writes data at each level with the marks of JSON, and blanks between them: before each
    item and entry, after each colon, and before the closing mark. -/
structure IsLayout (write : Nat → Datum → List Char) : Prop where
  scalar : ∀ level d, isScalar d = true → write level d = (scalar d).toList
  list : ∀ level items, ∃ gap close, Blank gap ∧ Blank close ∧
    write level (.list items) =
      '[' :: (commas (items.map fun d => gap ++ write (level + 1) d) ++ (close ++ [']']))
  table : ∀ level entries, ∃ gap colon close, Blank gap ∧ Blank colon ∧ Blank close ∧
    write level (.table entries) =
      '\x7b' :: (commas (entries.map fun e =>
        gap ++ ((quote e.1).toList ++ ':' :: (colon ++ write (level + 1) e.2)))
        ++ (close ++ ['\x7d']))

theorem blank_nil : Blank [] := fun _ hc => absurd hc (by simp)

theorem toList_compactItems (items : List Datum) :
    (compactItems items).toList = commas (items.map fun d => (compact d).toList) := by
  induction items with
  | nil => rfl
  | cons d rest ih =>
      cases rest with
      | nil => simp [compactItems, commas]
      | cons d' rest => simpa [compactItems, commas] using ih

theorem toList_compactEntries (entries : List (String × Datum)) :
    (compactEntries entries).toList
      = commas (entries.map fun e => (quote e.1).toList ++ ':' :: (compact e.2).toList) := by
  induction entries with
  | nil => rfl
  | cons e rest ih =>
      cases rest with
      | nil => simp [compactEntries, commas]
      | cons e' rest => simpa [compactEntries, commas] using ih

theorem compact_isLayout : IsLayout fun _ d => (compact d).toList where
  scalar level d h := by
    cases d <;> first | rfl | exact absurd h (by simp [isScalar])
  list level items := ⟨[], [], blank_nil, blank_nil, by simp [compact, toList_compactItems]⟩
  table level entries :=
    ⟨[], [], [], blank_nil, blank_nil, blank_nil, by simp [compact, toList_compactEntries]⟩

theorem blank_newLine (level : Nat) : Blank (newLine level).toList := by
  intro c hc
  simp [newLine] at hc
  rcases hc with rfl | ⟨_, rfl⟩ <;> rfl

theorem toList_indentedItems (level : Nat) (items : List Datum) :
    (indentedItems level items).toList
      = commas (items.map fun d => (newLine level).toList ++ (indentedAt level d).toList) := by
  induction items with
  | nil => rfl
  | cons d rest ih =>
      cases rest with
      | nil => simp [indentedItems, commas]
      | cons d' rest => simpa [indentedItems, commas] using ih

theorem toList_indentedEntries (level : Nat) (entries : List (String × Datum)) :
    (indentedEntries level entries).toList = commas (entries.map fun e =>
      (newLine level).toList ++ ((quote e.1).toList ++ ':' :: (" ".toList ++
        (indentedAt level e.2).toList))) := by
  induction entries with
  | nil => rfl
  | cons e rest ih =>
      cases rest with
      | nil => simp [indentedEntries, commas]
      | cons e' rest => simpa [indentedEntries, commas] using ih

theorem indented_isLayout : IsLayout fun level d => (indentedAt level d).toList where
  scalar level d h := by
    cases d <;> first | rfl | exact absurd h (by simp [isScalar])
  list level items := by
    cases items with
    | nil => exact ⟨[], [], blank_nil, blank_nil, by simp [indentedAt, commas]⟩
    | cons d rest =>
        refine ⟨_, _, blank_newLine (level + 1), blank_newLine level, ?_⟩
        rw [← toList_indentedItems]
        simp [indentedAt]
  table level entries := by
    cases entries with
    | nil =>
        exact ⟨[], [], [], blank_nil, blank_nil, blank_nil, by simp [indentedAt, commas]⟩
    | cons e rest =>
        have hspace : Blank " ".toList := by simp [Blank, isSpace]
        refine ⟨_, _, _, blank_newLine (level + 1), hspace, blank_newLine level, ?_⟩
        rw [← toList_indentedEntries]
        simp [indentedAt]

/-! ## Marks and blanks -/

section Items

variable {rest cs : List Char} {gap close : List Char}

theorem takes_spaces (cs : List Char) : Takes spaces cs () (cs.dropWhile isSpace) :=
  Takes.discard (r := run isSpace) rfl

theorem takes_mark (c : Char) (rest : List Char) :
    Takes (mark c) (c :: rest) () (rest.dropWhile isSpace) :=
  (takes_char c rest).discard.bind (takes_spaces rest)

theorem refuses_mark {c d : Char} (h : d ≠ c) (rest : List Char) :
    Refuses (mark c) (d :: rest) :=
  (refuses_char h rest).discard.bind

/-- Blanks before a text are skipped. -/
theorem Blank.dropWhile_append (h : Blank gap) (hcs : Ends isSpace cs) :
    (gap ++ cs).dropWhile isSpace = cs := by
  rw [List.dropWhile_append_of_pos h, hcs.dropWhile]

/-- A blank is no part of a number. -/
theorem Blank.ends_append (h : Blank gap) (hcs : Ends isNumberPart cs) :
    Ends isNumberPart (gap ++ cs) := by
  cases gap with
  | nil => exact hcs
  | cons c gap =>
      refine ends_cons ?_
      have := h c List.mem_cons_self
      simp only [isSpace, Bool.or_eq_true, beq_iff_eq] at this
      rcases this with ((rfl | rfl) | rfl) | rfl <;> rfl

/-- The character closes a list or a table. -/
def IsClosing (c : Char) : Prop := c = ']' ∨ c = '\x7d'

/-- A closing mark stands out from all that comes before it. -/
theorem IsClosing.stands_out {c : Char} (h : IsClosing c) :
    isSpace c = false ∧ isNumberPart c = false ∧ c ≠ ',' := by
  rcases h with rfl | rfl <;> decide

/-- What is read of a source is read from its text, whatever comes after it, with the blanks after
    it. -/
structure ReadsBack {σ α : Type} (item : Reader α) (text : σ → List Char) (value : σ → α)
    (s : σ) : Prop where
  starts : ∀ rest, Ends isSpace (text s ++ rest)
  takes : ∀ rest, Ends isNumberPart rest →
    Takes item (text s ++ rest) (value s) (rest.dropWhile isSpace)

variable {σ α : Type} {item : Reader α} {text : σ → List Char} {value : σ → α} {c : Char}

/-- The items after the first one, and the closing mark. -/
def moreItems (gap close : List Char) (c : Char) (text : σ → List Char) (sources : List σ)
    (rest : List Char) : List Char :=
  (sources.flatMap fun s => ',' :: (gap ++ text s)) ++ (close ++ c :: rest)

/-- More items go on as no number does, and are read back one after the other. -/
theorem repeats_moreItems (hgap : Blank gap) (hclose : Blank close) (hc : IsClosing c)
    {sources : List σ} (h : ∀ s ∈ sources, ReadsBack item text value s) (rest : List Char) :
    Ends isNumberPart (moreItems gap close c text sources rest) ∧
    Repeats (mark ',' *> item) ((moreItems gap close c text sources rest).dropWhile isSpace)
      (sources.map value) (c :: rest) := by
  obtain ⟨hspace, hnumber, hcomma⟩ := hc.stands_out
  induction sources with
  | nil =>
      show Ends _ (close ++ c :: rest) ∧ Repeats _ ((close ++ c :: rest).dropWhile isSpace) [] _
      rw [hclose.dropWhile_append (ends_cons hspace)]
      exact ⟨hclose.ends_append (ends_cons hnumber), .stop ((refuses_mark hcomma _).seqRight _)⟩
  | cons s sources ih =>
      obtain ⟨hends, hrepeats⟩ := ih fun s' hs' => h s' (List.mem_cons_of_mem s hs')
      have hs := h s List.mem_cons_self
      have hcons : moreItems gap close c text (s :: sources) rest
          = ',' :: (gap ++ (text s ++ moreItems gap close c text sources rest)) := by
        simp [moreItems]
      have hstart : Ends isSpace (moreItems gap close c text (s :: sources) rest) :=
        hcons ▸ ends_cons (by decide)
      rw [hstart.dropWhile, hcons]
      refine ⟨ends_cons (by decide), .step ((takes_mark ',' _).seqRight ?_) ?_ hrepeats⟩
      · rw [hgap.dropWhile_append (hs.starts _)]
        exact hs.takes _ hends
      · have := (List.dropWhile_sublist
          (l := moreItems gap close c text sources rest) isSpace).length_le
        simp only [List.length_cons, List.length_append]
        omega

/-- Items are read back, where the blanks before the first one are skipped already. -/
theorem takes_items (hgap : Blank gap) (hclose : Blank close) (hc : IsClosing c)
    {sources : List σ} (h : ∀ s ∈ sources, ReadsBack item text value s)
    (hnone : ∀ rest, Refuses item (c :: rest)) (rest : List Char) :
    Takes (items c item)
      ((commas (sources.map fun s => gap ++ text s) ++ (close ++ c :: rest)).dropWhile isSpace)
      (sources.map value) (rest.dropWhile isSpace) := by
  cases sources with
  | nil =>
      show Takes _ ((close ++ c :: rest).dropWhile isSpace) [] _
      rw [hclose.dropWhile_append (ends_cons hc.stands_out.1)]
      exact (hnone rest).optional.bind ((takes_mark c rest).bind (takes_pure _ _))
  | cons s sources =>
      obtain ⟨hends, hrepeats⟩ := repeats_moreItems hgap hclose hc
        (fun s' hs' => h s' (List.mem_cons_of_mem s hs')) rest
      have hs := h s List.mem_cons_self
      have hcons : commas ((s :: sources).map fun s => gap ++ text s) ++ (close ++ c :: rest)
          = gap ++ (text s ++ moreItems gap close c text sources rest) := by
        simp [commas_cons, moreItems, List.flatMap_map]
      rw [hcons, hgap.dropWhile_append (hs.starts _)]
      refine (hs.takes _ hends).optional.bind ?_
      exact hrepeats.many.bind ((takes_mark c rest).bind (takes_pure _ _))

end Items

/-! ## Values -/

theorem refuses_value {c : Char} (h : IsClosing c) (depth : Nat) (rest : List Char) :
    Refuses (value depth) (c :: rest) := by
  cases depth with
  | zero => rfl
  | succ depth => rcases h with rfl | rfl <;> rfl

theorem refuses_quoted {c : Char} (h : c ≠ '"') (rest : List Char) :
    Refuses quoted (c :: rest) :=
  (refuses_char h rest).discard.bind

/-- The digits of an integer, or the sign before them, come first. -/
theorem exists_integer_eq_cons (n : Int) :
    ∃ c cs, (Text.integer n).toList = c :: cs ∧ (c = '-' ∨ c.isDigit = true) := by
  unfold Text.integer
  split
  case isTrue => exact ⟨'-', Text.digits n.natAbs, by simp, .inl rfl⟩
  case isFalse =>
    rw [Text.toList_natural]
    cases hdigits : Text.digits n.natAbs with
    | nil => exact absurd hdigits (Text.digits_ne_nil _)
    | cons c cs =>
        exact ⟨c, cs, rfl, .inr (Text.isDigit_of_mem_digits (hdigits ▸ List.mem_cons_self))⟩

theorem isSpace_eq_false {c : Char} (h : c = '-' ∨ c.isDigit = true) : isSpace c = false := by
  rw [Bool.eq_false_iff]
  intro hspace
  simp only [isSpace, Bool.or_eq_true, beq_iff_eq] at hspace
  rcases hspace with ((rfl | rfl) | rfl) | rfl <;> exact absurd h (by decide)

/-- Where a sign or a digit comes next, there is a number. -/
theorem takes_value_of_number {depth : Nat} {c : Char} {cs rest : List Char} {d : Datum}
    (hc : c = '-' ∨ c.isDigit = true) (h : Takes number (c :: cs) d rest) :
    Takes (value (depth + 1)) (c :: cs) d (rest.dropWhile isSpace) := by
  unfold value
  refine (takes_peek? _).bind ?_
  rw [List.head?_cons]
  split
  case h_7 => exact h.bind ((takes_spaces rest).bind (takes_pure d _))
  all_goals exact absurd hc (by simp_all; try decide)

/-- A value that is neither a list nor a table is read back. -/
theorem takes_scalar {depth : Nat} {d : Datum} (h : isScalar d = true)
    (hd : FitsIn (depth + 1) d) {rest : List Char} (hrest : Ends isNumberPart rest) :
    Takes (value (depth + 1)) ((scalar d).toList ++ rest) d.sorted (rest.dropWhile isSpace) := by
  cases d with
  | null =>
      exact (takes_peek? _).bind ((takes_text "null" rest).bind
        ((takes_spaces rest).bind (takes_pure _ _)))
  | bool b =>
      cases b with
      | false =>
          exact (takes_peek? _).bind ((takes_text "false" rest).bind
            ((takes_spaces rest).bind (takes_pure _ _)))
      | true =>
          exact (takes_peek? _).bind ((takes_text "true" rest).bind
            ((takes_spaces rest).bind (takes_pure _ _)))
  | int n =>
      have htakes := takes_number hd.1 hd.2 hrest
      obtain ⟨c, cs, heq, hc⟩ := exists_integer_eq_cons n
      rw [scalar]
      rw [heq] at htakes ⊢
      exact takes_value_of_number hc htakes
  | float x => exact hd.elim
  | text s =>
      have htakes := takes_quoted s rest
      rw [scalar]
      rw [toList_quote] at htakes ⊢
      exact (takes_peek? _).bind (htakes.bind ((takes_spaces rest).bind (takes_pure _ _)))
  | list items => exact absurd h (by simp [isScalar])
  | table entries => exact absurd h (by simp [isScalar])

theorem starts_scalar {depth : Nat} {d : Datum} (h : isScalar d = true)
    (hd : FitsIn (depth + 1) d) (rest : List Char) :
    Ends isSpace ((scalar d).toList ++ rest) := by
  cases d with
  | null => exact ends_cons (by decide)
  | bool b => cases b <;> exact ends_cons (by decide)
  | int n =>
      obtain ⟨c, cs, heq, hc⟩ := exists_integer_eq_cons n
      rw [scalar, heq]
      exact ends_cons (isSpace_eq_false hc)
  | float x => exact hd.elim
  | text s =>
      rw [scalar, toList_quote]
      exact ends_cons (by decide)
  | list items => exact absurd h (by simp [isScalar])
  | table entries => exact absurd h (by simp [isScalar])

/-- An entry of a table: a name, a colon and a value. -/
def entry (item : Reader Datum) : Reader (String × Datum) := do
  let name ← quoted
  spaces
  mark ':'
  return (name, ← item)

theorem ReadsBack.entry {item : Reader Datum} {text : Datum → List Char} {e : String × Datum}
    {colon : List Char} (hcolon : Blank colon) (h : ReadsBack item text Datum.sorted e.2) :
    ReadsBack (entry item) (fun e => (quote e.1).toList ++ ':' :: (colon ++ text e.2))
      (fun e => (e.1, e.2.sorted)) e where
  starts rest := by
    rw [toList_quote]
    exact ends_cons (by decide)
  takes rest hrest := by
    simp only [List.append_assoc, List.cons_append]
    refine (takes_quoted e.1 _).bind ((takes_spaces _).bind ((takes_mark ':' _).bind ?_))
    rw [hcolon.dropWhile_append (h.starts rest)]
    exact (h.takes rest hrest).bind (takes_pure _ _)

section Value

variable {write : Nat → Datum → List Char}

/-- Data starts with a character other than a blank. -/
theorem IsLayout.starts (hw : IsLayout write) {depth : Nat} {d : Datum} (hd : FitsIn depth d)
    (level : Nat) (rest : List Char) : Ends isSpace (write level d ++ rest) := by
  cases depth with
  | zero => exact hd.elim
  | succ depth =>
      cases hscalar : isScalar d with
      | true =>
          rw [hw.scalar level d hscalar]
          exact starts_scalar hscalar hd rest
      | false =>
          cases d with
          | list items =>
              obtain ⟨gap, close, -, -, heq⟩ := hw.list level items
              rw [heq]
              exact ends_cons (by decide)
          | table entries =>
              obtain ⟨gap, colon, close, -, -, -, heq⟩ := hw.table level entries
              rw [heq]
              exact ends_cons (by decide)
          | _ => exact absurd hscalar (by simp [isScalar])

/-- Data is read back from its text in any layout, up to the next mark. -/
theorem IsLayout.takes_value (hw : IsLayout write) {depth : Nat} {d : Datum}
    (hd : FitsIn depth d) (level : Nat) {rest : List Char} (hrest : Ends isNumberPart rest) :
    Takes (value depth) (write level d ++ rest) d.sorted (rest.dropWhile isSpace) := by
  induction depth generalizing d level rest with
  | zero => exact hd.elim
  | succ depth ih =>
      have hitem : ∀ d, FitsIn depth d →
          ReadsBack (value depth) (write (level + 1)) Datum.sorted d := fun d hd =>
        ⟨hw.starts hd (level + 1), fun rest hrest => ih hd (level + 1) hrest⟩
      cases hscalar : isScalar d with
      | true =>
          rw [hw.scalar level d hscalar]
          exact takes_scalar hscalar hd hrest
      | false =>
          cases d with
          | list items =>
              obtain ⟨gap, close, hgap, hclose, heq⟩ := hw.list level items
              have htakes := takes_items hgap hclose (.inl rfl)
                (fun d hmem => hitem d (hd d hmem)) (refuses_value (.inl rfl) depth) rest
              rw [heq, Datum.sorted_list]
              simp only [List.cons_append, List.append_assoc]
              exact (takes_peek? _).bind ((takes_mark '[' _).bind (htakes.bind (takes_pure _ _)))
          | table entries =>
              obtain ⟨gap, colon, close, hgap, hcolon, hclose, heq⟩ := hw.table level entries
              have htakes := takes_items hgap hclose (.inr rfl)
                (fun e he => (hitem e.2 (hd e he)).entry hcolon)
                (fun rest => (refuses_quoted (by decide) rest).bind) rest
              rw [heq, Datum.sorted_table]
              simp only [List.cons_append, List.append_assoc]
              exact (takes_peek? _).bind
                ((takes_mark '\x7b' _).bind (htakes.bind (takes_pure _ _)))
          | _ => exact absurd hscalar (by simp [isScalar])

/-- A whole text in any layout is read back. -/
theorem IsLayout.read?_eq (hw : IsLayout write) {d : Datum} (hd : FitsIn maxDepth d)
    {s : String} (hs : s.toList = write 0 d) : read? s = some d.sorted := by
  have hstart : (write 0 d).dropWhile isSpace = write 0 d := by
    simpa using (hw.starts hd 0 []).dropWhile
  have htakes := hw.takes_value hd 0 (ends_nil isNumberPart)
  rw [List.append_nil] at htakes
  refine readAll?_eq_some ((takes_spaces _).seqRight ?_)
  rw [hs, hstart]
  exact htakes

end Value

/-- Data is read back from compact text. -/
theorem read?_compact {d : Datum} (hd : FitsIn maxDepth d) : read? (compact d) = some d.sorted :=
  compact_isLayout.read?_eq hd rfl

/-- Data is read back from indented text. -/
theorem read?_indented {d : Datum} (hd : FitsIn maxDepth d) :
    read? (indented d) = some d.sorted :=
  indented_isLayout.read?_eq hd rfl

end SpikeMesh.Json
