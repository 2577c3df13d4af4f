import SpikeMesh.Toml.Scalar
import SpikeMesh.Toml.Table

set_option autoImplicit false

/-! # TOML documents

The values and statements of TOML 1.0. A document is a sequence of lines: assignments to keys,
table headers, and headers of tables in an array. Arrays and inline tables nest to a fixed
depth. -/

namespace SpikeMesh.Toml

open Text (Reader)
open Text.Reader

/-! ## Values -/

/-- The items of an array, after its bracket, with commas between them and at most one after
    the last. -/
def arrayItems (item : Reader Datum) : Reader (List Datum) := do
  let spaced : Reader Datum := do
    gap
    let d ← item
    gap
    return d
  let items ← optional do
    let first ← spaced
    let rest ← many (char ',' *> spaced)
    discard (optional (char ','))
    return first :: rest
  gap
  discard (char ']')
  return items.getD []

/-- The path and the name that a key denotes. -/
def splitKey (key : List String) : List String × String :=
  (key.dropLast, key.getLast?.getD "")

/-- The assignments of an inline table, after its brace. -/
def inlineTable (item : Reader Datum) : Reader Datum := do
  let assignment : Reader (List String × Datum) := do
    let k ← key
    discard (char '=')
    spaces
    let d ← item
    spaces
    return (k, d)
  let assignments ← optional do
    let first ← assignment
    return first :: (← many (char ',' *> assignment))
  spaces
  discard (char '\x7d')
  let table := (assignments.getD []).foldlM
    (fun (t : Table) (k, d) => t.assign (splitKey k).1 (splitKey k).2 d) (Table.empty .header)
  match table with
  | some t => return t.toDatum
  | none => failure

/-- A value that nests at most `depth` deep. -/
def value (depth : Nat) : Reader Datum := do
  match depth with
  | 0 => failure
  | depth + 1 =>
    match ← peek? with
    | some '[' => discard (char '['); return .list (← arrayItems (value depth))
    | some '\x7b' => discard (char '\x7b'); inlineTable (value depth)
    | _ => scalar

/-- How deep arrays and inline tables may nest. -/
def maxDepth : Nat := 80

/-! ## Statements -/

/-- A statement of a document. -/
inductive Statement
  | assign (key : List String) (value : Datum)
  | table (key : List String)
  | arrayTable (key : List String)
  /-- An empty line or a comment. -/
  | blank

/-- The next statement, with the end of its line. -/
def statement : Reader Statement := do
  spaces
  match ← peek? with
  | none => failure
  | some '#' => lineEnd; return .blank
  | some '\n' | some '\r' => newLine; return .blank
  | some '[' =>
    let arrayHeader : Reader Statement := do
      text "[["
      let k ← key
      text "]]"
      return .arrayTable k
    let header : Reader Statement := do
      text "["
      let k ← key
      text "]"
      return .table k
    let s ← arrayHeader <|> header
    lineEnd
    return s
  | some _ =>
    let k ← key
    discard (char '=')
    spaces
    let d ← value maxDepth
    lineEnd
    return .assign k d

/-- A document under construction: all its tables, and the path of the one that the last
    header opened. -/
structure Draft where
  root : Table
  current : List String

/-- The draft after one more statement. -/
def Draft.add? (draft : Draft) : Statement → Option Draft
  | .blank => some draft
  | .assign k d =>
    let (path, name) := splitKey k
    (draft.root.editAt false (fun t => t.assign path name d) draft.current).map
      fun root => { draft with root }
  | .table k =>
    let (path, name) := splitKey k
    (draft.root.openTable path name).map fun root => ⟨root, k⟩
  | .arrayTable k =>
    let (path, name) := splitKey k
    (draft.root.openArrayTable path name).map fun root => ⟨root, k⟩

/-- The data tree of a TOML text. A byte order mark at its start is skipped. -/
def read? (s : String) : Option Datum := do
  let cs := match s.toList with
    | '\uFEFF' :: rest => rest
    | cs => cs
  let statements ← readAll? (do let ss ← many statement; spaces; return ss) cs
  let draft ← statements.foldlM Draft.add? ⟨Table.empty .header, []⟩
  return draft.root.toDatum

end SpikeMesh.Toml
