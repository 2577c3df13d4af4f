import SpikeMesh.Datum.Basic

set_option autoImplicit false

/-! # Tables under construction

The tables of a TOML text while its statements are read. A table is opened by a header, is
implied by a header below it, or arises from a dotted key. A header may open an implied table
but no table twice; a dotted key extends only tables that dotted keys made. -/

namespace SpikeMesh.Toml

/-- How a table came to be. -/
inductive Origin
  | header
  | implied
  | dotted
deriving DecidableEq, Repr

mutual

/-- What a name of a table holds. -/
inductive Node
  /-- A finished value. -/
  | leaf (value : Datum)
  | table (t : Table)
  /-- An array of tables: the last one, which may still grow, and the earlier ones, latest
      first. -/
  | tables (last : Table) (earlier : List Table)

/-- A table under construction. -/
inductive Table
  | mk (origin : Origin) (entries : List (String × Node))

end

namespace Table

/-- How the table came to be. -/
def origin : Table → Origin
  | .mk o _ => o

/-- The entries in the order of their first mention. -/
def entries : Table → List (String × Node)
  | .mk _ es => es

/-- A table without entries. -/
def empty (origin : Origin) : Table := .mk origin []

/-- Entries with the node of one name changed. -/
def alterEntries (name : String) (f : Option Node → Option Node) :
    List (String × Node) → Option (List (String × Node))
  | [] => (f none).map fun n => [(name, n)]
  | (other, node) :: rest =>
    if other = name then (f (some node)).map fun n => (other, n) :: rest
    else (alterEntries name f rest).map ((other, node) :: ·)

/-- The table with the node of one name changed. -/
def alter (name : String) (f : Option Node → Option Node) (t : Table) : Option Table :=
  (alterEntries name f t.entries).map (.mk t.origin)

/-- Edit the table at the end of a path. Missing tables on the way are made, as dotted or as
    implied ones; the way leads into the last table of an array; a dotted way does not enter a
    table that a header opened. -/
def editAt (dotted : Bool) (edit : Table → Option Table) : List String → Table → Option Table
  | [], t => edit t
  | name :: path, t => t.alter name fun
    | none =>
      (editAt dotted edit path (empty (if dotted then .dotted else .implied))).map .table
    | some (.leaf _) => none
    | some (.table sub) =>
      if dotted && sub.origin == .header then none
      else (editAt dotted edit path sub).map .table
    | some (.tables last earlier) =>
      (editAt dotted edit path last).map fun t => .tables t earlier

/-- Give a new name a value. -/
def addLeaf (name : String) (value : Datum) (t : Table) : Option Table :=
  t.alter name fun
    | none => some (.leaf value)
    | some _ => none

/-- Give the name at the end of a dotted path a value. -/
def assign (path : List String) (name : String) (value : Datum) (t : Table) : Option Table :=
  t.editAt true
    (fun sub => if !path.isEmpty && sub.origin != .dotted then none else sub.addLeaf name value)
    path

/-- Open the table at the end of a path by a header. -/
def openTable (path : List String) (name : String) (t : Table) : Option Table :=
  t.editAt false (fun parent => parent.alter name fun
    | none => some (.table (empty .header))
    | some (.table sub) =>
      if sub.origin == .implied then some (.table (.mk .header sub.entries)) else none
    | some _ => none) path

/-- Open a further table of the array at the end of a path. -/
def openArrayTable (path : List String) (name : String) (t : Table) : Option Table :=
  t.editAt false (fun parent => parent.alter name fun
    | none => some (.tables (empty .header) [])
    | some (.tables last earlier) => some (.tables (empty .header) (last :: earlier))
    | some _ => none) path

end Table

mutual

/-- The finished value of a node. -/
def Node.toDatum : Node → Datum
  | .leaf value => value
  | .table t => t.toDatum
  | .tables last earlier => .list ((last.toDatum :: tablesToData earlier).reverse)

/-- The finished values of tables. -/
def tablesToData : List Table → List Datum
  | [] => []
  | t :: ts => t.toDatum :: tablesToData ts

/-- The finished value of a table. -/
def Table.toDatum : Table → Datum
  | .mk _ es => .table (entriesToData es)

/-- The finished values of entries. -/
def entriesToData : List (String × Node) → List (String × Datum)
  | [] => []
  | (name, node) :: es => (name, node.toDatum) :: entriesToData es

end

end SpikeMesh.Toml
