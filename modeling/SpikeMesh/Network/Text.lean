import SpikeMesh.Fabric.Text
import SpikeMesh.Network.Basic
import SpikeMesh.Toml.Document

set_option autoImplicit false

/-! # Reading network files

A network file in TOML has a table `unit` for each unit and a table `connection` for each
connection. Unknown names are refused, except in the description of a virtual chip and in a
rule. -/

namespace SpikeMesh

/-- A cost of which every part may be missing. -/
def Cost.ofPartialDatum? (d : Datum) : Option Cost := do
  let f ← d.toFieldsOnly? ["cpu_cycles", "local_memory", "shared_memory"]
  return {
    cpuCycles := ← f.withDefault "cpu_cycles" 0 Datum.toUInt64?
    localMemory := ← f.withDefault "local_memory" 0 Datum.toUInt64?
    sharedMemory := ← f.withDefault "shared_memory" 0 Datum.toUInt64? }

def NotificationTagRequest.ofDatum? (d : Datum) : Option NotificationTagRequest := do
  let f ← d.toFieldsOnly? ["tag", "host", "port"]
  return {
    tag := ← f.optional "tag" Datum.toUInt32?
    host := ← f.required "host" Datum.toText?
    port := ← f.required "port" Datum.toUInt16? }

def ReverseTagRequest.ofDatum? (d : Datum) : Option ReverseTagRequest := do
  let f ← d.toFieldsOnly? ["tag", "port"]
  return {
    tag := ← f.optional "tag" Datum.toUInt32?
    port := ← f.required "port" Datum.toUInt16? }

def UnitEntry.ofDatum? (d : Datum) : Option UnitEntry := do
  let f ← d.toFieldsOnly? [
    "label", "atoms", "image", "fixed", "per_atom", "state_bytes", "max_atoms_per_core",
    "location", "virtual_chip", "record", "notification_tag", "reverse_tag"]
  return {
    label := ← f.required "label" Datum.toText?
    atoms := ← f.required "atoms" Datum.toUInt32?
    image := ← f.required "image" Datum.toText?
    fixed := ← f.withDefault "fixed" .zero Cost.ofPartialDatum?
    perAtom := ← f.withDefault "per_atom" .zero Cost.ofPartialDatum?
    stateBytes := ← f.optional "state_bytes" Datum.toUInt32?
    maxAtomsPerCore := ← f.optional "max_atoms_per_core" Datum.toUInt32?
    location := ← f.optional "location" Location.ofDatum?
    virtualChip := ← f.optional "virtual_chip" VirtualChipSpec.ofDatum?
    record := ← f.withDefault "record" false Datum.toBool?
    notificationTag := ← f.optional "notification_tag" NotificationTagRequest.ofDatum?
    reverseTag := ← f.optional "reverse_tag" ReverseTagRequest.ofDatum? }

namespace RuleEntry

/-- A rule of some kind with the data that belongs to it. -/
def ofKind? (kind : String) (data : Datum) : Option RuleEntry :=
  match kind with
  | "all_to_all" => (data.toFields? []).map fun _ => allToAll
  | "one_to_one" => (data.toFields? []).map fun _ => oneToOne
  | "from_list" => do
    let f ← data.toFields? ["pairs"]
    return fromList (← f.required "pairs" (Datum.toList? (Datum.toPair? Datum.toUInt32?)))
  | "fixed_probability" => do
    let f ← data.toFields? ["probability", "seed"]
    return fixedProbability (← f.required "probability" Datum.toFloat?)
      (← f.withDefault "seed" 0 Datum.toUInt64?)
  | _ => none

/-- The kind of a rule stands beside its data, or first in a list. -/
def ofDatum? : Datum → Option RuleEntry
  | .table entries => do
    let kind ← Datum.valueNamed? entries "kind"
    ofKind? (← kind.toText?) (.table entries)
  | .list (.text kind :: rest) => ofKind? kind (.list rest)
  | _ => none

end RuleEntry

def ConnectionEntry.ofDatum? (d : Datum) : Option ConnectionEntry := do
  let f ← d.toFieldsOnly? ["label", "from", "to", "rule"]
  return {
    label := ← f.optional "label" Datum.toText?
    source := ← f.required "from" Datum.toText?
    target := ← f.required "to" Datum.toText?
    rule := ← f.required "rule" RuleEntry.ofDatum? }

namespace NetworkFile

def ofDatum? (d : Datum) : Option NetworkFile := do
  let f ← d.toFieldsOnly? ["unit", "connection"]
  return {
    units := ← f.withDefault "unit" [] (Datum.toList? UnitEntry.ofDatum?)
    connections := ← f.withDefault "connection" [] (Datum.toList? ConnectionEntry.ofDatum?) }

/-- The network file that a TOML text holds. -/
def ofToml? (text : String) : Option NetworkFile := Toml.read? text >>= ofDatum?

end NetworkFile

end SpikeMesh
