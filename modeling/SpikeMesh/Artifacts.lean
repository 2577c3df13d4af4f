import SpikeMesh.Board.Text
import SpikeMesh.Config.Text
import SpikeMesh.Datum.Codec
import SpikeMesh.Diagnostic.Text
import SpikeMesh.Digest.Text
import SpikeMesh.Fabric.Text
import SpikeMesh.Mapping.Basic
import SpikeMesh.Run.Duration

set_option autoImplicit false

/-! # Artifacts as data

Everything else that can be written as data and read back: configurations, fabrics, the parts
of a mapping and the mapping itself, diagnostics, hashes and provenance. -/

namespace SpikeMesh

/-! ## Configurations -/

instance : ToDatum PartitionerKind := ⟨fun k => .text k.text⟩
instance : OfDatum PartitionerKind := ⟨PartitionerKind.ofDatum?⟩

instance : ToDatum PlacerKind := ⟨fun k => .text k.text⟩
instance : OfDatum PlacerKind := ⟨PlacerKind.ofDatum?⟩

instance : ToDatum RouterKind := ⟨fun k => .text k.text⟩
instance : OfDatum RouterKind := ⟨RouterKind.ofDatum?⟩

instance : ToDatum KeyAllocatorKind := ⟨fun k => .text k.text⟩
instance : OfDatum KeyAllocatorKind := ⟨KeyAllocatorKind.ofDatum?⟩

instance : ToDatum MachineConfig := ⟨MachineConfig.toDatum⟩
instance : OfDatum MachineConfig := ⟨MachineConfig.ofDatum?⟩

instance : ToDatum MappingConfig := ⟨MappingConfig.toDatum⟩
instance : OfDatum MappingConfig := ⟨MappingConfig.ofDatum?⟩

instance : ToDatum KeyConfig := ⟨KeyConfig.toDatum⟩
instance : OfDatum KeyConfig := ⟨KeyConfig.ofDatum?⟩

instance : ToDatum TagConfig := ⟨TagConfig.toDatum⟩
instance : OfDatum TagConfig := ⟨TagConfig.ofDatum?⟩

instance : ToDatum ReportConfig := ⟨ReportConfig.toDatum⟩
instance : OfDatum ReportConfig := ⟨ReportConfig.ofDatum?⟩

instance : ToDatum ExecutionConfig := ⟨ExecutionConfig.toDatum⟩
instance : OfDatum ExecutionConfig := ⟨ExecutionConfig.ofDatum?⟩

instance : ToDatum Config := ⟨Config.toDatum⟩
instance : OfDatum Config := ⟨Config.ofDatum?⟩

/-! ## Fabrics -/

instance : ToDatum Core := ⟨Core.toDatum⟩
instance : OfDatum Core := ⟨Core.ofDatum?⟩

instance : ToDatum Link := ⟨Link.toDatum⟩
instance : OfDatum Link := ⟨Link.ofDatum?⟩

instance : ToDatum Router := ⟨Router.toDatum⟩
instance : OfDatum Router := ⟨Router.ofDatum?⟩

instance : ToDatum Chip := ⟨Chip.toDatum⟩
instance : OfDatum Chip := ⟨Chip.ofDatum?⟩

instance : ToDatum Fabric := ⟨Fabric.toDatum⟩
instance : OfDatum Fabric := ⟨Fabric.ofDatum?⟩

instance : ToDatum VirtualChipSpec := ⟨VirtualChipSpec.toDatum⟩
instance : OfDatum VirtualChipSpec := ⟨VirtualChipSpec.ofDatum?⟩

/-! ## Mappings -/

instance : ToDatum AtomRange := ⟨AtomRange.toDatum⟩
instance : OfDatum AtomRange := ⟨AtomRange.ofDatum?⟩

instance : ToDatum Slice := ⟨Slice.toDatum⟩
instance : OfDatum Slice := ⟨Slice.ofDatum?⟩

instance : ToDatum PartitionedConnection := ⟨PartitionedConnection.toDatum⟩
instance : OfDatum PartitionedConnection := ⟨PartitionedConnection.ofDatum?⟩

instance : ToDatum PartitionedGraph := ⟨PartitionedGraph.toDatum⟩
instance : OfDatum PartitionedGraph := ⟨PartitionedGraph.ofDatum?⟩

instance : ToDatum Placements := ⟨Placements.toDatum⟩
instance : OfDatum Placements := ⟨Placements.ofDatum?⟩

instance : ToDatum RoutingKey := ⟨RoutingKey.toDatum⟩
instance : OfDatum RoutingKey := ⟨RoutingKey.ofDatum?⟩

instance : ToDatum KeyAssignments := ⟨KeyAssignments.toDatum⟩
instance : OfDatum KeyAssignments := ⟨KeyAssignments.ofDatum?⟩

instance : ToDatum RoutingEntry := ⟨RoutingEntry.toDatum⟩
instance : OfDatum RoutingEntry := ⟨RoutingEntry.ofDatum?⟩

instance : ToDatum RoutingTable := ⟨RoutingTable.toDatum⟩
instance : OfDatum RoutingTable := ⟨RoutingTable.ofDatum?⟩

instance : ToDatum RoutingTables := ⟨RoutingTables.toDatum⟩
instance : OfDatum RoutingTables := ⟨RoutingTables.ofDatum?⟩

instance : ToDatum NotificationTag := ⟨NotificationTag.toDatum⟩
instance : OfDatum NotificationTag := ⟨NotificationTag.ofDatum?⟩

instance : ToDatum ReverseTag := ⟨ReverseTag.toDatum⟩
instance : OfDatum ReverseTag := ⟨ReverseTag.ofDatum?⟩

instance : ToDatum TagAllocations := ⟨TagAllocations.toDatum⟩
instance : OfDatum TagAllocations := ⟨TagAllocations.ofDatum?⟩

instance : ToDatum Mapping := ⟨Mapping.toDatum⟩
instance : OfDatum Mapping := ⟨Mapping.ofDatum?⟩

/-! ## Reports -/

instance : ToDatum Severity := ⟨Severity.toDatum⟩
instance : OfDatum Severity := ⟨Severity.ofDatum?⟩

instance : ToDatum Category := ⟨Category.toDatum⟩
instance : OfDatum Category := ⟨Category.ofDatum?⟩

instance : ToDatum DiagnosticCode := ⟨DiagnosticCode.toDatum⟩
instance : OfDatum DiagnosticCode := ⟨DiagnosticCode.ofDatum?⟩

instance : ToDatum Diagnostic := ⟨Diagnostic.toDatum⟩
instance : OfDatum Diagnostic := ⟨Diagnostic.ofDatum?⟩

instance : ToDatum ContentHash := ⟨ContentHash.toDatum⟩
instance : OfDatum ContentHash := ⟨ContentHash.ofDatum?⟩

instance : ToDatum RunLength := ⟨RunLength.toDatum⟩
instance : OfDatum RunLength := ⟨RunLength.ofDatum?⟩

instance : ToDatum ProvenanceItem := ⟨ProvenanceItem.toDatum⟩
instance : OfDatum ProvenanceItem := ⟨ProvenanceItem.ofDatum?⟩

end SpikeMesh
