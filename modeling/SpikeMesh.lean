import SpikeMesh.Artifacts
import SpikeMesh.Json.Reader
import SpikeMesh.Main
import SpikeMesh.Proofs.Routing.Delivery
import SpikeMesh.Proofs.Routing.KeySpace
import SpikeMesh.Proofs.Fabric.Edits
import SpikeMesh.Proofs.Graph.Numbering
import SpikeMesh.Proofs.Graph.Rules
import SpikeMesh.Proofs.Mapping.Slices
import SpikeMesh.Proofs.Mapping.Traffic
import SpikeMesh.Proofs.Mapping.Placement
import SpikeMesh.Proofs.Mapping.Delivery
import SpikeMesh.Proofs.Board.Requests
import SpikeMesh.Proofs.Run.Generation
import SpikeMesh.Proofs.Run.Steps
import SpikeMesh.Proofs.Run.Loading
import SpikeMesh.Proofs.Run.Soundness
import SpikeMesh.Proofs.Run.History
import SpikeMesh.Proofs.Mapping.Room
import SpikeMesh.Proofs.Mapping.Safety
import SpikeMesh.Proofs.Board.Alike
import SpikeMesh.Proofs.Board.FaultFree
import SpikeMesh.Proofs.Run.Service
import SpikeMesh.Proofs.Run.Recovery
import SpikeMesh.Proofs.Tags.Allocation
import SpikeMesh.Proofs.Bytes
import SpikeMesh.Proofs.Mapping.Fingerprint
import SpikeMesh.Proofs.Fabric.Links
import SpikeMesh.Proofs.Fabric.Attachment
import SpikeMesh.Proofs.Fabric.History
import SpikeMesh.Proofs.Routing.Peripherals
import SpikeMesh.Proofs.Run.MeshTables
import SpikeMesh.Proofs.Fabric.Extension
import SpikeMesh.Proofs.Mapping.Remapping
import SpikeMesh.Proofs.Mapping.Budget
import SpikeMesh.Proofs.Mapping.Completeness
import SpikeMesh.Proofs.Mapping.FullLoad
import SpikeMesh.Proofs.Board.Attempts
import SpikeMesh.Proofs.Run.Plans
import SpikeMesh.Proofs.Run.Order
import SpikeMesh.Proofs.Routing.Settling
import SpikeMesh.Proofs.Routing.Shortest
import SpikeMesh.Proofs.Mapping.Tiling
import SpikeMesh.Proofs.Mapping.Partitioning
import SpikeMesh.Proofs.Graph.Rows
import SpikeMesh.Proofs.Graph.Composition
import SpikeMesh.Proofs.Artifacts
import SpikeMesh.Proofs.Routing.Cycles
import SpikeMesh.Proofs.Mapping.Pruning
import SpikeMesh.Proofs.Mapping.Shortage
import SpikeMesh.Proofs.Run.AnyOrder
import SpikeMesh.Proofs.Tags.Precedence
import SpikeMesh.Proofs.Tags.Range
import SpikeMesh.Proofs.Run.Length
import SpikeMesh.Proofs.Graph.Gaps
import SpikeMesh.Proofs.Text.Coordinates
import SpikeMesh.Proofs.Fabric.DownParts
import SpikeMesh.Proofs.Routing.Scaling
import SpikeMesh.Proofs.Routing.HexDistance
import SpikeMesh.Proofs.Text.Numbers
import SpikeMesh.Proofs.Text.Readers
import SpikeMesh.Proofs.Json.Scalars
import SpikeMesh.Proofs.Datum.ReadBack
import SpikeMesh.Proofs.Json.RoundTrip
