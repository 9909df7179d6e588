import SurfaceFabric.Word
import SurfaceFabric.Text.Printable
import SurfaceFabric.Text.Quoted
import SurfaceFabric.Text.Json
import SurfaceFabric.Text.Json.Printer
import SurfaceFabric.Symbol
import SurfaceFabric.Gate
import SurfaceFabric.Circuit
import SurfaceFabric.Circuit.Slack
import SurfaceFabric.Rect
import SurfaceFabric.Segment
import SurfaceFabric.Tiling
import SurfaceFabric.Tiling.Edit
import SurfaceFabric.Tiling.Split
import SurfaceFabric.Tiling.Merge
import SurfaceFabric.Tiling.Audit
import SurfaceFabric.Tiling.Operation
import SurfaceFabric.Ascending
import SurfaceFabric.Layout
import SurfaceFabric.Pool
import SurfaceFabric.Schedule
import SurfaceFabric.Schedule.Simulation
import SurfaceFabric.Schedule.Fastest
import SurfaceFabric.SlotKind
import SurfaceFabric.Settings
import SurfaceFabric.Error
import SurfaceFabric.Plan
import SurfaceFabric.Placement.Error
import SurfaceFabric.Placement.Connector
import SurfaceFabric.Placement.Connect
import SurfaceFabric.Placement.Factory
import SurfaceFabric.Placement.Fill
import SurfaceFabric.Placement
import SurfaceFabric.Optimise
import SurfaceFabric.Classes
import SurfaceFabric.SlotTree.Tally
import SurfaceFabric.SlotTree
import SurfaceFabric.SlotTree.Access
import SurfaceFabric.SlotTree.Cluster
import SurfaceFabric.SlotTree.Build
import SurfaceFabric.SlotTree.Allocate
import SurfaceFabric.Mapping
import SurfaceFabric.LockGrid
import SurfaceFabric.PathSearch
import SurfaceFabric.Teleport
import SurfaceFabric.Routing
import SurfaceFabric.Routing.Admission
import SurfaceFabric.Routing.Run
import SurfaceFabric.Text.Format
import SurfaceFabric.Text.Json.Format
import SurfaceFabric.Text.Yaml
import SurfaceFabric.Text.Yaml.Cursor
import SurfaceFabric.Text.Yaml.Scalar
import SurfaceFabric.Text.Yaml.Token
import SurfaceFabric.Text.Yaml.Reader
import SurfaceFabric.Text.Yaml.Format
import SurfaceFabric.Interchange
import SurfaceFabric.Settings.Load
import SurfaceFabric.Notes
import SurfaceFabric.Pipeline
import SurfaceFabric.Compile
import SurfaceFabric.Proofs.Outcome
import SurfaceFabric.Proofs.PathSearch
import SurfaceFabric.Proofs.PathSearch.Walk
import SurfaceFabric.Proofs.Pool
import SurfaceFabric.Proofs.Pool.Binding
import SurfaceFabric.Proofs.Pool.Protocol
import SurfaceFabric.Proofs.Pool.Stock
import SurfaceFabric.Proofs.Routing.Admission
import SurfaceFabric.Proofs.Routing.Refusal
import SurfaceFabric.Proofs.Routing.LockPlan
import SurfaceFabric.Proofs.Teleport
import SurfaceFabric.Proofs.Circuit
import SurfaceFabric.Proofs.Circuit.Sharing
import SurfaceFabric.Proofs.Circuit.Interaction
import SurfaceFabric.Proofs.Circuit.ProgramOrder
import SurfaceFabric.Proofs.Circuit.Countdown
import SurfaceFabric.Proofs.Circuit.Tenure
import SurfaceFabric.Proofs.Routing.Order
import SurfaceFabric.Proofs.Routing.Step
import SurfaceFabric.Proofs.Routing.Custody
import SurfaceFabric.Proofs.Routing.Tenure
import SurfaceFabric.Proofs.Routing.Exclusion
import SurfaceFabric.Proofs.Routing.Compound
import SurfaceFabric.Proofs.Routing.Bridging
import SurfaceFabric.Proofs.Failure
import SurfaceFabric.Proofs.Rect
import SurfaceFabric.Proofs.Tiling.Edit
import SurfaceFabric.Proofs.Tiling.WellTiled
import SurfaceFabric.Proofs.Tiling.Operation
import SurfaceFabric.Proofs.Tiling.Roles
import SurfaceFabric.Proofs.Tiling.Safety
import SurfaceFabric.Proofs.Tiling.Exact
import SurfaceFabric.Proofs.Tiling.Frame
import SurfaceFabric.Proofs.Tiling.FreeSpace
import SurfaceFabric.Proofs.Tiling.Accept
import SurfaceFabric.Proofs.Tiling.Join
import SurfaceFabric.Proofs.Placement.Served
import SurfaceFabric.Proofs.Placement.Standing
import SurfaceFabric.Proofs.Placement.Connect
import SurfaceFabric.Proofs.Placement.Factory
import SurfaceFabric.Proofs.Placement.Stack
import SurfaceFabric.Proofs.Placement.Fill
import SurfaceFabric.Proofs.Placement.Place
import SurfaceFabric.Proofs.Placement.Safety
import SurfaceFabric.Proofs.Placement.Navigable
import SurfaceFabric.Proofs.Placement.Turns
import SurfaceFabric.Proofs.Placement.Plain
import SurfaceFabric.Proofs.Placement.Leftover
import SurfaceFabric.Proofs.Placement.Ownership
import SurfaceFabric.Proofs.Circuit.Slack
import SurfaceFabric.Proofs.Schedule.Progress
import SurfaceFabric.Proofs.Schedule.Step
import SurfaceFabric.Proofs.Schedule.Validity
import SurfaceFabric.Proofs.Schedule.Budget
import SurfaceFabric.Proofs.Schedule.Supply
import SurfaceFabric.Proofs.Schedule.Lending
import SurfaceFabric.Proofs.Schedule.Ample
import SurfaceFabric.Proofs.Schedule.Priority
import SurfaceFabric.Proofs.Routing.Passage
import SurfaceFabric.Proofs.Routing.Progress
import SurfaceFabric.Proofs.Routing.Quiet
import SurfaceFabric.Proofs.Routing.Deferral
import SurfaceFabric.Proofs.Routing.FastForward
import SurfaceFabric.Proofs.SlotTree.Forest
import SurfaceFabric.Proofs.SlotTree.Hang
import SurfaceFabric.Proofs.SlotTree.Count
import SurfaceFabric.Proofs.SlotTree.Allocate
import SurfaceFabric.Proofs.Classes
import SurfaceFabric.Proofs.SlotTree.Cluster
import SurfaceFabric.Proofs.SlotTree.Access
import SurfaceFabric.Proofs.SlotTree.Build
import SurfaceFabric.Proofs.SlotTree.Bond
import SurfaceFabric.Proofs.SlotTree.Ledger
import SurfaceFabric.Proofs.SlotTree.Shape
import SurfaceFabric.Proofs.SlotTree.Wares
import SurfaceFabric.Proofs.SlotTree.Units
import SurfaceFabric.Proofs.Mapping.Fresh
import SurfaceFabric.Proofs.Mapping
import SurfaceFabric.Proofs.Mapping.Pool
import SurfaceFabric.Proofs.Mapping.Accommodation
import SurfaceFabric.Proofs.Mapping.Injective
import SurfaceFabric.Proofs.Optimise
import SurfaceFabric.Proofs.Compile
import SurfaceFabric.Proofs.Pool.Faces
import SurfaceFabric.Proofs.Schedule.Lockstep
import SurfaceFabric.Proofs.Schedule.Score
import SurfaceFabric.Proofs.Pool.Leak
import SurfaceFabric.Proofs.Routing.Seating
import SurfaceFabric.Proofs.Routing.Path
import SurfaceFabric.Proofs.Routing.Vacant
import SurfaceFabric.Proofs.Routing.Barred
import SurfaceFabric.Proofs.Routing.Deadlock
import SurfaceFabric.Proofs.Routing.Safety
import SurfaceFabric.Proofs.Compile.Safety
import SurfaceFabric.Proofs.Tiling.FixedPoint
import SurfaceFabric.Proofs.Tiling.Restore
import SurfaceFabric.Proofs.Tiling.Grow
import SurfaceFabric.Proofs.Tiling.Rejection
import SurfaceFabric.Proofs.Placement.Realised
import SurfaceFabric.Proofs.Placement.Lanes
import SurfaceFabric.Proofs.Routing.Termination
