import LayeredDrawing.OrderedMap.Lemmas
import LayeredDrawing.Scalar.Binary64
import LayeredDrawing.Scalar.Exact
import LayeredDrawing.Decimal.Notation
import LayeredDrawing.Session.Step
import LayeredDrawing.Proofs.OrderedMap.Entries
import LayeredDrawing.Proofs.Workspace.Outcome
import LayeredDrawing.Proofs.Graph.Coherent
import LayeredDrawing.Proofs.Workspace.Sound
import LayeredDrawing.Proofs.Workspace.Reached
import LayeredDrawing.Proofs.Graph.Cycle
import LayeredDrawing.Proofs.Graph.TopologicalOrder
import LayeredDrawing.Proofs.Arrangement.Filed
import LayeredDrawing.Proofs.Ordering.Reordered
import LayeredDrawing.Proofs.Placement.Heights
import LayeredDrawing.Proofs.Workspace.Redrawn
import LayeredDrawing.Proofs.Phase.Layering
import LayeredDrawing.Proofs.Chain.Bridge
import LayeredDrawing.Proofs.Workspace.Replaced
import LayeredDrawing.Proofs.Phase.Expanding
import LayeredDrawing.Proofs.Phase.Expansion
import LayeredDrawing.Proofs.Phase.Ordering
import LayeredDrawing.Proofs.Phase.Placement
import LayeredDrawing.Proofs.Phase.Reconstruction
import LayeredDrawing.Proofs.Route.Clean
import LayeredDrawing.Proofs.Drawing.Run
import LayeredDrawing.Proofs.Drawing.Success
import LayeredDrawing.Proofs.Drawing.Conservation
import LayeredDrawing.Proofs.Drawing.Reached
import LayeredDrawing.Proofs.Drawing.BendCount
import LayeredDrawing.Proofs.Drawing.Clearance
import LayeredDrawing.Proofs.Graph.CycleSearch
import LayeredDrawing.Proofs.Fault.Plain
import LayeredDrawing.Proofs.Workspace.Built
import LayeredDrawing.Proofs.Phase.Refusal
import LayeredDrawing.Proofs.Drawing.CycleRejection
import LayeredDrawing.Proofs.Drawing.Course
import LayeredDrawing.Proofs.Drawing.Agreement
import LayeredDrawing.Proofs.Ordering.PairCount
import LayeredDrawing.Proofs.Drawing.Crossings
import LayeredDrawing.Proofs.Workspace.Grouped
import LayeredDrawing.Proofs.Arrangement.Listing
import LayeredDrawing.Proofs.Phase.Reattachment
import LayeredDrawing.Proofs.Placement.Projection
import LayeredDrawing.Proofs.Ledger.Basic
import LayeredDrawing.Proofs.Ledger.Refinement
import LayeredDrawing.Proofs.Fault.Carried
import LayeredDrawing.Proofs.OrderedMap.Image
import LayeredDrawing.Proofs.Renaming.Basic
import LayeredDrawing.Proofs.Renaming.Ordering
import LayeredDrawing.Proofs.Placement.Scaling
import LayeredDrawing.Proofs.Renaming.Placement
import LayeredDrawing.Proofs.Renaming.Expansion
import LayeredDrawing.Proofs.Renaming.Drawing
import LayeredDrawing.Proofs.Drawing.Rearranged
import LayeredDrawing.Proofs.Drawing.Repetition
import LayeredDrawing.Proofs.Drawing.Rescaling
import LayeredDrawing.Proofs.Renaming.Cycle
import LayeredDrawing.Proofs.Renaming.Isomorphic
import LayeredDrawing.Proofs.Drawing.Isomorphic
import LayeredDrawing.Proofs.Ordering.FirstLeast
import LayeredDrawing.Proofs.Drawing.Layers
import LayeredDrawing.Proofs.Drawing.Subdivision
import LayeredDrawing.Proofs.Placement.FromZero
import LayeredDrawing.Proofs.Ordering.SortedLayer
import LayeredDrawing.Proofs.Ordering.Average
import LayeredDrawing.Proofs.Binary64.Ratio
import LayeredDrawing.Proofs.Ordering.Uncrossed
import LayeredDrawing.Proofs.Route.Thinned
import LayeredDrawing.Proofs.Phase.Atomic
import LayeredDrawing.Proofs.Route.Drift
import LayeredDrawing.Proofs.Workspace.InStep
import LayeredDrawing.Proofs.OrderedMap.Related
import LayeredDrawing.Proofs.Graph.Parting
import LayeredDrawing.Proofs.Workspace.Parting
import LayeredDrawing.Proofs.Workspace.Stored
import LayeredDrawing.Proofs.Workspace.Copies
import LayeredDrawing.Proofs.Phase.Parting
import LayeredDrawing.Proofs.Phase.Stored
import LayeredDrawing.Proofs.Session.Seen
import LayeredDrawing.Proofs.Session.Parting
import LayeredDrawing.Proofs.Session.Stored
import LayeredDrawing.Proofs.Session.Copies
