import LayeredDrawing.Config
import LayeredDrawing.Graph.Layers
import LayeredDrawing.Snapshot
import LayeredDrawing.Workspace

/-!
# Layering

The first phase puts every node into its longest-path layer.  The list of a layer holds its nodes
in node order.  A graph with a cycle is refused, and nothing has changed then.
-/

namespace LayeredDrawing

variable {α : Type}

/-- one list for each layer up to the highest, with the nodes of the layer in the order given -/
def arrange (ids : List NodeId) (layers : OrderedMap NodeId Int) : Arrangement :=
  let count := match layers.values with
    | [] => 0
    | a :: l => (l.foldl max a + 1).toNat
  (List.range count).map fun (i : Nat) => ids.filter fun id => layers.get? id = some (i : Int)

section
variable [Scalar α]

/-- where layer number `layer` stands on the axis across the layers -/
def layerPosition (c : Config α) (layer : Int) : α := Scalar.ofInt layer * c.layerSpacing

/-- the same for any number, which may be too large -/
def layerPosition? (c : Config α) (layer : Int) : Except Fault α :=
  match (Scalar.ofInt? layer : Option α) with
  | none => .error .numberTooLarge
  | some a => .ok (a * c.layerSpacing)

namespace Action

/-- writes the layer of a node, and its place on that axis, into the graph -/
def writeLayer (c : Config α) (layers : OrderedMap NodeId Int) (id : NodeId) : Action α Unit := do
  let layer ← check (layers.entry id)
  edit fun g => g.modifyNode id fun n => { n with layer, x := layerPosition c layer }

/-- puts every node into its layer -/
def putInLayers (c : Config α) (s : Snapshot) : Action α Snapshot := do
  check (s.requireStage .unlaidOut)
  let layers ← ask Graph.layering
  let ids := (← get).graph.nodeIds
  ids.forM (writeLayer c layers)
  return { s with stage := .layered, layers, arrangement := arrange ids layers }

end Action

end

end LayeredDrawing
