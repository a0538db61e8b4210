import LayeredDrawing.Phase.Ordering
import LayeredDrawing.Placement.Heights

/-!
# Placement

The fourth phase gives every node its final position: across the layers by the number of its layer,
along its layer by `heights`.
-/

namespace LayeredDrawing.Action

variable {α : Type} [Scalar α]

/-- writes the positions of the nodes of layer number `i` into the graph -/
def positionLayer (c : Config α) (hs : Heights α) (layer : List NodeId) (i : Nat) :
    Action α Unit :=
  layer.forM fun id => do
    let y ← check (hs.entry id)
    edit fun g => g.setPosition id (layerPosition c i) y

/-- gives every node its position -/
def place (c : Config α) (s : Snapshot) : Action α Snapshot := do
  check (s.requireStage .ordered)
  let hs ← ask fun g => heights g c s.arrangement
  check (requireOrdered hs s.arrangement)
  s.arrangement.zipIdx.forM fun p => positionLayer c hs p.1 p.2
  return { s with stage := .positioned }

end LayeredDrawing.Action
