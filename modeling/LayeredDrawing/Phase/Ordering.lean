import LayeredDrawing.Ordering.Search
import LayeredDrawing.Phase.Expansion

/-!
# Ordering

The third phase reorders every layer so that few edges cross, and puts each node at the height that
its position in the layer says.
-/

namespace LayeredDrawing.Action

variable {α : Type} [Scalar α]

/-- puts the nodes of a layer at the heights 0, 1, 2, … -/
def stackLayer (layer : List NodeId) : Action α Unit :=
  layer.zipIdx.forM fun p =>
    edit fun g => g.modifyNode p.1 fun n => { n with y := Scalar.ofNat p.2 }

/-- reorders the layers -/
def reorder (c : Config α) (s : Snapshot) : Action α Snapshot := do
  check (s.requireStage .expanded)
  ask fun g => requireUnitSpans g s
  let arrangement ← ask fun g => bestArrangement g c s.arrangement
  arrangement.forM stackLayer
  return { s with stage := .ordered, arrangement }

end LayeredDrawing.Action
