import LayeredDrawing.Workspace

/-!
# Blueprints

A blueprint lists the nodes of a graph and then its edges by source and target; `build` makes the
graph in that order.
-/

namespace LayeredDrawing

variable {α : Type} [Scalar α]

open Scalar

namespace Node

/-- a node that has not been laid out -/
def unplaced (label : String) (size : Option (α × α)) : Node α :=
  ⟨label, size, 0, zero, zero, false⟩

/-- a dummy node in a layer -/
def dummy (layer : Int) (x y : α) : Node α := ⟨"", none, layer, x, y, true⟩

end Node

/-- a node of a blueprint -/
structure Blueprint.Entry (α : Type) where
  id : NodeId
  node : Node α

structure Blueprint (α : Type) where
  nodes : List (Blueprint.Entry α)
  edges : List (NodeId × NodeId)

namespace Blueprint

def steps (b : Blueprint α) : Action α Unit := do
  b.nodes.forM fun entry => Action.edit fun g => g.addNode entry.id entry.node
  b.edges.forM fun e => discard (Action.addEdge e.1 e.2 false)

/-- the workspace with the graph alone, unless a step is refused -/
def build (b : Blueprint α) : Except Fault (Workspace α) :=
  match b.steps.perform default with
  | (.ok (), w) => .ok w
  | (.error fault, _) => .error fault

end Blueprint

end LayeredDrawing
