import LayeredDrawing.Phase.Placement

/-!
# Reconstruction

The last phase puts every hidden edge back.  Its bends are the positions of the dummy nodes of its
chain, in order; the dummy nodes leave the graph, and their edges with them.  If configured, bends
that say nothing are cleaned away.
-/

namespace LayeredDrawing.Action

variable {α : Type}

/-- turns a dummy node into a bend of the edge -/
def bendAt (e : Edge) (id : NodeId) : Action α Unit := do
  let n ← ask fun g => g.node id
  addBend e n.position
  edit fun g => g.removeNode id

/-- puts the hidden edge of a chain back in place of the chain -/
def restoreEdge (chain : Chain) : Action α Unit := do
  let e ← reattach chain.edge
  chain.nodes.forM (bendAt e)

/-- puts all hidden edges back -/
def restoreEdges [Metric α] (c : Config α) (s : Snapshot) : Action α Snapshot := do
  check (s.requireStage .positioned)
  s.chains.values.forM restoreEdge
  if c.cleanBends then discard (cleanRoutes c.tolerance)
  let gone := s.dummyNodes
  return { s with
    stage := .reconstructed
    layers := s.layers.filter fun id => !gone.contains id
    arrangement := s.arrangement.map fun layer => layer.filter fun id => !gone.contains id
    chains := ∅ }

end LayeredDrawing.Action
