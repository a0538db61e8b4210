import LayeredDrawing.Arrangement
import LayeredDrawing.Graph.Basic

/-!
# Snapshots

A snapshot is what one phase hands to the next beside the graph: the stage reached, the layer of
every node, the arrangement of the nodes in their layers, and the chains that stand in for long
edges.
-/

namespace LayeredDrawing

/-- a hidden edge, and the dummy nodes and edges that lead from its source to its target instead -/
structure Chain where
  edge : Edge
  nodes : List NodeId
  edges : List Edge
deriving DecidableEq

/-- the number of layers that the hidden edge leads across -/
def Chain.span (c : Chain) : Nat := c.nodes.length + 1

structure Snapshot where
  stage : Stage
  layers : OrderedMap NodeId Int
  arrangement : Arrangement
  /-- the chains, under the keys of their hidden edges -/
  chains : OrderedMap Int Chain

namespace Snapshot

/-- where every run begins -/
def initial : Snapshot := ⟨.unlaidOut, ∅, [], ∅⟩

instance : Inhabited Snapshot := ⟨initial⟩

def layerCount (s : Snapshot) : Nat := s.arrangement.length

def dummyNodes (s : Snapshot) : List NodeId := s.chains.values.flatMap Chain.nodes

def dummyEdges (s : Snapshot) : List Edge := s.chains.values.flatMap Chain.edges

/-- refuses a snapshot that is not at the given stage -/
def requireStage (s : Snapshot) (stage : Stage) : Except Fault Unit :=
  if s.stage = stage then .ok () else .error (.stageMismatch stage s.stage)

theorem requireStage_eq_ok_iff {s : Snapshot} {stage : Stage} :
    s.requireStage stage = .ok () ↔ s.stage = stage := by
  unfold requireStage
  split <;> simp_all

end Snapshot

end LayeredDrawing
