import LayeredDrawing.Drawing
import LayeredDrawing.Graph.Copy

/-!
# Sessions

A session holds several graphs, edges and snapshots, which later commands name by their positions.
Edges and snapshots stay usable when the graph has moved on.  The bends of all graphs are kept
together, so an edge that is in two graphs has the same bends in both.

* `Command`   one request;
* `Reply`     the answer to a request that is not refused;
* `Refusal`   why a request is refused.

Positions may be negative and then count from the end.
-/

namespace LayeredDrawing

structure Session (α : Type) where
  graphs : List (Graph α)
  edges : List Edge
  /-- each snapshot with the position of the graph that it is of -/
  snapshots : List (Nat × Snapshot)
  bends : Bends α

/-- one empty graph and nothing else -/
def Session.initial {α : Type} : Session α := ⟨[.empty], [], [], .empty⟩

/-- a request; `g`, `e` and `s` are positions of a graph, an edge and a snapshot -/
inductive Command (α : Type) where
  | newGraph
  | copyGraph (g : Int)
  | addNode (g : Int) (id : NodeId) (node : Node α)
  | removeNode (g : Int) (id : NodeId)
  | node (g : Int) (id : NodeId)
  | hasNode (g : Int) (id : NodeId)
  | addEdge (g : Int) (source target : NodeId) (isDummy : Bool)
  /-- an edge that is in no graph -/
  | makeEdge (key : Int) (source target : NodeId)
  /-- the edge registered under a key -/
  | findEdge (g : Int) (key : Int)
  | removeEdge (g e : Int)
  | reattach (g e : Int)
  | hasEdge (g e : Int)
  | sourceNode (g e : Int)
  | targetNode (g e : Int)
  | addBend (e : Int) (p : Point α)
  | showEdge (e : Int)
  | describeEdge (e : Int)
  | inEdges (g : Int) (id : NodeId)
  | outEdges (g : Int) (id : NodeId)
  | inDegree (g : Int) (id : NodeId)
  | outDegree (g : Int) (id : NodeId)
  | predecessors (g : Int) (id : NodeId)
  | successors (g : Int) (id : NodeId)
  | setPosition (g : Int) (id : NodeId) (p : Point α)
  | position (g : Int) (id : NodeId)
  | cleanRoutes (g : Int) (tol : α)
  | nodeIds (g : Int)
  | edgeKeys (g : Int)
  | showGraph (g : Int)
  | describeGraph (g : Int)
  /-- a snapshot at the stage of the given name -/
  | newSnapshot (g : Int) (stage : String) (layers : List (NodeId × Int))
    (arrangement : Arrangement)
  | phase (s : Int) (phase : Phase) (settings : List (Setting α))
  | draw (g : Int) (settings : List (Setting α))
  | showSnapshot (s : Int)
  | requireUnitSpans (s : Int)
  /-- refuses a snapshot that is not at the stage of the given name -/
  | requireStage (s : Int) (stage : String)
  | crossings (s : Int)

inductive Refusal (α : Type) where
  | fault (f : Fault)
  | config (f : ConfigFault α)

inductive Reply (α : Type) where
  | done
  | number (n : Nat)
  | flag (b : Bool)
  | text (s : String)
  | point (p : Point α)
  | ids (l : List NodeId)
  | keys (l : List Int)
  | node (id : NodeId) (n : Node α)
  | edge (e : Edge) (bends : List (Point α))
  | graph (w : Workspace α)
  | snapshot (s : Snapshot) (bends : Bends α)

end LayeredDrawing
