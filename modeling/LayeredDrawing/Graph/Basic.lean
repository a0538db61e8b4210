import LayeredDrawing.Fault
import LayeredDrawing.OrderedMap.Basic
import LayeredDrawing.Route

/-!
# Graphs

A directed multigraph whose nodes carry a label, a size, a layer and a position.

* `nodes`    the nodes, in the order in which they came;
* `arcs`     the edges in one list.  What starts at a node, and what ends there, is the part of the
             list with that source, or that target; parallel edges stand together;
* `index`    the edge registered under each key;
* `nextKey`  the key of the next new edge.

A question about a node that the graph does not have gets the empty answer here; `Graph.require`
refuses it.
-/

namespace LayeredDrawing

namespace OrderedMap

/-- the entry of a table by node; a node without one is refused -/
def entry {ν : Type} (m : OrderedMap NodeId ν) (id : NodeId) : Except Fault ν :=
  match m.get? id with
  | some v => .ok v
  | none => .error (.noEntry id)

end OrderedMap

/-- what a graph knows of a node beside its identifier -/
structure Node (α : Type) where
  label : String
  size : Option (α × α)
  layer : Int
  x : α
  y : α
  isDummy : Bool
deriving DecidableEq

structure Graph (α : Type) where
  nodes : OrderedMap NodeId (Node α)
  arcs : List Edge
  index : OrderedMap Int Edge
  nextKey : Int

namespace Node

variable {α : Type}

def position (n : Node α) : Point α := ⟨n.x, n.y⟩

end Node

namespace Graph

variable {α : Type}

def empty : Graph α := ⟨∅, [], ∅, 0⟩

instance : Inhabited (Graph α) := ⟨empty⟩

/-! ## nodes -/

def nodeIds (g : Graph α) : List NodeId := g.nodes.keys

def hasNode (g : Graph α) (id : NodeId) : Bool := g.nodes.contains id

def node (g : Graph α) (id : NodeId) : Except Fault (Node α) := g.nodes.entry id

/-- refuses a node that the graph does not have -/
def require (g : Graph α) (id : NodeId) : Except Fault Unit :=
  if g.hasNode id then .ok () else .error (.unknownNode id)

/-- refuses the first node of the list that the graph does not have -/
def requireAll (g : Graph α) (ids : List NodeId) : Except Fault Unit := ids.forM g.require

/-! ## edges -/

def outEdges (g : Graph α) (id : NodeId) : List Edge := g.arcs.filter fun e => e.source = id

def inEdges (g : Graph α) (id : NodeId) : List Edge := g.arcs.filter fun e => e.target = id

/-- the targets of the edges from a node, once for each edge -/
def successors (g : Graph α) (id : NodeId) : List NodeId := (g.outEdges id).map Edge.target

/-- the sources of the edges to a node, once for each edge -/
def predecessors (g : Graph α) (id : NodeId) : List NodeId := (g.inEdges id).map Edge.source

/-- all edges, by source in node order -/
def edges (g : Graph α) : List Edge := g.nodeIds.flatMap g.outEdges

def hasEdge (g : Graph α) (e : Edge) : Bool := g.index.contains e.key

def edge (g : Graph α) (key : Int) : Except Fault Edge :=
  match g.index.get? key with
  | some e => .ok e
  | none => .error (.noEdge key)

def text (g : Graph α) : String :=
  "LayoutGraph(nodes=" ++ toString g.nodes.size ++ ", edges=" ++ toString g.arcs.length ++ ")"

theorem require_eq_ok_iff {g : Graph α} {id : NodeId} :
    g.require id = .ok () ↔ g.hasNode id = true := by
  unfold require
  split <;> simp_all

theorem requireAll_nil (g : Graph α) : g.requireAll [] = .ok () := rfl

theorem requireAll_cons (g : Graph α) (id : NodeId) (ids : List NodeId) :
    g.requireAll (id :: ids) = (g.require id).bind fun _ => g.requireAll ids := rfl

theorem requireAll_eq_ok_iff {g : Graph α} {ids : List NodeId} :
    g.requireAll ids = .ok () ↔ ∀ id ∈ ids, g.hasNode id = true := by
  induction ids with
  | nil => simp [requireAll_nil]
  | cons id ids ih =>
    rw [requireAll_cons]
    by_cases h : g.hasNode id = true
    · rw [require_eq_ok_iff.2 h]
      simpa [Except.bind, h] using ih
    · have hr : g.require id = .error (.unknownNode id) := by simp [require, h]
      rw [hr]
      simp [Except.bind, h]

end Graph

end LayeredDrawing
