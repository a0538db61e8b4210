import LayeredDrawing.Graph.Basic

/-!
# Changing a graph

Each change either succeeds or leaves the graph alone.

* `addNode`, `removeNode`    a removed node takes the edges at it along;
* `attach`                   puts an edge into the list of arcs and registers it under its key;
* `addEdge`                  attaches a new edge under the next key;
* `detach`, `reattach`       take an edge out and put it back under its old key;
* `setPosition`, `setLayer`  change what the graph knows of a node.
-/

namespace LayeredDrawing.Graph

variable {α : Type}

/-! ## nodes -/

def addNode (g : Graph α) (id : NodeId) (n : Node α) : Except Fault (Graph α) :=
  if g.hasNode id then .error (.nodeExists id)
  else if id = .null then .error .nullNode
  else .ok { g with nodes := g.nodes.insert id n }

def removeNode (g : Graph α) (id : NodeId) : Except Fault (Graph α) := do
  g.require id
  let lost := g.inEdges id ++ g.outEdges id
  return { g with
    nodes := g.nodes.erase id
    arcs := g.arcs.filter fun e => e.source ≠ id ∧ e.target ≠ id
    index := lost.foldl (fun index e => index.erase e.key) g.index }

def modifyNode (g : Graph α) (id : NodeId) (f : Node α → Node α) : Except Fault (Graph α) := do
  discard (g.node id)
  return { g with nodes := g.nodes.modify id f }

def setPosition (g : Graph α) (id : NodeId) (x y : α) : Except Fault (Graph α) :=
  g.modifyNode id fun n => { n with x, y }

/-! ## edges -/

/-- puts an edge behind the last one parallel to it, or at the end if there is none -/
def insertArc (e : Edge) : List Edge → List Edge
  | [] => [e]
  | a :: l => if a.parallel e && !l.any (Edge.parallel e) then a :: e :: l else a :: insertArc e l

/-- puts an edge into a list of arcs; one with the same ends and key is replaced where it stands -/
def placeArc (e : Edge) (arcs : List Edge) : List Edge :=
  if arcs.any (Edge.sameArc e) then arcs.map fun a => if a.sameArc e then e else a
  else insertArc e arcs

def attach (g : Graph α) (e : Edge) : Graph α :=
  { g with arcs := placeArc e g.arcs, index := g.index.insert e.key e }

/-- a new edge, whose bends are kept under `slot` -/
def addEdge (g : Graph α) (slot : Nat) (source target : NodeId) (isDummy : Bool) :
    Except Fault (Edge × Graph α) := do
  g.require source
  g.require target
  let e : Edge := ⟨slot, g.nextKey, source, target, isDummy⟩
  return (e, { g with nextKey := g.nextKey + 1 }.attach e)

def detach (g : Graph α) (e : Edge) : Except Fault (Graph α) :=
  if !g.hasEdge e then .error (.edgeAbsent e)
  else if !g.arcs.any (Edge.parallel e) then .error (.notAdjacent e.source e.target)
  else if !g.arcs.any (Edge.sameArc e) then .error (.notParallel e.source e.target e.key)
  else .ok { g with
    arcs := g.arcs.filter fun a => !a.sameArc e
    index := g.index.erase e.key }

def reattach (g : Graph α) (e : Edge) : Except Fault (Graph α) := do
  if g.hasEdge e then throw (.edgePresent e)
  g.require e.source
  g.require e.target
  return g.attach e

theorem insertArc_nil (e : Edge) : insertArc e [] = [e] := rfl

theorem insertArc_perm (e : Edge) (l : List Edge) : (insertArc e l).Perm (e :: l) := by
  induction l with
  | nil => exact List.Perm.refl _
  | cons a l ih =>
    unfold insertArc
    split
    · exact List.Perm.swap e a l
    · exact (ih.cons a).trans (List.Perm.swap e a l)

theorem index_attach (g : Graph α) (e : Edge) : (g.attach e).index = g.index.insert e.key e := rfl

theorem nodes_attach (g : Graph α) (e : Edge) : (g.attach e).nodes = g.nodes := rfl

end LayeredDrawing.Graph
