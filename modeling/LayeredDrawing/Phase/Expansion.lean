import LayeredDrawing.Blueprint
import LayeredDrawing.Phase.Layering

/-!
# Expansion

The second phase hides every edge that leads across more than one layer and puts a chain of dummy
nodes and edges in its place, with one dummy node in each layer between.  A dummy node starts out
at the height of the node before it, and its layer lists it at the same slot.

* `span?`             how many layers an edge leads across;
* `insertBeside`      lists a dummy node in its layer;
* `extendStrand`      adds the dummy node in the next layer;
* `hideEdge`          puts a chain in place of one edge;
* `requireUnitSpans`  refuses a graph in which some edge does not lead to the next layer.
-/

namespace LayeredDrawing

/-- the number of layers that an edge leads across -/
def span? (layers : OrderedMap NodeId Int) (e : Edge) : Except Fault Int := do
  let upper ← layers.entry e.target
  let lower ← layers.entry e.source
  return upper - lower

/-- the edges to be hidden; an edge that does not lead to a higher layer is refused -/
def longEdges (layers : OrderedMap NodeId Int) : List Edge → Except Fault (List Edge)
  | [] => .ok []
  | e :: rest => do
    let span ← span? layers e
    if span < 1 then throw (.spanBelowOne e span)
    let long ← longEdges layers rest
    return if 1 < span then e :: long else long

/-- refuses the first edge that does not lead to the next layer -/
def requireUnitSpans {α : Type} (g : Graph α) (s : Snapshot) : Except Fault Unit :=
  g.edges.forM fun e => do
    let span ← span? s.layers e
    if span ≠ 1 then throw (.spanNotOne e span)

/-- the dummy node belongs into the slot that `prev` has in the layer below, or at the end of a
shorter list -/
def insertBeside (lists : Arrangement) (layer : Int) (prev id : NodeId) :
    Except Fault Arrangement := do
  let below ← position lists.length (layer - 1)
  let some slot := (lists.getD below []).idxOf? prev | throw (.notListed prev)
  let here ← position lists.length layer
  let l := lists.getD here []
  return lists.set here (l.insertIdx (min slot l.length) id)

/-- a chain under construction, with the tables that grow along with it -/
structure Strand where
  layers : OrderedMap NodeId Int
  arrangement : Arrangement
  /-- the node that the chain has come to -/
  last : NodeId
  nodes : List NodeId
  edges : List Edge

namespace Action

variable {α : Type} [Scalar α]

/-- adds the `i`-th dummy node of the hidden edge `e`, `i` layers above its source -/
def extendStrand (c : Config α) (e : Edge) (start : Int) (i : Nat) (st : Strand) :
    Action α Strand := do
  let layer := start + i
  let id := NodeId.dummy e.key i
  let x ← check (layerPosition? c layer)
  let prev ← ask fun g => g.node st.last
  edit fun g => g.addNode id (.dummy layer x prev.y)
  let arrangement ← check (insertBeside st.arrangement layer st.last id)
  let d ← addEdge st.last id true
  return ⟨st.layers.insert id layer, arrangement, id, st.nodes ++ [id], st.edges ++ [d]⟩

/-- adds `count` dummy nodes, the first of them with number `i` -/
def extendStrandBy (c : Config α) (e : Edge) (start : Int) : (count i : Nat) → Strand →
    Action α Strand
  | 0, _, st => return st
  | count + 1, i, st => do
    extendStrandBy c e start count (i + 1) (← extendStrand c e start i st)

/-- hides one long edge behind a chain -/
def hideEdge (c : Config α) (s : Snapshot) (e : Edge) : Action α Snapshot := do
  let start ← check (s.layers.entry e.source)
  let span ← check (span? s.layers e)
  let st ← extendStrandBy c e start (span - 1).toNat 1 ⟨s.layers, s.arrangement, e.source, [], []⟩
  let d ← addEdge st.last e.target true
  edit fun g => g.detach e
  return { s with
    layers := st.layers
    arrangement := st.arrangement
    chains := s.chains.insert e.key ⟨e, st.nodes, st.edges ++ [d]⟩ }

/-- hides all edges that lead across more than one layer -/
def subdivide (c : Config α) (s : Snapshot) : Action α Snapshot := do
  check (s.requireStage .layered)
  let hidden ← ask fun g => longEdges s.layers g.edges
  let s ← hidden.foldlM (hideEdge c) { s with chains := ∅ }
  return { s with stage := .expanded }

end Action

end LayeredDrawing
