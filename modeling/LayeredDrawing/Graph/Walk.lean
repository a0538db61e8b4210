import LayeredDrawing.Graph.Basic

/-!
# Walks and cycles

`edgeWalk [start] arcs` lists the edges that can be reached from `start` in depth-first order: after
an edge the walk goes on from its head, even if it has been there before, and every edge is walked
once.

`someCycle g` looks for a directed cycle along such walks, from each node in turn.  While a walk is
read, `Trail.path` is the chain of edges that leads to the current node and `Trail.active` holds
the nodes on it; an edge back into an active node closes a cycle.  Nodes of a walk without a cycle
are explored, and later walks leave out the edges into them.
-/

namespace LayeredDrawing

/-- the edges still ahead that the walk takes, in order; the head of `stack` is the current node -/
def edgeWalk (stack : List NodeId) (arcs : List Edge) : List Edge :=
  match stack with
  | [] => []
  | node :: below =>
    match _h : arcs.find? fun e => e.source = node with
    | none => edgeWalk below arcs
    | some e => e :: edgeWalk (e.target :: node :: below) (arcs.erase e)
termination_by 2 * arcs.length + stack.length
decreasing_by
  · simp
  · -- an edge goes, at the price of one more node on the stack
    have hmem := List.mem_of_find?_eq_some _h
    have hlen := List.length_erase_of_mem hmem
    have hpos := List.length_pos_of_mem hmem
    simp only [List.length_cons]
    omega

/-- what is known while a walk is read -/
structure Trail where
  /-- the edges that lead to the current node, the last one first -/
  path : List Edge
  /-- the nodes on the path -/
  active : List NodeId
  /-- the node that the last edge led to, none before the first edge -/
  position : Option NodeId
  /-- all nodes that the walk has come to -/
  seen : List NodeId

namespace Trail

def start (node : NodeId) : Trail := ⟨[], [node], none, [node]⟩

/-- goes back along the path to the node `tail` -/
def backtrack (tail : NodeId) : List Edge → List NodeId → List Edge × List NodeId
  | [], _ => ([], [tail])
  | e :: path, active =>
    let active := active.erase e.target
    if path.head?.map Edge.target = some tail then (path, active)
    else backtrack tail path active

/-- follows one edge: either it closes a cycle, whose edges are returned in order, or the trail
goes on -/
def step (t : Trail) (e : Edge) : List Edge ⊕ Trail :=
  let (path, active) :=
    match t.position with
    | none => (t.path, t.active)
    | some node =>
      if e.source = node then (t.path, t.active) else backtrack e.source t.path t.active
  if e.target ∈ active then
    .inl ((e :: path).reverse.dropWhile fun a => a.source ≠ e.target)
  else .inr ⟨e :: path, e.target :: active, some e.target, e.target :: t.seen⟩

/-- follows the edges in turn, up to the first cycle -/
def follow (t : Trail) : List Edge → List Edge ⊕ Trail
  | [] => .inr t
  | e :: walk =>
    match t.step e with
    | .inl cycle => .inl cycle
    | .inr t => t.follow walk

end Trail

namespace Graph

variable {α : Type}

/-- a cycle that can be reached from one of the nodes, given the nodes explored before -/
def cycleFrom (g : Graph α) (explored : List NodeId) : List NodeId → List Edge
  | [] => []
  | node :: rest =>
    if node ∈ explored then g.cycleFrom explored rest
    else
      let arcs := g.arcs.filter fun e => e.target ∉ explored
      match (Trail.start node).follow (edgeWalk [node] arcs) with
      | .inl cycle => cycle
      | .inr t => g.cycleFrom (t.seen ++ explored) rest

/-- the edges of a directed cycle, each leading to the source of the next; empty if there is none -/
def someCycle (g : Graph α) : List Edge := g.cycleFrom [] g.nodeIds

end Graph

end LayeredDrawing
