import LayeredDrawing.Graph.Walk

/-!
# Longest-path layers

The layer of a node is the number of edges on the longest path that ends at it.

* `topologicalOrder`   the nodes in an order in which every edge leads forward: nodes without an
                       edge into them come first, then each node as soon as the last edge into it
                       starts at a node listed before;
* `layering`  the layers, computed along that order; a graph with a cycle is refused.
-/

namespace LayeredDrawing

/-- the edges that do not start at the node -/
def arcsLeft (node : NodeId) (arcs : List Edge) : List Edge :=
  arcs.filter fun e => !decide (e.source = node)

/-- the nodes that have no edge of `arcs` into them any more once the edges from `node` are gone -/
def released (node : NodeId) (arcs : List Edge) : List NodeId :=
  (((arcs.filter fun e => e.source = node).map Edge.target).eraseDups).filter fun id =>
    (arcsLeft node arcs).all fun e => e.target ≠ id

theorem length_eraseDups_le {β : Type} [BEq β] (l : List β) : l.eraseDups.length ≤ l.length := by
  generalize hn : l.length = n
  induction n using Nat.strongRecOn generalizing l with
  | ind n ih =>
    cases l with
    | nil => simp
    | cons a l =>
      rw [List.eraseDups_cons, List.length_cons]
      have hf : (l.filter fun b => !b == a).length ≤ l.length := List.length_filter_le _ _
      have hl : l.length + 1 = n := by simpa using hn
      have := ih _ (by omega) (l.filter fun b => !b == a) rfl
      omega

theorem length_released_add_arcsLeft (node : NodeId) (arcs : List Edge) :
    (released node arcs).length + (arcsLeft node arcs).length ≤ arcs.length := by
  have h1 : (released node arcs).length ≤ (arcs.filter fun e => e.source = node).length := by
    unfold released
    refine Nat.le_trans (List.length_filter_le _ _) (Nat.le_trans (length_eraseDups_le _) ?_)
    simp
  have h2 := List.length_eq_countP_add_countP (fun e : Edge => decide (e.source = node)) (l := arcs)
  have h3 : (arcsLeft node arcs).length
      = arcs.countP fun e => decide ¬ decide (e.source = node) := by
    rw [arcsLeft, List.countP_eq_length_filter]
    congr 2
    funext e
    simp
  rw [List.countP_eq_length_filter] at h2
  omega

/-- lists the nodes of the queue, and behind them those that become free of edges into them -/
def releaseAll (queue : List NodeId) (arcs : List Edge) : List NodeId :=
  match queue with
  | [] => []
  | node :: rest => node :: releaseAll (rest ++ released node arcs) (arcsLeft node arcs)
termination_by queue.length + arcs.length
decreasing_by
  have := length_released_add_arcsLeft node arcs
  simp only [List.length_append, List.length_cons]
  omega

namespace Graph

variable {α : Type}

/-- the nodes in topological order; nodes on a cycle or behind one are left out -/
def topologicalOrder (g : Graph α) : List NodeId :=
  releaseAll (g.nodeIds.filter fun id => (g.inEdges id).isEmpty) g.arcs

/-- the layer of a node, from the layers of its predecessors -/
def layerFrom (g : Graph α) (layers : OrderedMap NodeId Int) (id : NodeId) : Except Fault Int := do
  let below ← (g.predecessors id).mapM layers.entry
  return match below with
    | [] => 0
    | a :: l => l.foldl max a + 1

/-- the length of the longest path to each node, in topological order -/
def layering (g : Graph α) : Except Fault (OrderedMap NodeId Int) :=
  match g.someCycle with
  | [] =>
    g.topologicalOrder.foldlM (fun layers id => return layers.insert id (← g.layerFrom layers id)) ∅
  | cycle => .error (.cyclic (cycle.map fun e => (e.source, e.target)))

end Graph

end LayeredDrawing
