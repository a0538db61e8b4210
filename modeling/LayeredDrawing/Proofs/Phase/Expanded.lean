import LayeredDrawing.Ordering.Sweep
import LayeredDrawing.Proofs.Phase.Expansion

/-!
# The graph with its chains

What the phases after expansion see of the graph is settled by the graph before it and the table of
layers: which nodes are dummies, and which nodes are at the other ends of the edges at each node, those
of short edges first and then those along the detours of long edges, in the order in which these were
hidden.

* `Expanded.arcs_eq`        the arcs while edges are hidden;
* `linked`                  the nodes at the other ends, from the ends of all edges;
* `Expanded.linked_arcs`    the graph with its chains;
* `Expanded.chains_eq`      the hidden edges and the names of the dummy nodes;
* `Expanded.isDummy_eq`     the dummy nodes of the graph;
* `Expanded.not_hindered`   what has been expanded was not hindered.
-/

namespace LayeredDrawing

variable {α : Type}

/-! ## tables that agree -/

section
variable {table table' : OrderedMap NodeId Int} (h : table.get? = table'.get?)
include h

theorem nextLayer_congr (a b : NodeId) : NextLayer table a b ↔ NextLayer table' a b := by
  unfold NextLayer
  rw [h]

theorem Graph.shortArcs_congr (g : Graph α) : g.shortArcs table = g.shortArcs table' :=
  List.filter_congr fun e _ => decide_eq_decide.2 (nextLayer_congr h e.source e.target)

theorem Graph.longArcs_congr (g : Graph α) : g.longArcs table = g.longArcs table' :=
  List.filter_congr fun e _ => decide_eq_decide.2 (not_congr (nextLayer_congr h e.source e.target))

theorem Edge.detour_congr (e : Edge) : e.detour table = e.detour table' := by
  rw [detour, detour, h]

end

theorem Graph.Coherent.mem_arcs_iff {g : Graph α} (hg : g.Coherent) (table : OrderedMap NodeId Int)
    {e : Edge} : e ∈ g.arcs ↔ e ∈ g.shortArcs table ∨ e ∈ g.longArcs table := by
  simp only [shortArcs, longArcs, List.mem_filter, hg.mem_edges, decide_eq_true_eq, ← and_or_left,
    Classical.em, and_true]

/-! ## neighbours -/

/-- the other ends at a node, in a list of pairs of ends -/
def linked (ends : List (NodeId × NodeId)) : Side → NodeId → List NodeId
  | .incoming, id => (ends.filter fun p => p.2 = id).map Prod.fst
  | .outgoing, id => (ends.filter fun p => p.1 = id).map Prod.snd

theorem linked_append (l m : List (NodeId × NodeId)) (side : Side) (id : NodeId) :
    linked (l ++ m) side id = linked l side id ++ linked m side id := by
  cases side <;> rw [linked, List.filter_append, List.map_append] <;> rfl

theorem Graph.neighbours_eq_linked (g : Graph α) (side : Side) (id : NodeId) :
    g.neighbours side id = linked (g.arcs.map Edge.ends) side id := by
  cases side <;> rw [linked, List.filter_map, List.map_map] <;> rfl

/-- the ends of the edges that lead along a detour -/
def Edge.detourEnds (table : OrderedMap NodeId Int) (e : Edge) : List (NodeId × NodeId) :=
  (e.source :: (e.detour table ++ [e.target])).zip (e.detour table ++ [e.target])

section
variable [Scalar α] {c : Config α} {w u : Workspace α} {table : OrderedMap NodeId Int} {s : Snapshot}
  (h : Expanded c w table s u)
include h

theorem Expanded.chains_eq : s.chains.values.map (fun C => (C.edge, C.nodes))
    = (w.graph.longArcs table).map fun e => (e, e.detour table) := by
  rw [← h.hidden_eq, List.map_map]
  exact List.map_congr_left fun C hC => Prod.ext rfl (h.nodes_eq_detour hC)

theorem Expanded.arcs_eq : u.graph.arcs = w.graph.shortArcs table ++ s.dummyEdges := by
  obtain ⟨known, hexp⟩ := h.expanding
  rw [hexp.arcs]
  congr 1
  refine List.filter_congr fun e he => ?_
  exact decide_eq_decide.2 (by rw [h.hidden_iff he, Classical.not_not])

theorem Expanded.map_ends_arcs : u.graph.arcs.map Edge.ends
    = (w.graph.shortArcs table).map Edge.ends
      ++ (w.graph.longArcs table).flatMap fun e => e.detourEnds table := by
  have hchain {C : Chain} (hC : C ∈ s.chains.values) :
      C.edges.map Edge.ends = C.edge.detourEnds table := by
    rw [(h.bridges C hC).joins.map_ends, h.nodes_eq_detour hC]
    rfl
  rw [h.arcs_eq, List.map_append, ← h.hidden_eq, List.flatMap_map, Snapshot.dummyEdges, List.map_flatMap]
  congr 1
  exact List.flatMap_congr fun C hC => hchain hC

theorem Expanded.linked_arcs (side : Side) (id : NodeId) : u.graph.neighbours side id
    = linked ((w.graph.shortArcs table).map Edge.ends) side id
      ++ linked ((w.graph.longArcs table).flatMap fun e => e.detourEnds table) side id := by
  rw [Graph.neighbours_eq_linked, h.map_ends_arcs, linked_append]

theorem Expanded.isDummy_eq (id : NodeId) : (u.graph.nodes.get? id).map Node.isDummy
    = if id ∈ s.dummyNodes then some true else (w.graph.nodes.get? id).map Node.isDummy := by
  obtain ⟨known, hexp⟩ := h.expanding
  have hflag (g : Graph α) : (g.nodes.get? id).map Node.isDummy
      = (g.outline.get? id).map fun o => o.2.2 := by
    rw [Graph.outline, OrderedMap.get?_mapValues, Option.map_map]
    rfl
  rw [hflag u.graph, hflag w.graph]
  by_cases hid : id ∈ s.dummyNodes
  · rw [if_pos hid, hexp.dummies id hid]
    rfl
  · rw [if_neg hid, ← hexp.replaced.outline, OrderedMap.get?_filter, if_pos (decide_eq_true hid)]

theorem Expanded.not_hindered (fault : Fault) : ¬ Hindered c w table fault := by
  intro hx
  obtain ⟨e, he, a, b, ha, hb, i, hi, hlt, hcause⟩ := hx
  obtain ⟨known, hexp⟩ := h.expanding
  obtain ⟨C, hC, rfl, hnodes⟩ := h.exists_chain he ha hb (by omega)
  obtain ⟨j, rfl⟩ : ∃ j, i = j + 1 := ⟨i - 1, by omega⟩
  have hid : C.nodes[j]? = some (.dummy C.edge.key ((j + 1 : Nat) : Int)) := by
    rw [hnodes]
    exact getElem?_dummies (by omega)
  have hdummy : NodeId.dummy C.edge.key ((j + 1 : Nat) : Int) ∈ s.dummyNodes :=
    List.mem_flatMap.2 ⟨C, hC, List.mem_of_getElem? hid⟩
  rcases hcause with hname | hfault
  · exact hexp.replaced.not_mem_base hdummy hname
  · have hlayer := (h.bridges C hC).layer_node (hexp.extends _ _ ha) hid
    obtain ⟨x, hx⟩ := hexp.room _ hdummy _ hlayer
    have hsum : a + ((j + 1 : Nat) : Int) = a + j + 1 := by omega
    rw [hsum, hx] at hfault
    cases hfault

end

end LayeredDrawing
