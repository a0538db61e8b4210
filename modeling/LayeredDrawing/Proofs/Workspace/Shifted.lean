import LayeredDrawing.Proofs.Workspace.EndAlike
import LayeredDrawing.Proofs.Workspace.Redrawn

/-!
# Shifted workspaces

`Shifted w v` says that nothing but positions of nodes tells `v` from `w`.  Operations that do not ask
for positions end alike on both.

* `endAlike_addNode`, `endAlike_addEdge`, `endAlike_detach`   one operation;
* `endAlike_foldlM`                                           one after the other.
-/

namespace LayeredDrawing

variable {α : Type}

/-- a node without its position -/
def Node.seat (n : Node α) : (String × Option (α × α) × Bool) × Int := (n.outline, n.layer)

def Graph.seats (g : Graph α) : OrderedMap NodeId ((String × Option (α × α) × Bool) × Int) :=
  g.nodes.mapValues fun _ n => n.seat

structure Shifted (w v : Workspace α) : Prop where
  bends : v.bends = w.bends
  graph : v.graph = { w.graph with nodes := v.graph.nodes }
  seats : v.graph.seats = w.graph.seats

/-- the same answers, and workspaces that are shifted -/
def Alike {β : Type} (b : β) (w : Workspace α) (b' : β) (v : Workspace α) : Prop :=
  b' = b ∧ Shifted w v

namespace Graph

/-- a graph with other nodes under the same names asks for the same nodes -/
theorem require_with_nodes {g : Graph α} {nodes : OrderedMap NodeId (Node α)}
    (h : nodes.keys = g.nodeIds) (id : NodeId) :
    ({ g with nodes } : Graph α).require id = g.require id := by
  have hnode : ({ g with nodes } : Graph α).hasNode id = g.hasNode id := by
    rw [Bool.eq_iff_iff, hasNode_iff, hasNode_iff]
    show id ∈ nodes.keys ↔ _
    rw [h]
  rw [require, require, hnode]

theorem addEdge_with_nodes {g : Graph α} {nodes : OrderedMap NodeId (Node α)}
    (h : nodes.keys = g.nodeIds) (slot : Nat) (source target : NodeId) (isDummy : Bool) :
    ({ g with nodes } : Graph α).addEdge slot source target isDummy
      = (g.addEdge slot source target isDummy).map fun p => (p.1, { p.2 with nodes }) := by
  simp only [addEdge, require_with_nodes h]
  cases g.require source <;> cases g.require target <;> rfl

theorem detach_with_nodes (g : Graph α) (nodes : OrderedMap NodeId (Node α)) (e : Edge) :
    ({ g with nodes } : Graph α).detach e = (g.detach e).map fun g' => { g' with nodes } := by
  have hedge : ({ g with nodes } : Graph α).hasEdge e = g.hasEdge e := rfl
  unfold detach
  rw [hedge]
  split
  · rfl
  · split
    · rfl
    · split <;> rfl

theorem nodes_of_addEdge {g g' : Graph α} {slot : Nat} {source target : NodeId} {isDummy : Bool}
    {e : Edge} (h : g.addEdge slot source target isDummy = .ok (e, g')) : g'.nodes = g.nodes := by
  obtain ⟨_, _, _, rfl⟩ := addEdge_ok h
  rfl

theorem nodes_of_detach {g g' : Graph α} {e : Edge} (h : g.detach e = .ok g') : g'.nodes = g.nodes := by
  unfold detach at h
  split at h
  · cases h
  · split at h
    · cases h
    · split at h
      · cases h
      · rw [← Except.ok.inj h]

end Graph

section
variable {w v : Workspace α} (h : Shifted w v)
include h

theorem Shifted.nodeIds : v.graph.nodeIds = w.graph.nodeIds := by
  have hkeys := congrArg OrderedMap.keys h.seats
  rwa [Graph.seats, Graph.seats, OrderedMap.keys_mapValues, OrderedMap.keys_mapValues] at hkeys

theorem Shifted.arcs : v.graph.arcs = w.graph.arcs := by rw [h.graph]

theorem Shifted.edges : v.graph.edges = w.graph.edges := Graph.edges_congr h.nodeIds h.arcs

/-- a change of the edges alone -/
theorem Shifted.change {g : Graph α} (hnodes : g.nodes = w.graph.nodes) {b : Bends α} :
    Shifted ⟨g, b⟩ ⟨{ g with nodes := v.graph.nodes }, b⟩ := by
  refine ⟨rfl, rfl, ?_⟩
  show v.graph.seats = g.nodes.mapValues fun _ n => n.seat
  rw [h.seats, hnodes]
  rfl

theorem Shifted.exists_node {id : NodeId} {n : Node α} (hn : w.graph.nodes.get? id = some n) :
    ∃ m, v.graph.nodes.get? id = some m ∧ m.seat = n.seat := by
  have hseat : w.graph.seats.get? id = some n.seat := by
    rw [Graph.seats, OrderedMap.get?_mapValues, hn]
    rfl
  rwa [← h.seats, Graph.seats, OrderedMap.get?_mapValues, Option.map_eq_some_iff] at hseat

theorem Shifted.addNode {id : NodeId} (hid : id ∉ w.graph.nodeIds) {n m : Node α} (hnm : m.seat = n.seat) :
    Shifted { w with graph := { w.graph with nodes := w.graph.nodes.insert id n } }
      { v with graph := { v.graph with nodes := v.graph.nodes.insert id m } } := by
  have hidv : id ∉ v.graph.nodes.keys := by
    show id ∉ v.graph.nodeIds
    rwa [h.nodeIds]
  refine ⟨h.bends, by rw [h.graph], ?_⟩
  show (v.graph.nodes.insert id m).mapValues (fun _ n => n.seat)
    = (w.graph.nodes.insert id n).mapValues fun _ n => n.seat
  have hseats : v.graph.nodes.mapValues (fun _ n => n.seat) = w.graph.nodes.mapValues fun _ n => n.seat :=
    h.seats
  rw [OrderedMap.mapValues_insert_of_not_mem _ hidv, OrderedMap.mapValues_insert_of_not_mem _ hid, hnm,
    hseats]

end

/-! ## operations -/

namespace Action

section
variable {β γ : Type} {w v : Workspace α}

theorem endAlike_pure (h : Shifted w v) (b : β) :
    EndAlike Alike ((pure b : Action α β).perform w) ((pure b : Action α β).perform v) := ⟨rfl, h⟩

theorem endAlike_check (h : Shifted w v) (r : Except Fault β) :
    EndAlike Alike ((check r : Action α β).perform w) ((check r : Action α β).perform v) := by
  rw [perform_check, perform_check]
  cases r with
  | ok b => exact ⟨rfl, h⟩
  | error fault => exact rfl

theorem endAlike_ask (h : Shifted w v) {f : Graph α → Except Fault β} (hf : f v.graph = f w.graph) :
    EndAlike Alike ((ask f).perform w) ((ask f).perform v) := by
  rw [perform_ask, perform_ask, hf]
  cases f w.graph with
  | ok b => exact ⟨rfl, h⟩
  | error fault => exact rfl

theorem endAlike_node (h : Shifted w v) (id : NodeId) :
    EndAlike (fun _ w' _ v' => Shifted w' v') ((ask fun g => g.node id).perform w)
      ((ask fun g => g.node id).perform v) := by
  have hkeys : v.graph.nodes.keys = w.graph.nodes.keys := h.nodeIds
  rw [perform_ask, perform_ask, Graph.node, Graph.node, OrderedMap.entry, OrderedMap.entry]
  by_cases hid : id ∈ w.graph.nodes.keys
  · obtain ⟨n, hn⟩ := OrderedMap.exists_get?_of_mem hid
    obtain ⟨m, hm⟩ := OrderedMap.exists_get?_of_mem (hkeys ▸ hid)
    rw [hn, hm]
    exact h
  · have hidv : id ∉ v.graph.nodes.keys := hkeys ▸ hid
    rw [OrderedMap.get?_eq_none_iff.2 hid, OrderedMap.get?_eq_none_iff.2 hidv]
    exact rfl

theorem endAlike_addNode (h : Shifted w v) (id : NodeId) {n m : Node α} (hnm : m.seat = n.seat) :
    EndAlike Alike ((edit fun g => g.addNode id n).perform w)
      ((edit fun g => g.addNode id m).perform v) := by
  have hnode : v.graph.hasNode id = w.graph.hasNode id := by
    rw [Bool.eq_iff_iff, Graph.hasNode_iff, Graph.hasNode_iff, h.nodeIds]
  rw [perform_edit, perform_edit, Graph.addNode, Graph.addNode, hnode]
  by_cases hid : w.graph.hasNode id = true
  · rw [if_pos hid, if_pos hid]
    exact rfl
  · rw [if_neg hid, if_neg hid]
    by_cases hnull : id = .null
    · rw [if_pos hnull, if_pos hnull]
      exact rfl
    · rw [if_neg hnull, if_neg hnull]
      exact ⟨rfl, h.addNode (fun hmem => hid (Graph.hasNode_iff.2 hmem)) hnm⟩

theorem endAlike_addEdge (h : Shifted w v) (source target : NodeId) (isDummy : Bool) :
    EndAlike Alike ((addEdge source target isDummy).perform w)
      ((addEdge source target isDummy).perform v) := by
  have hsame := Graph.addEdge_with_nodes (g := w.graph) h.nodeIds w.bends.fresh source target isDummy
  rw [perform_addEdge, perform_addEdge, h.bends, h.graph, hsame]
  cases hadd : w.graph.addEdge w.bends.fresh source target isDummy with
  | error fault => exact rfl
  | ok p => exact ⟨rfl, h.change (Graph.nodes_of_addEdge hadd)⟩

theorem endAlike_detach (h : Shifted w v) (e : Edge) :
    EndAlike Alike ((edit fun g => g.detach e).perform w) ((edit fun g => g.detach e).perform v) := by
  have hsame := Graph.detach_with_nodes w.graph v.graph.nodes e
  rw [← h.graph] at hsame
  rw [perform_edit, perform_edit, hsame]
  cases hdetach : w.graph.detach e with
  | error fault => exact rfl
  | ok g =>
    have hchange := h.change (Graph.nodes_of_detach hdetach) (b := w.bends)
    refine ⟨rfl, ?_⟩
    show Shifted ⟨g, w.bends⟩ ⟨{ g with nodes := v.graph.nodes }, v.bends⟩
    rw [h.bends]
    exact hchange

theorem endAlike_foldlM {f : β → γ → Action α β} (l : List γ)
    (hf : ∀ b c (w v : Workspace α), Shifted w v →
      EndAlike Alike ((f b c).perform w) ((f b c).perform v))
    (h : Shifted w v) (b : β) :
    EndAlike Alike ((l.foldlM f b).perform w) ((l.foldlM f b).perform v) := by
  induction l generalizing b w v with
  | nil => exact endAlike_pure h b
  | cons c l ih =>
    rw [foldlM_cons]
    refine (hf b c w v h).bind fun b₁ w₁ b₂ w₂ hb => ?_
    obtain ⟨rfl, hshifted⟩ := hb
    exact ih hshifted b₂

end

end Action

end LayeredDrawing
