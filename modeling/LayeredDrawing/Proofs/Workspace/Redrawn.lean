import LayeredDrawing.Phase.Layering
import LayeredDrawing.Proofs.Workspace.Outcome
import LayeredDrawing.Proofs.Workspace.Sound

/-!
# Redrawn workspaces

`Redrawn w v` says that nothing but layers and positions of nodes tells `v` from `w`.  Phases write
these one node after the other; `Written` keeps book of what has been written.

* `Graph.outline`   the nodes in order, without layers and positions;
* `Placed`          every node stands where its layer is;
* `Written.modify`  one more node is written.
-/

namespace LayeredDrawing

variable {α : Type}

def Node.outline (n : Node α) : String × Option (α × α) × Bool := (n.label, n.size, n.isDummy)

def Graph.outline (g : Graph α) : OrderedMap NodeId (String × Option (α × α) × Bool) :=
  g.nodes.mapValues fun _ n => n.outline

theorem Graph.keys_outline (g : Graph α) : g.outline.keys = g.nodeIds :=
  OrderedMap.keys_mapValues _ _

theorem Graph.nodeIds_congr {g g' : Graph α} (h : g.outline = g'.outline) :
    g.nodeIds = g'.nodeIds := by
  rw [← keys_outline, h, keys_outline]

structure Redrawn (w v : Workspace α) : Prop where
  bends : v.bends = w.bends
  graph : v.graph = { w.graph with nodes := v.graph.nodes }
  outline : v.graph.outline = w.graph.outline

section
variable {w v u : Workspace α}

theorem Redrawn.refl (w : Workspace α) : Redrawn w w := ⟨rfl, rfl, rfl⟩

theorem Redrawn.trans (h : Redrawn w v) (h' : Redrawn v u) : Redrawn w u := by
  refine ⟨h'.bends.trans h.bends, ?_, h'.outline.trans h.outline⟩
  rw [h'.graph, h.graph]

theorem Redrawn.nodeIds (h : Redrawn w v) : v.graph.nodeIds = w.graph.nodeIds :=
  Graph.nodeIds_congr h.outline

theorem Redrawn.arcs (h : Redrawn w v) : v.graph.arcs = w.graph.arcs := by
  rw [h.graph]

theorem Redrawn.edges (h : Redrawn w v) : v.graph.edges = w.graph.edges :=
  Graph.edges_congr h.nodeIds h.arcs

theorem Redrawn.sound (h : Redrawn w v) {known : List Edge} (hw : w.Sound known) :
    v.Sound known := by
  have hc : v.graph.Coherent := by
    rw [h.graph]
    refine hw.coherent.with_nodes fun id hid => ?_
    have hids := h.nodeIds
    show id ∈ v.graph.nodeIds
    rwa [hids]
  have hkey : v.graph.nextKey = w.graph.nextKey := by rw [h.graph]
  have hsound := hw.change (b := v.bends) hc (fun e he => hw.known_of_mem e (h.arcs ▸ he))
    (Int.le_of_eq hkey.symm) (Nat.le_of_eq (congrArg Bends.fresh h.bends).symm)
  exact hsound

end

/-- the layer of the node is the one in the table, and the node stands there -/
def InPlace [Scalar α] (c : Config α) (layers : OrderedMap NodeId Int) (id : NodeId) (n : Node α) :
    Prop := layers.get? id = some n.layer ∧ n.x = layerPosition c n.layer

def Placed [Scalar α] (c : Config α) (layers : OrderedMap NodeId Int) (g : Graph α) : Prop :=
  ∀ id n, g.nodes.get? id = some n → InPlace c layers id n

/-! ## writing -/

/-- the workspace with one node changed -/
def Workspace.modify (w : Workspace α) (id : NodeId) (f : Node α → Node α) : Workspace α :=
  { w with graph := { w.graph with nodes := w.graph.nodes.modify id f } }

theorem Redrawn.modify (w : Workspace α) (id : NodeId) {f : Node α → Node α}
    (hf : ∀ n, (f n).outline = n.outline) : Redrawn w (w.modify id f) :=
  ⟨rfl, rfl, OrderedMap.mapValues_modify w.graph.nodes hf⟩

theorem Action.leads_modifyNode {w : Workspace α} {id : NodeId} {f : Node α → Node α}
    {Q : Unit → Workspace α → Prop} {E : Fault → Workspace α → Prop} (hid : id ∈ w.graph.nodeIds)
    (h : Q () (w.modify id f)) : (Action.edit fun g => g.modifyNode id f).Leads w Q E := by
  exact Action.leads_edit_ok (Graph.modifyNode_of_mem hid f) h

/-- nothing but layers and positions has changed, `P` holds of all nodes, and `R` of those done -/
structure Written (P R : NodeId → Node α → Prop) (w : Workspace α) (done : List NodeId)
    (v : Workspace α) : Prop where
  redrawn : Redrawn w v
  all : ∀ id n, v.graph.nodes.get? id = some n → P id n
  done : ∀ id ∈ done, ∀ n, v.graph.nodes.get? id = some n → R id n

theorem Written.modify {P R : NodeId → Node α → Prop} {w v : Workspace α} {done : List NodeId}
    (h : Written P R w done v) {id : NodeId} {f : Node α → Node α}
    (hf : ∀ n, (f n).outline = n.outline) (hP : ∀ n, P id n → P id (f n)) (hR : ∀ n, R id (f n)) :
    Written P R w (done ++ [id]) (v.modify id f) := by
  have hget {j : NodeId} {n : Node α} (hn : (v.graph.nodes.modify id f).get? j = some n) :
      j ≠ id ∧ v.graph.nodes.get? j = some n ∨
        j = id ∧ ∃ m, v.graph.nodes.get? id = some m ∧ f m = n := by
    rw [OrderedMap.get?_modify] at hn
    by_cases hj : j = id
    · rw [if_pos hj, hj, Option.map_eq_some_iff] at hn
      exact .inr ⟨hj, hn⟩
    · rw [if_neg hj] at hn
      exact .inl ⟨hj, hn⟩
  refine ⟨h.redrawn.trans (Redrawn.modify v id hf), fun j n hn => ?_, fun j hj n hn => ?_⟩
  · rcases hget hn with ⟨_, hn⟩ | ⟨rfl, m, hm, rfl⟩
    · exact h.all j n hn
    · exact hP m (h.all j m hm)
  · rcases hget hn with ⟨hne, hn⟩ | ⟨rfl, m, _, rfl⟩
    · refine h.done j ?_ n hn
      rcases List.mem_append.1 hj with hj | hj
      · exact hj
      · exact absurd (List.mem_singleton.1 hj) hne
    · exact hR m

end LayeredDrawing
