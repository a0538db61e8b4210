import LayeredDrawing.Graph.Copy
import LayeredDrawing.Proofs.Fault.Carried
import LayeredDrawing.Proofs.Graph.Coherent
import LayeredDrawing.Proofs.OrderedMap.Related
import LayeredDrawing.Proofs.Renaming.Basic
import LayeredDrawing.Proofs.Workspace.InStep

/-!
# Graphs on either side of a parting

A graph and a copy of it part: they have the same nodes and the same edges, but their edges keep their
bends under different slots.  `Parting.across` leads from each slot to the one that answers to it on the
other side.  No question and no change tells the two graphs apart, except by slots.

* `Fault.seen`        what a fault says, apart from slots;
* `Parting.Edges`     an edge of the copy's side, and the one that answers to it;
* `Parting.Graphs`    graphs with edges that answer to each other, in order;
* `Graphs.node`, `Graphs.edges`, `Graphs.edge` and so on   questions get answers that answer to each other;
* `Graphs.addNode`, `Graphs.attach`, `Graphs.detach` and so on   and so do changes.
-/

namespace LayeredDrawing

/-- the edge apart from where its bends are kept -/
def Edge.seen (e : Edge) : Edge := e.atSlot 0

namespace Fault

/-- what the fault says, whatever slot its edge has -/
def seen : Fault → Fault
  | edgeAbsent e => edgeAbsent e.seen
  | edgePresent e => edgePresent e.seen
  | spanBelowOne e span => spanBelowOne e.seen span
  | spanNotOne e span => spanNotOne e.seen span
  | fault => fault

/-- the two faults say the same -/
def Alike (fault fault' : Fault) : Prop := fault'.seen = fault.seen

theorem alike_refl (fault : Fault) : fault.Alike fault := rfl

theorem message_seen (fault : Fault) : fault.seen.message = fault.message := by cases fault <;> rfl

theorem kind_seen (fault : Fault) : fault.seen.kind = fault.kind := by cases fault <;> rfl

end Fault

/-- how the slots on the two sides answer to each other since a copy was made -/
structure Parting (α : Type) where
  /-- the bends before the copy was made -/
  base : Bends α
  across : Nat → Nat
  /-- from this slot on, each answers to itself -/
  next : Nat
  base_le : base.fresh ≤ next
  injective : Function.Injective across
  across_of_le : ∀ {slot}, next ≤ slot → across slot = slot

namespace Parting

variable {α : Type} (p : Parting α)

/-- an edge that was not there before the copy, and the one that answers to it -/
def Edges (e e' : Edge) : Prop := p.base.fresh ≤ e.slot ∧ e' = e.atSlot (p.across e.slot)

structure Graphs (g g' : Graph α) : Prop where
  nodes : g'.nodes = g.nodes
  arcs : List.Forall₂ p.Edges g.arcs g'.arcs
  index : g.index.Related p.Edges g'.index
  nextKey : g'.nextKey = g.nextKey

theorem graphs_empty : p.Graphs .empty .empty := ⟨rfl, .nil, OrderedMap.related_empty, rfl⟩

variable {p}

section
variable {e e' a a' : Edge} (h : p.Edges e e') (ha : p.Edges a a')
include h

theorem Edges.seen : e'.seen = e.seen := by
  obtain ⟨_, rfl⟩ := h
  rfl

theorem Edges.key : e'.key = e.key := by
  obtain ⟨_, rfl⟩ := h
  rfl

theorem Edges.source : e'.source = e.source := by
  obtain ⟨_, rfl⟩ := h
  rfl

theorem Edges.target : e'.target = e.target := by
  obtain ⟨_, rfl⟩ := h
  rfl

include ha

theorem Edges.parallel : e'.parallel a' = e.parallel a := by
  obtain ⟨_, rfl⟩ := h
  obtain ⟨_, rfl⟩ := ha
  rfl

theorem Edges.sameArc : e'.sameArc a' = e.sameArc a := by
  obtain ⟨_, rfl⟩ := h
  obtain ⟨_, rfl⟩ := ha
  rfl

end

/-- the same question about edges that answer to each other -/
theorem any_eq_any {q q' : Edge → Bool} {l l' : List Edge} (h : List.Forall₂ p.Edges l l')
    (hq : ∀ a a', p.Edges a a' → q' a' = q a) : l'.any q' = l.any q := by
  induction h with
  | nil => rfl
  | cons ha _ ih => rw [List.any_cons, List.any_cons, hq _ _ ha, ih]

theorem filter_arcs {q q' : Edge → Bool} {l l' : List Edge} (h : List.Forall₂ p.Edges l l')
    (hq : ∀ a a', p.Edges a a' → q' a' = q a) : List.Forall₂ p.Edges (l.filter q) (l'.filter q') :=
  List.rel_filter (fun a a' ha => by
    show q a = true ↔ q' a' = true
    rw [hq a a' ha]) h

namespace Graphs

variable {g g' : Graph α} (h : p.Graphs g g')
include h

/-! ## questions -/

theorem nodeIds : g'.nodeIds = g.nodeIds := by rw [Graph.nodeIds, Graph.nodeIds, h.nodes]

theorem hasNode (id : NodeId) : g'.hasNode id = g.hasNode id := by
  rw [Graph.hasNode, Graph.hasNode, h.nodes]

theorem node (id : NodeId) : g'.node id = g.node id := by rw [Graph.node, Graph.node, h.nodes]

theorem require (id : NodeId) : g'.require id = g.require id := by
  rw [Graph.require, Graph.require, h.hasNode]

theorem requireAll (ids : List NodeId) : g'.requireAll ids = g.requireAll ids := by
  rw [Graph.requireAll, Graph.requireAll, funext h.require]

theorem outEdges (id : NodeId) : List.Forall₂ p.Edges (g.outEdges id) (g'.outEdges id) :=
  filter_arcs h.arcs fun a a' ha => by rw [ha.source]

theorem inEdges (id : NodeId) : List.Forall₂ p.Edges (g.inEdges id) (g'.inEdges id) :=
  filter_arcs h.arcs fun a a' ha => by rw [ha.target]

theorem successors (id : NodeId) : g'.successors id = g.successors id :=
  map_eq_map_of_forall₂ (h.outEdges id) fun _ _ ha => ha.target

theorem predecessors (id : NodeId) : g'.predecessors id = g.predecessors id :=
  map_eq_map_of_forall₂ (h.inEdges id) fun _ _ ha => ha.source

theorem edges : List.Forall₂ p.Edges g.edges g'.edges := by
  rw [Graph.edges, Graph.edges, h.nodeIds]
  induction g.nodeIds with
  | nil => exact .nil
  | cons id ids ih =>
    rw [List.flatMap_cons, List.flatMap_cons]
    exact List.rel_append (h.outEdges id) ih

theorem hasEdge {e e' : Edge} (he : p.Edges e e') : g'.hasEdge e' = g.hasEdge e := by
  rw [Graph.hasEdge, Graph.hasEdge, he.key, h.index.contains]

theorem edge (key : Int) : Paired Fault.Alike p.Edges (g.edge key) (g'.edge key) := by
  have hget := h.index.get? key
  unfold Graph.edge
  generalize g.index.get? key = o at hget ⊢
  generalize g'.index.get? key = o' at hget ⊢
  cases hget with
  | none => exact Fault.alike_refl _
  | some he => exact he

theorem text : g'.text = g.text := by
  unfold Graph.text
  rw [h.nodes, h.arcs.length_eq]

/-! ## changes -/

theorem addNode (id : NodeId) (n : Node α) :
    Paired Fault.Alike p.Graphs (g.addNode id n) (g'.addNode id n) := by
  unfold Graph.addNode
  rw [h.hasNode]
  split
  · exact Fault.alike_refl _
  · split
    · exact Fault.alike_refl _
    · exact ⟨by rw [h.nodes], h.arcs, h.index, h.nextKey⟩

theorem modifyNode (id : NodeId) (f : Node α → Node α) :
    Paired Fault.Alike p.Graphs (g.modifyNode id f) (g'.modifyNode id f) := by
  unfold Graph.modifyNode
  rw [h.node]
  refine (paired_refl Fault.alike_refl (discard (g.node id))).bind fun _ _ _ => ?_
  exact ⟨by rw [h.nodes], h.arcs, h.index, h.nextKey⟩

theorem removeNode (id : NodeId) :
    Paired Fault.Alike p.Graphs (g.removeNode id) (g'.removeNode id) := by
  unfold Graph.removeNode
  rw [h.require]
  refine (paired_refl Fault.alike_refl _).bind fun _ _ _ => ?_
  refine ⟨by rw [h.nodes], filter_arcs h.arcs fun a a' ha => by rw [ha.source, ha.target], ?_, h.nextKey⟩
  exact h.index.foldl_erase
    (map_eq_map_of_forall₂ (List.rel_append (h.inEdges id) (h.outEdges id)) fun _ _ ha => ha.key)

end Graphs

section
variable {e e' : Edge} (he : p.Edges e e') {l l' : List Edge} (h : List.Forall₂ p.Edges l l')
include he h

theorem insertArc : List.Forall₂ p.Edges (Graph.insertArc e l) (Graph.insertArc e' l') := by
  induction h with
  | nil => exact .cons he .nil
  | @cons a a' l l' ha hl ih =>
    rw [Graph.insertArc, Graph.insertArc, ha.parallel he, any_eq_any hl fun _ _ hb => he.parallel hb]
    split
    · exact .cons ha (.cons he hl)
    · exact .cons ha ih

theorem placeArc : List.Forall₂ p.Edges (Graph.placeArc e l) (Graph.placeArc e' l') := by
  unfold Graph.placeArc
  rw [any_eq_any h fun _ _ ha => he.sameArc ha]
  split
  · refine List.rel_map (fun a a' ha => ?_) h
    show p.Edges (if a.sameArc e then e else a) (if a'.sameArc e' then e' else a')
    rw [ha.sameArc he]
    split
    · exact he
    · exact ha
  · exact insertArc he h

end

namespace Graphs

variable {g g' : Graph α} (h : p.Graphs g g') {e e' : Edge}
include h

theorem attach (he : p.Edges e e') : p.Graphs (g.attach e) (g'.attach e') := by
  refine ⟨h.nodes, placeArc he h.arcs, ?_, h.nextKey⟩
  rw [Graph.index_attach, Graph.index_attach, he.key]
  exact h.index.insert e.key he

/-- a new edge gets the same slot on either side, because later slots answer to themselves -/
theorem addEdge {slot : Nat} (hslot : p.next ≤ slot) (source target : NodeId) (isDummy : Bool) :
    Paired Fault.Alike (fun x x' => p.Edges x.1 x'.1 ∧ p.Graphs x.2 x'.2)
      (g.addEdge slot source target isDummy) (g'.addEdge slot source target isDummy) := by
  unfold Graph.addEdge
  rw [h.require, h.require]
  refine (paired_refl Fault.alike_refl _).bind fun _ _ _ => ?_
  refine (paired_refl Fault.alike_refl _).bind fun _ _ _ => ?_
  have he : p.Edges ⟨slot, g.nextKey, source, target, isDummy⟩
      ⟨slot, g'.nextKey, source, target, isDummy⟩ := by
    refine ⟨Nat.le_trans p.base_le hslot, ?_⟩
    rw [h.nextKey]
    exact congrArg (Edge.mk · g.nextKey source target isDummy) (p.across_of_le hslot).symm
  have hnext : p.Graphs { g with nextKey := g.nextKey + 1 } { g' with nextKey := g'.nextKey + 1 } :=
    ⟨h.nodes, h.arcs, h.index, congrArg (· + 1) h.nextKey⟩
  exact ⟨he, hnext.attach he⟩

theorem detach (he : p.Edges e e') : Paired Fault.Alike p.Graphs (g.detach e) (g'.detach e') := by
  unfold Graph.detach
  rw [h.hasEdge he, any_eq_any h.arcs fun _ _ ha => he.parallel ha,
    any_eq_any h.arcs fun _ _ ha => he.sameArc ha, he.source, he.target, he.key]
  split
  · exact congrArg Fault.edgeAbsent he.seen
  · split
    · exact Fault.alike_refl _
    · split
      · exact Fault.alike_refl _
      · exact ⟨h.nodes, filter_arcs h.arcs fun a a' ha => by rw [ha.sameArc he],
          h.index.filter _, h.nextKey⟩

theorem reattach (he : p.Edges e e') : Paired Fault.Alike p.Graphs (g.reattach e) (g'.reattach e') := by
  have hrest : Paired Fault.Alike p.Graphs (do g.require e.source; g.require e.target; return g.attach e)
      (do g'.require e'.source; g'.require e'.target; return g'.attach e') := by
    rw [h.require, h.require, he.source, he.target]
    refine (paired_refl Fault.alike_refl _).bind fun _ _ _ => ?_
    exact (paired_refl Fault.alike_refl _).bind fun _ _ _ => h.attach he
  unfold Graph.reattach
  rw [h.hasEdge he]
  split
  · exact congrArg Fault.edgePresent he.seen
  · exact hrest

end Graphs

end Parting

end LayeredDrawing
