import LayeredDrawing.Drawing
import LayeredDrawing.Proofs.Renaming.Cycle
import LayeredDrawing.Proofs.Renaming.Ordering
import LayeredDrawing.Proofs.Workspace.Parting

/-!
# Phases on either side of a parting

What a phase computes from a graph does not depend on slots: the layers, the best arrangement and the
heights are the same on the two sides, the edges to be hidden answer to each other.  So each phase is in
step at the parting, on snapshots whose chains answer to each other, and so is a whole drawing, up to the
point where both are refused.

* `Graphs.layering`, `Graphs.bestArrangement`, `Graphs.heights`   what is the same;
* `paired_longEdges`, `paired_requireUnitSpans`   the checks that name an edge;
* `inStep_apply`, `inStep_draw`                   the phases.
-/

namespace LayeredDrawing.Parting

variable {α : Type} {p : Parting α}

/-! ## layers -/

theorem Edges.matches {e e' : Edge} (h : p.Edges e e') : Renaming.refl.Matches e e' :=
  ⟨h.key, h.source, h.target⟩

section
variable {l l' : List Edge} (h : List.Forall₂ p.Edges l l')
include h

theorem arcsLeft_parting (node : NodeId) : List.Forall₂ p.Edges (arcsLeft node l) (arcsLeft node l') :=
  filter_arcs h fun a a' ha => by rw [ha.source]

theorem released_parting (node : NodeId) : released node l' = released node l := by
  have hstart : (l'.filter fun e => e.source = node).map Edge.target
      = (l.filter fun e => e.source = node).map Edge.target :=
    map_eq_map_of_forall₂ (filter_arcs h fun a a' ha => by rw [ha.source]) fun _ _ ha => ha.target
  have hleft : (arcsLeft node l').map Edge.target = (arcsLeft node l).map Edge.target :=
    map_eq_map_of_forall₂ (arcsLeft_parting h node) fun _ _ ha => ha.target
  have hall (id : NodeId) : ((arcsLeft node l').all fun e => e.target ≠ id)
      = (arcsLeft node l).all fun e => e.target ≠ id := by
    have := congrArg (List.all · fun a => a ≠ id) hleft
    rwa [List.all_map, List.all_map] at this
  rw [released, released, hstart]
  exact List.filter_congr fun id _ => hall id

theorem releaseAll_parting (queue : List NodeId) : releaseAll queue l' = releaseAll queue l := by
  fun_induction releaseAll queue l generalizing l' with
  | case1 => rw [releaseAll]
  | case2 arcs node rest ih => rw [releaseAll, released_parting h, ih (arcsLeft_parting h node)]

end

namespace Graphs

variable {g g' : Graph α} (h : p.Graphs g g')
include h

theorem someCycle : List.Forall₂ Renaming.refl.Matches g.someCycle g'.someCycle :=
  Graph.someCycle_rename (fun a => (h.outEdges a).imp fun _ _ he => he.matches)
    (h.nodeIds.trans (List.map_id _).symm)

theorem topologicalOrder : g'.topologicalOrder = g.topologicalOrder := by
  have hempty (id : NodeId) : (g'.inEdges id).isEmpty = (g.inEdges id).isEmpty := by
    rw [Bool.eq_iff_iff, List.isEmpty_iff_length_eq_zero, List.isEmpty_iff_length_eq_zero, (h.inEdges id).length_eq]
  rw [Graph.topologicalOrder, Graph.topologicalOrder, h.nodeIds, funext hempty]
  exact releaseAll_parting h.arcs _

theorem layerFrom (layers : OrderedMap NodeId Int) (id : NodeId) :
    g'.layerFrom layers id = g.layerFrom layers id := by
  rw [Graph.layerFrom, Graph.layerFrom, h.predecessors]

theorem layering : g'.layering = g.layering := by
  have hcycle := h.someCycle
  unfold Graph.layering
  generalize g.someCycle = cycle at hcycle ⊢
  generalize g'.someCycle = cycle' at hcycle ⊢
  cases hcycle with
  | nil => simp only [h.topologicalOrder, h.layerFrom]
  | cons he hrest =>
    refine congrArg (fun l => Except.error (Fault.cyclic l)) ?_
    exact map_eq_map_of_forall₂ (.cons he hrest) fun a a' ha => Prod.ext ha.source ha.target

/-! ## arrangements -/

theorem neighbours (side : Side) (id : NodeId) : g'.neighbours side id = g.neighbours side id := by
  cases side with
  | incoming => exact h.predecessors id
  | outgoing => exact h.successors id

theorem mirrors : Mirrors Renaming.refl g g' :=
  ⟨fun id => by rw [h.nodes]; rfl, fun side id => (h.neighbours side id).trans (List.map_id _).symm⟩

theorem crossings (lists : Arrangement) :
    LayeredDrawing.crossings g' lists = LayeredDrawing.crossings g lists :=
  crossings_congr h.successors lists

theorem crossings? (lists : Arrangement) :
    LayeredDrawing.crossings? g' lists = LayeredDrawing.crossings? g lists := by
  rw [LayeredDrawing.crossings?, LayeredDrawing.crossings?, h.requireAll, h.crossings]

theorem sweep? [Scalar α] (m : Heuristic) (lists : Arrangement) :
    LayeredDrawing.sweep? g' m lists = LayeredDrawing.sweep? g m lists := by
  have hsweep := h.mirrors.sweep m lists
  rw [Renaming.refl_arrangement, Renaming.refl_arrangement] at hsweep
  rw [LayeredDrawing.sweep?, LayeredDrawing.sweep?, h.requireAll, hsweep]

theorem candidate (lists : Arrangement) :
    LayeredDrawing.candidate g' lists = LayeredDrawing.candidate g lists :=
  congrArg (Candidate.mk lists) (h.crossings lists)

theorem improve [Scalar α] (m : Heuristic) (passes : Nat) (current : Arrangement) (best : Candidate) :
    LayeredDrawing.improve g' m passes current best = LayeredDrawing.improve g m passes current best := by
  induction passes generalizing current best with
  | zero => rfl
  | succ passes ih => simp only [LayeredDrawing.improve, h.sweep?, h.candidate, ih]

theorem bestArrangement [Scalar α] (c : Config α) (lists : Arrangement) :
    LayeredDrawing.bestArrangement g' c lists = LayeredDrawing.bestArrangement g c lists := by
  simp only [LayeredDrawing.bestArrangement, h.requireAll, h.candidate, h.improve]

/-! ## heights -/

section
variable [Scalar α]

theorem wish (hs : Heights α) (side : Side) (id : NodeId) :
    LayeredDrawing.wish g' hs side id = LayeredDrawing.wish g hs side id := by
  rw [LayeredDrawing.wish, LayeredDrawing.wish, h.require, h.neighbours, h.node]

theorem alignPass (spacing : α) (lists : Arrangement) (hs : Heights α) :
    LayeredDrawing.alignPass g' spacing lists hs = LayeredDrawing.alignPass g spacing lists hs := by
  have hlayer (side : Side) :
      alignLayer g' spacing side = alignLayer g spacing side := by
    funext hs layer
    rw [alignLayer, alignLayer, funext (h.wish hs side)]
  rw [LayeredDrawing.alignPass, LayeredDrawing.alignPass, hlayer, hlayer]

theorem heights (c : Config α) (lists : Arrangement) :
    LayeredDrawing.heights g' c lists = LayeredDrawing.heights g c lists := by
  have hpasses (passes : Nat) (hs : Heights α) :
      alignPasses g' c.nodeSpacing lists passes hs = alignPasses g c.nodeSpacing lists passes hs := by
    induction passes generalizing hs with
    | zero => rfl
    | succ passes ih => rw [alignPasses, alignPasses, h.alignPass, funext ih]
  rw [LayeredDrawing.heights, LayeredDrawing.heights, hpasses]

end

end Graphs

/-! ## checks that name an edge -/

theorem Edges.span? {e e' : Edge} (h : p.Edges e e') (layers : OrderedMap NodeId Int) :
    LayeredDrawing.span? layers e' = LayeredDrawing.span? layers e := by
  rw [LayeredDrawing.span?, LayeredDrawing.span?, h.source, h.target]

theorem paired_longEdges (layers : OrderedMap NodeId Int) {l l' : List Edge}
    (h : List.Forall₂ p.Edges l l') :
    Paired Fault.Alike (List.Forall₂ p.Edges) (longEdges layers l) (longEdges layers l') := by
  induction h with
  | nil => exact .nil
  | @cons e e' l l' he _ ih =>
    unfold longEdges
    rw [he.span?]
    refine (paired_refl Fault.alike_refl (LayeredDrawing.span? layers e)).bind_same fun span => ?_
    by_cases hlow : span < 1
    · simp only [if_pos hlow]
      exact congrArg (Fault.spanBelowOne · span) he.seen
    · simp only [if_neg hlow]
      refine ih.bind fun long long' hlong => ?_
      by_cases hspan : 1 < span
      · simp only [if_pos hspan]
        exact .cons he hlong
      · simp only [if_neg hspan]
        exact hlong

structure Chains (p : Parting α) (C C' : Chain) : Prop where
  edge : p.Edges C.edge C'.edge
  nodes : C'.nodes = C.nodes
  edges : List.Forall₂ p.Edges C.edges C'.edges

structure Snapshots (p : Parting α) (s s' : Snapshot) : Prop where
  stage : s'.stage = s.stage
  layers : s'.layers = s.layers
  arrangement : s'.arrangement = s.arrangement
  chains : s.chains.Related p.Chains s'.chains

theorem snapshots_initial (p : Parting α) : p.Snapshots .initial .initial :=
  ⟨rfl, rfl, rfl, OrderedMap.related_empty⟩

theorem paired_requireUnitSpans {g g' : Graph α} (hg : p.Graphs g g') {s s' : Snapshot}
    (hs : p.Snapshots s s') :
    Paired Fault.Alike Eq (requireUnitSpans g s) (requireUnitSpans g' s') := by
  refine paired_forM hg.edges fun e e' he => ?_
  rw [hs.layers, he.span?]
  refine (paired_refl Fault.alike_refl (LayeredDrawing.span? s.layers e)).bind_same fun span => ?_
  split
  · exact congrArg (Fault.spanNotOne · span) he.seen
  · exact (rfl : () = ())

/-! ## phases -/

/-- the same list on both sides -/
theorem inStep_forM_same {δ : Type} {f f' : δ → Action α Unit} (l : List δ)
    (h : ∀ d, p.InStep Eq (f d) (f' d)) : p.InStep Eq (l.forM f) (l.forM f') := by
  have hrefl : List.Forall₂ Eq l l := List.forall₂_refl l
  exact inStep_forM hrefl fun d d' hd => hd ▸ h d

theorem Snapshots.requireStage {s s' : Snapshot} (hs : p.Snapshots s s') (stage : Stage) :
    s'.requireStage stage = s.requireStage stage := by
  rw [Snapshot.requireStage, Snapshot.requireStage, hs.stage]

section
variable [Scalar α] (c : Config α) {s s' : Snapshot} (hs : p.Snapshots s s')
include hs

theorem inStep_putInLayers :
    p.InStep p.Snapshots (Action.putInLayers c s) (Action.putInLayers c s') := by
  have hwrite (layers : OrderedMap NodeId Int) (id : NodeId) :
      p.InStep Eq (Action.writeLayer c layers id) (Action.writeLayer c layers id) := by
    refine (inStep_check_same _).bind_same fun layer => ?_
    exact inStep_edit fun g g' hg => hg.modifyNode id _
  unfold Action.putInLayers
  rw [hs.requireStage]
  refine (inStep_check_same _).bind fun _ _ _ => ?_
  refine (inStep_ask_same fun g g' hg => hg.layering).bind_same fun layers => ?_
  refine inStep_get.bind fun w w' hw => ?_
  rw [hw.graph.nodeIds]
  refine (inStep_forM_same _ (hwrite layers)).bind fun _ _ _ => ?_
  exact inStep_pure ⟨rfl, rfl, rfl, hs.chains⟩

theorem inStep_reorder : p.InStep p.Snapshots (Action.reorder c s) (Action.reorder c s') := by
  have hstack (layer : List NodeId) :
      p.InStep Eq (Action.stackLayer layer) (Action.stackLayer (α := α) layer) :=
    inStep_forM_same _ fun q => inStep_edit fun g g' hg => hg.modifyNode q.1 _
  unfold Action.reorder
  rw [hs.requireStage, hs.arrangement]
  refine (inStep_check_same _).bind fun _ _ _ => ?_
  refine (inStep_ask fun g g' hg => paired_requireUnitSpans hg hs).bind fun _ _ _ => ?_
  refine (inStep_ask_same fun g g' hg => hg.bestArrangement c _).bind_same fun lists => ?_
  refine (inStep_forM_same _ hstack).bind fun _ _ _ => ?_
  exact inStep_pure ⟨rfl, hs.layers, rfl, hs.chains⟩

theorem inStep_place : p.InStep p.Snapshots (Action.place c s) (Action.place c s') := by
  have hposition (table : Heights α) (layer : List NodeId) (i : Nat) :
      p.InStep Eq (Action.positionLayer c table layer i) (Action.positionLayer c table layer i) := by
    refine inStep_forM_same _ fun id => (inStep_check_same _).bind_same fun y => ?_
    exact inStep_edit fun g g' hg => hg.modifyNode id _
  unfold Action.place
  rw [hs.requireStage, hs.arrangement]
  refine (inStep_check_same _).bind fun _ _ _ => ?_
  refine (inStep_ask_same fun g g' hg => hg.heights c _).bind_same fun table => ?_
  refine (inStep_check_same _).bind fun _ _ _ => ?_
  refine (inStep_forM_same _ fun q : List NodeId × Nat => hposition table q.1 q.2).bind fun _ _ _ => ?_
  exact inStep_pure ⟨rfl, hs.layers, rfl, hs.chains⟩

end

/-! ## expansion -/

structure Strands (p : Parting α) (st st' : Strand) : Prop where
  layers : st'.layers = st.layers
  arrangement : st'.arrangement = st.arrangement
  last : st'.last = st.last
  nodes : st'.nodes = st.nodes
  edges : List.Forall₂ p.Edges st.edges st'.edges

section
variable [Scalar α] (c : Config α) {e e' : Edge} (he : p.Edges e e')
include he

theorem inStep_extendStrand (start : Int) (i : Nat) {st st' : Strand} (h : p.Strands st st') :
    p.InStep p.Strands (Action.extendStrand c e start i st)
      (Action.extendStrand c e' start i st') := by
  unfold Action.extendStrand
  rw [he.key, h.layers, h.arrangement, h.last, h.nodes]
  refine (inStep_check_same _).bind_same fun x => ?_
  refine (inStep_ask_same fun g g' hg => hg.node _).bind_same fun prev => ?_
  refine (inStep_edit fun g g' hg => hg.addNode _ _).bind fun _ _ _ => ?_
  refine (inStep_check_same _).bind_same fun lists => ?_
  refine (inStep_addEdge _ _ _).bind fun d d' hd => ?_
  exact inStep_pure ⟨rfl, rfl, rfl, rfl, List.rel_append h.edges (.cons hd .nil)⟩

theorem inStep_extendStrandBy (start : Int) (count i : Nat) {st st' : Strand} (h : p.Strands st st') :
    p.InStep p.Strands (Action.extendStrandBy c e start count i st)
      (Action.extendStrandBy c e' start count i st') := by
  induction count generalizing i st st' with
  | zero => exact inStep_pure h
  | succ count ih => exact (inStep_extendStrand c he start i h).bind fun _ _ hst => ih (i + 1) hst

theorem inStep_hideEdge {s s' : Snapshot} (hs : p.Snapshots s s') :
    p.InStep p.Snapshots (Action.hideEdge c s e) (Action.hideEdge c s' e') := by
  unfold Action.hideEdge
  rw [hs.layers, hs.arrangement, he.span?, he.source, he.target, he.key]
  refine (inStep_check_same _).bind_same fun start => ?_
  refine (inStep_check_same _).bind_same fun span => ?_
  refine (inStep_extendStrandBy c he start _ 1 ⟨rfl, rfl, rfl, rfl, .nil⟩).bind fun st st' hst => ?_
  rw [hst.last]
  refine (inStep_addEdge _ _ _).bind fun d d' hd => ?_
  refine (inStep_edit fun g g' hg => hg.detach he).bind fun _ _ _ => ?_
  refine inStep_pure ⟨hs.stage, hst.layers, hst.arrangement, hs.chains.insert e.key ?_⟩
  exact ⟨he, hst.nodes, List.rel_append hst.edges (.cons hd .nil)⟩

end

theorem inStep_subdivide [Scalar α] (c : Config α) {s s' : Snapshot} (hs : p.Snapshots s s') :
    p.InStep p.Snapshots (Action.subdivide c s) (Action.subdivide c s') := by
  unfold Action.subdivide
  rw [hs.requireStage]
  refine (inStep_check_same _).bind fun _ _ _ => ?_
  have hlong (g g' : Graph α) (hg : p.Graphs g g') : Paired Fault.Alike (List.Forall₂ p.Edges)
      (longEdges s.layers g.edges) (longEdges s'.layers g'.edges) := by
    rw [hs.layers]
    exact paired_longEdges s.layers hg.edges
  refine (inStep_ask hlong).bind fun l l' hl => ?_
  have hstart : p.Snapshots { s with chains := ∅ } { s' with chains := ∅ } :=
    ⟨hs.stage, hs.layers, hs.arrangement, OrderedMap.related_empty⟩
  refine (inStep_foldlM hl (fun _ _ _ _ hs he => inStep_hideEdge c he hs) hstart).bind fun t t' ht => ?_
  exact inStep_pure ⟨rfl, ht.layers, ht.arrangement, ht.chains⟩

/-! ## reconstruction -/

theorem inStep_restoreEdge {C C' : Chain} (h : p.Chains C C') :
    p.InStep Eq (Action.restoreEdge C) (Action.restoreEdge (α := α) C') := by
  unfold Action.restoreEdge
  rw [h.nodes]
  refine (inStep_reattach h.edge).bind fun e e' he => inStep_forM_same _ fun id => ?_
  refine (inStep_ask_same fun g g' hg => hg.node id).bind_same fun n => ?_
  refine (inStep_addBend he n.position).bind fun _ _ _ => ?_
  exact inStep_edit fun g g' hg => hg.removeNode id

section
variable [Metric α] (c : Config α)

theorem inStep_restoreEdges {s s' : Snapshot} (hs : p.Snapshots s s') :
    p.InStep p.Snapshots (Action.restoreEdges c s) (Action.restoreEdges c s') := by
  have hgone : s'.dummyNodes = s.dummyNodes := by
    rw [Snapshot.dummyNodes, Snapshot.dummyNodes, List.flatMap_def, List.flatMap_def,
      map_eq_map_of_forall₂ hs.chains.values fun _ _ h => h.nodes]
  unfold Action.restoreEdges
  rw [hs.requireStage, hgone, hs.layers, hs.arrangement]
  refine (inStep_check_same _).bind fun _ _ _ => ?_
  refine (inStep_forM hs.chains.values fun _ _ h => inStep_restoreEdge h).bind fun _ _ _ => ?_
  by_cases hclean : c.cleanBends = true
  · simp only [if_pos hclean]
    refine (inStep_cleanRoutes c.tolerance).discard.bind fun _ _ _ => ?_
    exact inStep_pure ⟨rfl, rfl, rfl, OrderedMap.related_empty⟩
  · simp only [if_neg hclean]
    exact inStep_pure ⟨rfl, rfl, rfl, OrderedMap.related_empty⟩

/-! ## drawings -/

theorem inStep_apply (phase : Phase) {s s' : Snapshot} (hs : p.Snapshots s s') :
    p.InStep p.Snapshots (phase.apply c s) (phase.apply c s') := by
  cases phase with
  | layering => exact inStep_putInLayers c hs
  | expansion => exact inStep_subdivide c hs
  | ordering => exact inStep_reorder c hs
  | placement => exact inStep_place c hs
  | reconstruction => exact inStep_restoreEdges c hs

theorem inStep_draw (p : Parting α) : p.InStep p.Snapshots (draw c) (draw c) := by
  have hrefl : List.Forall₂ Eq Phase.all Phase.all := List.forall₂_refl _
  refine inStep_foldlM hrefl (fun s s' phase phase' hs hphase => ?_) (snapshots_initial p)
  subst hphase
  exact inStep_apply c phase hs

end

end LayeredDrawing.Parting
