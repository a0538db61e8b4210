import LayeredDrawing.Proofs.Phase.Reattachment
import LayeredDrawing.Proofs.Renaming.Drawing

/-!
# Drawings of rearranged graphs

A graph is rearranged if its long edges have changed their places among the arcs, but neither among
themselves nor within the edges from their sources.  If a graph can be drawn, so can the rearranged
graph, and the two drawings are the same: expansion takes the long edges out of the graph, and the last
phase puts them back in the order in which they were hidden.

* `Rearranged.renamed`       no name has changed;
* `Rearranged.sameDrawing`   corresponding drawings are the same;
* `Rearranged.exists_draw`   the whole drawing.
-/

namespace LayeredDrawing

variable {α : Type}

/-- the order of the arcs may differ in the places of long edges, and the bends in theirs -/
structure Rearranged (table : OrderedMap NodeId Int) (w w' : Workspace α) : Prop where
  outline : w'.graph.outline = w.graph.outline
  short : w'.graph.shortArcs table = w.graph.shortArcs table
  long : w'.graph.longArcs table = w.graph.longArcs table
  bends : ∀ e ∈ w.graph.shortArcs table, w'.bends.get e.slot = w.bends.get e.slot

theorem rearranged_self (table : OrderedMap NodeId Int) (w : Workspace α) : Rearranged table w w :=
  ⟨rfl, rfl, rfl, fun _ _ => rfl⟩

/-- the nodes in order and all that is known of them, the arcs in order, and their bends -/
structure SameDrawing (v v' : Workspace α) : Prop where
  nodes : v'.graph.nodes = v.graph.nodes
  arcs : v'.graph.arcs = v.graph.arcs
  bends : ∀ e ∈ v.graph.arcs, v'.bends.get e.slot = v.bends.get e.slot

theorem SameDrawing.edges {v v' : Workspace α} (h : SameDrawing v v') :
    v'.graph.edges = v.graph.edges :=
  Graph.edges_congr (congrArg OrderedMap.keys h.nodes) h.arcs

section
variable {table : OrderedMap NodeId Int} {w w' : Workspace α} (hr : Rearranged table w w')
include hr

theorem Rearranged.renamed : Renamed .refl table w w' := by
  refine ⟨?_, fun a => ?_, fun side a => ?_, ?_⟩
  · rw [Graph.nodeIds_congr hr.outline]
    exact (List.map_id _).symm
  · have hdummy (g : Graph α) : (g.nodes.get? a).map Node.isDummy
        = (g.outline.get? a).map fun o => o.2.2 := by
      rw [Graph.outline, OrderedMap.get?_mapValues, Option.map_map]
      rfl
    exact (hdummy w'.graph).trans (hr.outline ▸ (hdummy w.graph).symm)
  · rw [Renaming.refl_table, hr.short]
    exact (List.map_id _).symm
  · rw [Renaming.refl_table, hr.long]
    exact List.forall₂_same.2 fun e _ => ⟨rfl, rfl, rfl⟩

theorem Rearranged.route {e : Edge} (he : e ∈ w.graph.shortArcs table) :
    RoutesAlike .refl id w w' e e :=
  ⟨⟨rfl, rfl, rfl⟩, by rw [hr.bends e he, List.map_id]⟩

theorem Rearranged.shortAlike : ShortAlike .refl table w w' := by
  refine ⟨fun e he => ⟨e, ?_, hr.route he⟩, fun e he => ?_⟩
  · rwa [Renaming.refl_table, hr.short]
  · rw [Renaming.refl_table, hr.short] at he
    exact ⟨e, he, hr.route he⟩

end

section
variable {scale : Point α → Point α} {w w' v v' : Workspace α} {s s' : Snapshot}
  (hr : Rearranged s.layers w w') (hv : Corresponds .refl scale w w' s v s' v')
include hr hv

theorem Rearranged.shortArcs_eq : w'.graph.shortArcs s'.layers = w.graph.shortArcs s.layers := by
  rw [Graph.shortArcs_congr hv.layers_refl, hr.short]

theorem Rearranged.longArcs_eq : w'.graph.longArcs s'.layers = w.graph.longArcs s.layers := by
  rw [Graph.longArcs_congr hv.layers_refl, hr.long]

theorem Rearranged.bends_of_long {e : Edge} (he : e ∈ w.graph.longArcs s.layers) :
    v'.bends.get e.slot = (v.bends.get e.slot).map scale := by
  have hroutes := hv.long
  rw [hr.longArcs_eq hv] at hroutes
  exact (List.forall₂_same.1 hroutes e he).bends

end

section
variable [Metric α] {c c' : Config α} {scale : Point α → Point α} {w w' v v' : Workspace α}
  {s s' : Snapshot} {known known' : List Edge}

/-- the long edges have come back behind the others -/
theorem draw_arcs_eq (hw : w.Sound known) (hgrouped : Grouped w.graph.arcs)
    (h : (draw c).perform w = (.ok s, v)) : v.graph.Coherent ∧ v.graph.outline = w.graph.outline ∧
      v.graph.arcs = w.graph.shortArcs s.layers ++ w.graph.longArcs s.layers := by
  obtain ⟨table, t, u, _, hprepared, rfl, hrec⟩ := draw_spec hw h
  obtain ⟨v₁, hv₁, hgraph, _⟩ := hrec.restored
  rw [hprepared.layers_withoutChains, hgraph]
  exact ⟨hv₁.coherent, hv₁.outline, hv₁.arcs_eq hprepared.toExpanded hgrouped⟩

/-- an edge of the drawing across more than one layer is one of the long edges -/
theorem mem_longArcs_of_drawn (hw : w.Sound known) (hgrouped : Grouped w.graph.arcs)
    (h : (draw c).perform w = (.ok s, v)) {e : Edge} (he : e ∈ v.graph.edges) {i j : Int}
    (hi : s.layers.get? e.source = some i) (hj : s.layers.get? e.target = some j)
    (hlong : 1 < j - i) : e ∈ w.graph.longArcs s.layers := by
  obtain ⟨id, _, hout⟩ := List.mem_flatMap.1 he
  have harc := (List.mem_filter.1 hout).1
  rw [(draw_arcs_eq hw hgrouped h).2.2] at harc
  refine (List.mem_append.1 harc).resolve_left fun hshort => ?_
  have hnext : NextLayer s.layers e.source e.target := of_decide_eq_true (List.mem_filter.1 hshort).2
  rw [nextLayer_iff hi hj] at hnext
  omega

variable (hw : w.Sound known) (hw' : w'.Sound known') (hgrouped : Grouped w.graph.arcs)
  (hgrouped' : Grouped w'.graph.arcs) (h : (draw c).perform w = (.ok s, v))
  (hr : Rearranged s.layers w w')
include hw hw' hgrouped hgrouped' h hr

/-- the drawings have the same nodes but for their places, and the same arcs in order -/
theorem Rearranged.graph_eq (h' : (draw c').perform w' = (.ok s', v'))
    (hv : Corresponds .refl scale w w' s v s' v') :
    v'.graph.outline = v.graph.outline ∧ v'.graph.arcs = v.graph.arcs := by
  obtain ⟨_, houtline, harcs⟩ := draw_arcs_eq hw hgrouped h
  obtain ⟨_, houtline', harcs'⟩ := draw_arcs_eq hw' hgrouped' h'
  rw [houtline, houtline', harcs, harcs', hr.shortArcs_eq hv, hr.longArcs_eq hv]
  exact ⟨hr.outline, rfl⟩

theorem Rearranged.sameDrawing (h' : (draw c').perform w' = (.ok s', v'))
    (hv : Corresponds .refl id w w' s v s' v') : SameDrawing v v' := by
  obtain ⟨houtline, harcs⟩ := hr.graph_eq hw hw' hgrouped hgrouped' h h' hv
  refine ⟨OrderedMap.ext_get? (Graph.nodeIds_congr houtline) fun a => ?_, harcs, fun e he => ?_⟩
  · rw [hv.spots.nodes_get? houtline]
    exact Option.map_id'
  · rw [(draw_arcs_eq hw hgrouped h).2.2] at he
    rcases List.mem_append.1 he with he | he
    · have hroute := hv.short e he e (by rwa [hr.shortArcs_eq hv]) (hr.route he)
      rw [hroute.bends, List.map_id]
    · rw [hr.bends_of_long hv he, List.map_id]

theorem Rearranged.exists_draw : ∃ s' v', (draw c).perform w' = (.ok s', v') ∧ SameDrawing v v' ∧
    s'.arrangement = s.arrangement ∧ s'.layers.get? = s.layers.get? := by
  obtain ⟨s', v', h', hv⟩ :=
    hr.renamed.exists_draw hw hw' (resizing_id c) (fun _ => hr.shortAlike) h
  exact ⟨s', v', h', hr.sameDrawing hw hw' hgrouped hgrouped' h h' hv,
    by rw [hv.arrangement, Renaming.refl_arrangement], hv.layers_refl⟩

end

end LayeredDrawing
