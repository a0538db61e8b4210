import LayeredDrawing.Proofs.Drawing.Rearranged
import LayeredDrawing.Proofs.Drawing.Reached

/-!
# Laying out again

A drawing leaves a rearranged graph behind: the long edges have come back behind all others, in the
order in which they were hidden, and an edge without bends to the next layer has got none.  So laying
the graph out again, with the same configuration, changes nothing at all.

* `Graph.longArcs_of_arcs`     the long edges behind the others come in the same order by source;
* `Reconstructed.rearranged`   what a drawing leaves behind;
* `draw_again`                 the second drawing.
-/

namespace LayeredDrawing

section
variable {α : Type}

/-- among the edges by source, those from one node stand together as they do among the arcs -/
theorem Graph.filter_source_edges (g : Graph α) {id : NodeId} (hid : id ∈ g.nodeIds) :
    (g.edges.filter fun e => e.source = id) = g.outEdges id := by
  have hout (j : NodeId) : ((g.outEdges j).filter fun e => e.source = id)
      = if j = id then g.outEdges id else [] := by
    have hsource {e : Edge} (he : e ∈ g.outEdges j) : e.source = j :=
      of_decide_eq_true (List.mem_filter.1 he).2
    split
    · rename_i hj
      rw [← hj]
      exact List.filter_eq_self.2 fun e he => decide_eq_true (hsource he)
    · rename_i hj
      exact List.filter_eq_nil_iff.2 fun e he hes => hj ((hsource he).symm.trans (of_decide_eq_true hes))
  have hids (ids : List NodeId) (hnodup : ids.Nodup) :
      ((ids.flatMap g.outEdges).filter fun e => e.source = id)
        = if id ∈ ids then g.outEdges id else [] := by
    induction ids with
    | nil => rfl
    | cons j ids ih =>
      obtain ⟨hj, hnodup⟩ := List.nodup_cons.1 hnodup
      rw [List.flatMap_cons, List.filter_append, hout, ih hnodup]
      by_cases heq : j = id
      · rw [if_pos heq, if_neg (heq ▸ hj), if_pos (heq ▸ List.mem_cons_self), List.append_nil]
      · have hmem : id ∈ j :: ids ↔ id ∈ ids := by
          rw [List.mem_cons, or_iff_right fun h => heq h.symm]
        rw [if_neg heq, List.nil_append]
        simp only [hmem]
  rw [edges, hids g.nodeIds g.nodup_nodeIds, if_pos hid]

section
variable {g g' : Graph α} {table : OrderedMap NodeId Int}
  (h : g'.arcs = g.shortArcs table ++ g.longArcs table)
include h

theorem Graph.shortArcs_of_arcs : g'.shortArcs table = g.shortArcs table := by
  have hlong : ((g.longArcs table).filter fun e => NextLayer table e.source e.target) = [] :=
    List.filter_eq_nil_iff.2 fun e he hnext =>
      of_decide_eq_true (List.mem_filter.1 he).2 (of_decide_eq_true hnext)
  rw [shortArcs, h, List.filter_append, hlong, List.append_nil, shortArcs, List.filter_filter]
  exact List.filter_congr fun e _ => Bool.and_self _

theorem Graph.longArcs_of_arcs (hids : g'.nodeIds = g.nodeIds) :
    g'.longArcs table = g.longArcs table := by
  have hshort : ((g.shortArcs table).filter fun e => ¬ NextLayer table e.source e.target) = [] :=
    List.filter_eq_nil_iff.2 fun e he hnext =>
      of_decide_eq_true hnext (of_decide_eq_true (List.mem_filter.1 he).2)
  have hlong : ((g.longArcs table).filter fun e => ¬ NextLayer table e.source e.target)
      = g.longArcs table := List.filter_eq_self.2 fun e he => (List.mem_filter.1 he).2
  have hout {id : NodeId} (hid : id ∈ g.nodeIds) :
      ((g'.outEdges id).filter fun e => ¬ NextLayer table e.source e.target)
        = (g.outEdges id).filter fun e => ¬ NextLayer table e.source e.target := by
    calc ((g'.outEdges id).filter fun e => ¬ NextLayer table e.source e.target)
        = (g'.arcs.filter fun e => ¬ NextLayer table e.source e.target).filter
            fun e => e.source = id := List.filter_comm ..
      _ = (g.longArcs table).filter fun e => e.source = id := by
          rw [h, List.filter_append, hshort, hlong, List.nil_append]
      _ = (g.edges.filter fun e => e.source = id).filter
            fun e => ¬ NextLayer table e.source e.target := List.filter_comm ..
      _ = (g.outEdges id).filter fun e => ¬ NextLayer table e.source e.target := by
          rw [g.filter_source_edges hid]
  rw [longArcs, longArcs, edges, edges, List.filter_flatMap, List.filter_flatMap, hids]
  exact List.flatMap_congr fun id hid => hout hid

end

end

section
variable {α : Type} [Metric α] {c : Config α} {w u v : Workspace α} {table : OrderedMap NodeId Int}
  {s t : Snapshot}

/-- an edge without bends to the next layer comes out without bends, cleaned or not -/
theorem Reconstructed.bends_of_short (hr : Reconstructed c w u t v) (h : Expanded c w table t u)
    {e : Edge} (he : e ∈ w.graph.shortArcs table) (hnone : w.bends.get e.slot = []) :
    v.bends.get e.slot = [] := by
  obtain ⟨v₁, hv₁, _, huncleaned, hcleaned⟩ := hr.restored
  have hbends : v₁.bends.get e.slot = [] := (hv₁.bends_of_short h he).trans hnone
  by_cases hclean : c.cleanBends = true
  · have harc : e ∈ v₁.graph.arcs := hv₁.perm_arcs.mem_iff.2 (List.mem_filter.1 he).1
    obtain ⟨p, q, _, _, hok⟩ := hcleaned hclean e harc
    rw [hbends, Route.clean_nil] at hok
    exact (Except.ok.inj hok).symm
  · rw [huncleaned (Bool.not_eq_true _ ▸ hclean), hbends]

theorem Reconstructed.rearranged (hr : Reconstructed c w u t v) (h : Expanded c w table t u)
    (hgrouped : Grouped w.graph.arcs)
    (hbends : ∀ e ∈ w.graph.shortArcs table, w.bends.get e.slot = []) : Rearranged table w v := by
  have hids := hr.nodeIds
  have hshort {e : Edge} (he : e ∈ w.graph.shortArcs table) :=
    hr.bends_of_short h he (hbends e he)
  obtain ⟨v₁, hv₁, hgraph, _⟩ := hr.restored
  have harcs : v.graph.arcs = w.graph.shortArcs table ++ w.graph.longArcs table :=
    hgraph ▸ hv₁.arcs_eq h hgrouped
  exact ⟨hgraph ▸ hv₁.outline, Graph.shortArcs_of_arcs harcs, Graph.longArcs_of_arcs harcs hids,
    fun e he => (hshort he).trans (hbends e he).symm⟩

/-- a second drawing with the same configuration leaves everything as the first one left it -/
theorem draw_again {past : List Edge} (hw : Reached w past) (h : (draw c).perform w = (.ok s, v))
    (hbends : ∀ e ∈ w.graph.edges, NextLayer s.layers e.source e.target →
      w.bends.get e.slot = []) :
    ∃ s' v', (draw c).perform v = (.ok s', v') ∧ v'.graph.nodes = v.graph.nodes ∧
      v'.graph.arcs = v.graph.arcs ∧ v'.graph.edges = v.graph.edges ∧
      (∀ e ∈ v.graph.edges, v'.bends.get e.slot = v.bends.get e.slot) ∧
      s'.arrangement = s.arrangement ∧ ∀ id, s'.layers.get? id = s.layers.get? id := by
  obtain ⟨table, t, u, _, hprepared, hs, hreconstructed⟩ := draw_spec hw.sound h
  have hlayers : s.layers = table := hs ▸ hprepared.layers_withoutChains
  have hgrouped := hw.built.grouped
  have hrearranged : Rearranged s.layers w v := by
    rw [hlayers] at hbends ⊢
    refine hreconstructed.rearranged hprepared.toExpanded hgrouped fun e he => ?_
    obtain ⟨harc, hnext⟩ := List.mem_filter.1 he
    exact hbends e (hw.sound.coherent.mem_edges.2 harc) (of_decide_eq_true hnext)
  obtain ⟨past', _, hv⟩ := hw.drawn c
  rw [h] at hv
  obtain ⟨s', v', hagain, hsame, hlists, hlayers'⟩ :=
    hrearranged.exists_draw hw.sound hv.sound hgrouped hv.built.grouped h
  refine ⟨s', v', hagain, hsame.nodes, hsame.arcs, hsame.edges, fun e he => ?_, hlists,
    congrFun hlayers'⟩
  exact hsame.bends e (hv.sound.coherent.mem_edges.1 he)

end

theorem draw_again_triangle : (∃ past, Reached triangle past) ∧
    ∃ s v, (draw wideConfig).perform triangle = (.ok s, v) ∧
      (∀ e ∈ triangle.graph.edges, NextLayer s.layers e.source e.target →
        triangle.bends.get e.slot = []) ∧
      ∃ s' v', (draw wideConfig).perform v = (.ok s', v') ∧ v'.graph.nodes = v.graph.nodes ∧
        v'.graph.arcs = v.graph.arcs ∧ v'.graph.edges = v.graph.edges ∧
        (∀ e ∈ v.graph.edges, v'.bends.get e.slot = v.bends.get e.slot) ∧
        s'.arrangement = s.arrangement ∧ ∀ id, s'.layers.get? id = s.layers.get? id := by
  obtain ⟨past, hreached⟩ := reached_triangle
  obtain ⟨s, v, hdraw⟩ := exists_draw_triangle
  have hbends : ∀ e ∈ triangle.graph.edges, NextLayer s.layers e.source e.target →
      triangle.bends.get e.slot = [] := by
    have hnone : ∀ e ∈ triangle.graph.edges, triangle.bends.get e.slot = [] := by decide +kernel
    exact fun e he _ => hnone e he
  exact ⟨⟨past, hreached⟩, s, v, hdraw, hbends, draw_again hreached hdraw hbends⟩

end LayeredDrawing
