import LayeredDrawing.Proofs.Drawing.Success

/-!
# What a drawing keeps

Expansion and reconstruction undo each other.  Uncleaned, a drawing leaves the nodes and edges as
they were but for layers, positions and the bends of long edges; those run through the places that
the dummy nodes of the edge had when all was placed.

* `Prepared.bends_of_short`   an edge to the next layer keeps its bends;
* `Prepared.bends_of_long`    a long edge gets the positions of its dummy nodes;
* `draw_conserves`            all this of every drawing.
-/

namespace LayeredDrawing

section
variable {α : Type} [Scalar α] {c : Config α} {w u v : Workspace α} {table : OrderedMap NodeId Int}
  {t : Snapshot} {e : Edge} {a b : Int}

theorem Prepared.bends_of_short (h : Prepared c w table t u) (hr : Restored w u t v)
    (he : e ∈ w.graph.arcs) (ha : table.get? e.source = some a)
    (hb : table.get? e.target = some (a + 1)) : v.bends.get e.slot = w.bends.get e.slot := by
  exact hr.bends_of_short h.toExpanded (List.mem_filter.2 ⟨he, decide_eq_true ⟨a, ha, hb⟩⟩)

theorem Prepared.bends_of_long (h : Prepared c w table t u) (hr : Restored w u t v)
    (he : e ∈ w.graph.arcs) (ha : table.get? e.source = some a) (hb : table.get? e.target = some b)
    (hlong : 1 < b - a) :
    (v.bends.get e.slot).map some = (dummies e.key (b - a - 1).toNat).map u.graph.position? := by
  obtain ⟨C, hC, rfl, hnodes⟩ := h.exists_chain he ha hb hlong
  rw [hr.route C hC, hnodes]

end

section
variable {α : Type}

theorem Restored.outline {w u v : Workspace α} {s : Snapshot} (h : Restored w u s v) :
    v.graph.outline = w.graph.outline := by
  obtain ⟨known, hreplaced⟩ := h.replaced
  rw [← hreplaced.outline]
  exact (OrderedMap.filter_not_mem_nil v.graph.outline).symm

theorem Restored.perm_arcs {w u v : Workspace α} {s : Snapshot} (h : Restored w u s v) :
    v.graph.arcs.Perm w.graph.arcs := by
  obtain ⟨known, hreplaced⟩ := h.replaced
  have hperm := hreplaced.perm
  rwa [List.append_nil, List.append_nil] at hperm

theorem Restored.coherent {w u v : Workspace α} {s : Snapshot} (h : Restored w u s v) :
    v.graph.Coherent := by
  obtain ⟨known, hreplaced⟩ := h.replaced
  exact hreplaced.sound.coherent

/-- `v` is `w` drawn by way of `u`, where all nodes and dummy nodes had their places -/
structure Conserved (w u : Workspace α) (s : Snapshot) (v : Workspace α) : Prop where
  outline : v.graph.outline = w.graph.outline
  edges : v.graph.edges.Perm w.graph.edges
  lookup : ∀ key, v.graph.edge key = w.graph.edge key
  layering : w.graph.layering = .ok s.layers
  mem_keys_iff : ∀ id, id ∈ s.layers.keys ↔ id ∈ w.graph.nodeIds
  arrangement : s.arrangement.flatten.Perm w.graph.nodeIds
  chains : s.chains = ∅
  short : ∀ e ∈ w.graph.edges, ∀ a, s.layers.get? e.source = some a →
    s.layers.get? e.target = some (a + 1) → v.bends.get e.slot = w.bends.get e.slot
  long : ∀ e ∈ w.graph.edges, ∀ a b, s.layers.get? e.source = some a →
    s.layers.get? e.target = some b → 1 < b - a →
      (v.bends.get e.slot).map some = (dummies e.key (b - a - 1).toNat).map u.graph.position?

variable [Metric α] {c : Config α}

theorem conserved_of_prepared {w u v : Workspace α} {known : List Edge} (hw : w.Sound known)
    {table : OrderedMap NodeId Int} {t : Snapshot} (h : Prepared c w table t u)
    (hr : Restored w u t v) : Conserved w u t.withoutChains v := by
  have hlayers : t.withoutChains.layers = table := h.layers_withoutChains
  have hfiled : Filed table t.withoutChains.arrangement := h.filed_withoutChains
  have harcs (e : Edge) : e ∈ w.graph.edges ↔ e ∈ w.graph.arcs := hw.coherent.mem_edges
  refine ⟨hr.outline, ?_, ?_, ?_, ?_, ?_, rfl, ?_, ?_⟩
  · have hback : w.graph.arcs.Perm w.graph.edges := hw.coherent.perm_edges.symm
    exact (hr.coherent.perm_edges.trans hr.perm_arcs).trans hback
  · exact hr.coherent.edge_congr hw.coherent fun e => hr.perm_arcs.mem_iff
  · rw [hlayers]
    exact h.layering
  · rw [hlayers]
    exact h.mem_table_iff
  · refine (List.perm_ext_iff_of_nodup hfiled.nodup_flatten w.graph.nodup_nodeIds).2 fun id => ?_
    rw [hfiled.mem_flatten, h.mem_table_iff]
  · intro e he a ha hb
    rw [hlayers] at ha hb
    exact h.bends_of_short hr ((harcs e).1 he) ha hb
  · intro e he a b ha hb hlong
    rw [hlayers] at ha hb
    exact h.bends_of_long hr ((harcs e).1 he) ha hb hlong

theorem Reconstructed.nodeIds {w u v : Workspace α} {t : Snapshot} (h : Reconstructed c w u t v) :
    v.graph.nodeIds = w.graph.nodeIds := by
  obtain ⟨v₁, hrestored, hgraph, _⟩ := h.restored
  rw [hgraph, Graph.nodeIds_congr hrestored.outline]

theorem Reconstructed.uncleaned {w u v : Workspace α} {t : Snapshot} (h : Reconstructed c w u t v)
    (hclean : c.cleanBends = false) : Restored w u t v := by
  obtain ⟨v₁, hv₁, _, hsame, _⟩ := h.restored
  rw [hsame hclean]
  exact hv₁

/-- a drawing whose bends are not cleaned keeps all but layers, positions and bends of long edges -/
theorem draw_conserves {w v : Workspace α} {past : List Edge} {s : Snapshot} (hw : Reached w past)
    (hclean : c.cleanBends = false) (h : (draw c).perform w = (.ok s, v)) :
    ∃ t u, (runPhases c Phase.preparation .initial).perform w = (.ok t, u) ∧
      t.stage = .positioned ∧ Conserved w u s v := by
  obtain ⟨table, t, u, hprepare, hprepared, rfl, hreconstructed⟩ := draw_spec hw.sound h
  exact ⟨t, u, hprepare, hprepared.stage,
    conserved_of_prepared hw.sound hprepared (hreconstructed.uncleaned hclean)⟩

end

theorem draw_conserves_triangle : (∃ past, Reached triangle past) ∧
    wideConfig.cleanBends = false ∧
    ∃ s v, (draw wideConfig).perform triangle = (.ok s, v) ∧
      ∃ t u, (runPhases wideConfig Phase.preparation .initial).perform triangle = (.ok t, u) ∧
        t.stage = .positioned ∧ Conserved triangle u s v := by
  obtain ⟨past, hreached⟩ := reached_triangle
  obtain ⟨s, v, hdraw⟩ := exists_draw_triangle
  exact ⟨⟨past, hreached⟩, rfl, s, v, hdraw, draw_conserves hreached rfl hdraw⟩

end LayeredDrawing
