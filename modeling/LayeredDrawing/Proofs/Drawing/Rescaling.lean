import LayeredDrawing.Proofs.Drawing.Rearranged

/-!
# Drawings on another scale

The spacings are pure scale factors.  Over the rationals, multiplying by a positive number keeps sums,
differences, fractions and the order, so a drawing with multiplied spacings goes the way of the drawing
with the old ones, and its coordinates are multiples of the old ones.

* `Config.rescale`      the configuration with multiplied spacings;
* `Config.resizing`     the two configurations differ in scale only;
* `draw_rescale`        so do the drawings.
-/

namespace LayeredDrawing

/-- nodes of a layer are `a` times as far from each other, and layers `b` times -/
def Config.rescale (c : Config Rat) {a b : Rat} (ha : 0 < a) (hb : 0 < b) : Config Rat :=
  { c with
    nodeSpacing := c.nodeSpacing * a
    layerSpacing := c.layerSpacing * b
    nodeSpacing_pos := not_le.2 (mul_pos (not_le.1 c.nodeSpacing_pos) ha)
    layerSpacing_pos := not_le.2 (mul_pos (not_le.1 c.layerSpacing_pos) hb) }

theorem scaling_mul {a : Rat} (ha : 0 < a) (spacing : Rat) :
    Scaling (· * a) spacing (spacing * a) where
  lt_iff _ _ := mul_lt_mul_iff_left₀ ha
  add x y := add_mul x y a
  sub x y := sub_mul x y a
  zero := zero_mul a
  fraction x _ := div_mul_eq_mul_div x _ a
  gap := rfl
  multiple _ := mul_assoc _ _ _

section
variable {c : Config Rat} {a b : Rat} (ha : 0 < a) (hb : 0 < b)

theorem Config.resizing (hclean : c.cleanBends = false) :
    Resizing c (c.rescale ha hb) (· * b) (· * a) where
  seed := rfl
  heuristic := rfl
  crossingPasses := rfl
  coordinatePasses := rfl
  cleanBends := rfl
  layerPosition _ := (mul_assoc _ _ _).symm
  scaling := scaling_mul ha c.nodeSpacing
  unscaled h := by rw [hclean] at h; cases h

end

/-- the drawings have the same nodes and edges in the same layers and lists; coordinates, and the bends
of edges across more than one layer, are multiplied -/
structure Rescaled (a b : Rat) (s : Snapshot) (v : Workspace Rat) (s' : Snapshot)
    (v' : Workspace Rat) : Prop where
  arrangement : s'.arrangement = s.arrangement
  layers : ∀ id, s'.layers.get? id = s.layers.get? id
  edges : v'.graph.edges = v.graph.edges
  nodes : ∀ id, v'.graph.nodes.get? id
    = (v.graph.nodes.get? id).map fun n => { n with x := n.x * b, y := n.y * a }
  bends : ∀ e ∈ v.graph.edges, ∀ i j, s.layers.get? e.source = some i →
    s.layers.get? e.target = some j → 1 < j - i →
      v'.bends.get e.slot = (v.bends.get e.slot).map fun p => ⟨p.x * b, p.y * a⟩

/-- a drawing with multiplied spacings is the multiplied drawing -/
theorem draw_rescale {c : Config Rat} {a b : Rat} (ha : 0 < a) (hb : 0 < b) {w v : Workspace Rat}
    {past : List Edge} {s : Snapshot} (hw : Reached w past) (hclean : c.cleanBends = false)
    (h : (draw c).perform w = (.ok s, v)) :
    ∃ s' v', (draw (c.rescale ha hb)).perform w = (.ok s', v') ∧ Rescaled a b s v s' v' := by
  have hr := rearranged_self s.layers w
  have hgrouped := hw.built.grouped
  obtain ⟨s', v', h', hv⟩ := hr.renamed.exists_draw hw.sound hw.sound (c.resizing ha hb hclean)
    (fun _ => hr.shortAlike) h
  obtain ⟨houtline, harcs⟩ := hr.graph_eq hw.sound hw.sound hgrouped hgrouped h h' hv
  exact ⟨s', v', h', by rw [hv.arrangement, Renaming.refl_arrangement], congrFun hv.layers_refl,
    Graph.edges_congr (Graph.nodeIds_congr houtline) harcs, hv.spots.nodes_get? houtline,
    fun e he i j hi hj hlong =>
      hr.bends_of_long hv (mem_longArcs_of_drawn hw.sound hgrouped h he hi hj hlong)⟩

/-- twice as far within layers, and half as far across -/
theorem draw_rescale_triangle : (0 : Rat) < 2 ∧ (0 : Rat) < 1 / 2 ∧ (∃ past, Reached triangle past) ∧
    wideConfig.cleanBends = false ∧ ∃ s v, (draw wideConfig).perform triangle = (.ok s, v) ∧
      ∃ s' v', (draw (wideConfig.rescale (a := 2) (b := 1 / 2) two_pos one_half_pos)).perform triangle
        = (.ok s', v') ∧ Rescaled 2 (1 / 2) s v s' v' := by
  obtain ⟨past, hreached⟩ := reached_triangle
  obtain ⟨s, v, hdraw⟩ := exists_draw_triangle
  exact ⟨two_pos, one_half_pos, ⟨past, hreached⟩, rfl, s, v, hdraw,
    draw_rescale two_pos one_half_pos hreached rfl hdraw⟩

end LayeredDrawing
