import LayeredDrawing.Proofs.Drawing.Run
import LayeredDrawing.Proofs.Route.Clean
import LayeredDrawing.Proofs.Workspace.Reached

/-!
# Drawings succeed

Over the rationals, an acyclic graph is drawn whatever the configuration, unless one of its nodes
has the name of a dummy node that one of its edges needs.  Nothing on the way can be refused: every
node has a layer and stands in the list of its layer, hidden edges are absent until they come back,
heights grow along every layer, and no route has a length to divide by that vanishes.

* `NamesFree`         no node has such a name;
* `draw_of_acyclic`   the drawing is reconstructed.
-/

namespace LayeredDrawing

/-- no node has the name of a dummy node that an edge needs -/
def NamesFree {α : Type} (w : Workspace α) : Prop :=
  ∀ layers, w.graph.layering = .ok layers → ∀ e ∈ w.graph.edges, ∀ a b,
    layers.get? e.source = some a → layers.get? e.target = some b →
      ∀ i, 1 ≤ i → i < b - a → .dummy e.key i ∉ w.graph.nodeIds

section
variable {w : Workspace Rat} {known : List Edge} {c : Config Rat}

theorem not_obstructed (hw : w.Sound known) (hacyclic : w.graph.Acyclic) (hnames : NamesFree w) :
    ¬ Obstructed c w := by
  rintro (hcyclic | ⟨layers, fault, hlayers, hhindered⟩ | ⟨g, lists, hg, hp, hplace⟩)
  · exact hcyclic hacyclic
  · obtain ⟨e, he, a, b, ha, hb, i, h1, hlt, hid | hfault⟩ := hhindered
    · exact hnames layers hlayers e (hw.coherent.mem_edges.2 he) a b ha hb i (by omega) (by omega) hid
    · cases hfault
  · exact hplace (placeable_rat hg hp)

theorem exists_draw (hw : w.Sound known) (hacyclic : w.graph.Acyclic) (hnames : NamesFree w)
    (c : Config Rat) : ∃ s v, (draw c).perform w = (.ok s, v) ∧ s.stage = .reconstructed := by
  have htol : 0 ≤ c.tolerance := not_lt.1 c.tolerance_nonneg
  have hleads : (draw c).Leads w (fun s _ => s.stage = .reconstructed) fun _ _ => False := by
    rw [draw_eq]
    refine Action.leads_bind ((leads_prepare hw).mono (fun t u ht => ?_)
      fun _ _ => not_obstructed hw hacyclic hnames)
    obtain ⟨layers, ht⟩ := ht
    refine (Action.leads_restoreEdges ht.stage ht.toSubdivided).mono (fun s v hs => ?_)
      fun _ _ hunclean => ?_
    · rw [hs.1]
      rfl
    · obtain ⟨_, _, v₁, _, e, _, hunclean⟩ := hunclean
      exact not_uncleanAt htol v₁ e hunclean
  exact hleads.exists_ok

end

/-- an acyclic graph without names that get in the way is drawn -/
theorem draw_of_acyclic {w : Workspace Rat} {past : List Edge} (h : Reached w past)
    (hacyclic : w.graph.Acyclic) (hnames : NamesFree w) (c : Config Rat) :
    ∃ s v, (draw c).perform w = (.ok s, v) ∧ s.stage = .reconstructed :=
  exists_draw h.sound hacyclic hnames c

/-! ## a triangle -/

/-- three nodes, a path through them, and an edge from the first to the last -/
def triangle : Workspace Rat :=
  let changes : List (Change Rat) :=
    [.addNode (.int 1) (.unplaced "" none), .addNode (.int 2) (.unplaced "" none),
      .addNode (.int 3) (.unplaced "" none), .addEdge (.int 1) (.int 2) false,
      .addEdge (.int 2) (.int 3) false, .addEdge (.int 1) (.int 3) false]
  changes.foldl (fun w c => c.after w) ⟨.empty, .empty⟩

theorem reached_triangle : ∃ past, Reached triangle past :=
  ⟨_, (((((((Reached.start .empty).change (.addNode _ _) trivial).change (.addNode _ _) trivial).change
    (.addNode _ _) trivial).change (.addEdge _ _ _) trivial).change (.addEdge _ _ _) trivial).change
    (.addEdge _ _ _) trivial)⟩

theorem acyclic_triangle : triangle.graph.Acyclic := by
  refine Graph.acyclic_of_rank (fun id => triangle.graph.nodeIds.idxOf id) fun e he => ?_
  have harcs : triangle.graph.arcs = [⟨0, 0, .int 1, .int 2, false⟩, ⟨1, 1, .int 2, .int 3, false⟩,
      ⟨2, 2, .int 1, .int 3, false⟩] := rfl
  rw [harcs] at he
  simp only [List.mem_cons, List.not_mem_nil, or_false] at he
  rcases he with rfl | rfl | rfl <;> decide

theorem namesFree_triangle : NamesFree triangle := by
  have hids : triangle.graph.nodeIds = [.int 1, .int 2, .int 3] := rfl
  intro layers _ e _ a b _ _ i _ _
  rw [hids]
  simp

/-- two units between nodes, three between layers -/
def wideConfig : Config Rat where
  seed := none
  heuristic := .median
  crossingPasses := 4
  coordinatePasses := 2
  nodeSpacing := 2
  layerSpacing := 3
  cleanBends := false
  tolerance := 0
  nodeSpacing_pos := by decide
  layerSpacing_pos := by decide
  tolerance_nonneg := by decide

theorem exists_draw_triangle : ∃ s v, (draw wideConfig).perform triangle = (.ok s, v) := by
  obtain ⟨past, hreached⟩ := reached_triangle
  obtain ⟨s, v, hdraw, _⟩ :=
    exists_draw hreached.sound acyclic_triangle namesFree_triangle wideConfig
  exact ⟨s, v, hdraw⟩

theorem draw_triangle : (∃ past, Reached triangle past) ∧ triangle.graph.Acyclic ∧
    NamesFree triangle ∧
      ∃ s v, (draw wideConfig).perform triangle = (.ok s, v) ∧ s.stage = .reconstructed := by
  obtain ⟨past, hreached⟩ := reached_triangle
  exact ⟨⟨past, hreached⟩, acyclic_triangle, namesFree_triangle,
    draw_of_acyclic hreached acyclic_triangle namesFree_triangle wideConfig⟩

end LayeredDrawing
