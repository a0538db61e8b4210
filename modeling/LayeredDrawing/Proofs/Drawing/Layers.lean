import LayeredDrawing.Proofs.Drawing.Success
import LayeredDrawing.Proofs.Graph.Generations
import LayeredDrawing.Proofs.Graph.LongestPath
import LayeredDrawing.Proofs.Workspace.Built

/-!
# The layers of a graph

Layering gives the nodes of an acyclic graph the lengths of the longest paths to them, generation by
generation, and lists them by these numbers (`putInLayers_longest`).
-/

namespace LayeredDrawing

variable {α : Type} [Metric α] {w : Workspace α}

theorem putInLayers_longest (hw : Built w) (hacyclic : w.graph.Acyclic) (c : Config α) :
    ∃ s v rank, (Action.putInLayers c .initial).perform w = (.ok s, v) ∧
      w.graph.layering = .ok s.layers ∧ s.layers.keys = w.graph.generations.flatten ∧
      LongestPaths w.graph s.layers rank ∧ ListedByRank w.graph rank s.arrangement := by
  have hleads := Action.leads_putInLayers c hw.joined
  rcases hrun : (Action.putInLayers c .initial).perform w with ⟨fault | s, v⟩
  · exact absurd hacyclic (hleads.of_error hrun)
  · have hlayered := hleads.of_ok hrun
    obtain ⟨hkeys, hlongest⟩ := Graph.layering_ok hlayered.layering
    have hpaths := longestPaths_of_layering hw.joined hacyclic hlayered.layering
    refine ⟨s, v, rankOf s.layers, rfl, hlayered.layering, ?_, hpaths, ?_⟩
    · rw [hkeys, Graph.topologicalOrder_eq_generations hw.joined]
    · rw [hlayered.arrangement]
      exact listedByRank_arrange hw.joined hlongest hpaths

theorem putInLayers_triangle : Built triangle ∧ triangle.graph.Acyclic ∧
    ∃ s v rank, (Action.putInLayers wideConfig .initial).perform triangle = (.ok s, v) ∧
      s.layers.keys = triangle.graph.generations.flatten ∧
      LongestPaths triangle.graph s.layers rank ∧ ListedByRank triangle.graph rank s.arrangement := by
  obtain ⟨past, hreached⟩ := reached_triangle
  obtain ⟨s, v, rank, hrun, _, hrest⟩ :=
    putInLayers_longest hreached.built acyclic_triangle wideConfig
  exact ⟨hreached.built, acyclic_triangle, s, v, rank, hrun, hrest⟩

end LayeredDrawing
