import LayeredDrawing.Proofs.Drawing.Success
import LayeredDrawing.Proofs.Graph.LongestPath
import LayeredDrawing.Proofs.Phase.Shifting
import LayeredDrawing.Proofs.Phase.Subdivision

/-!
# Expansion of acyclic graphs

Whatever public operations lead to an acyclic graph, layering and expansion subdivide its long edges
and do nothing else, unless a node has the name of a dummy node that is needed
(`subdivide_exact`).  The numbers of the layers stay below the number of nodes, so they are too large
for the scalars only if there are more nodes than any scalar can count.  Over the rationals this never
happens.
-/

namespace LayeredDrawing

variable {α : Type} [Metric α] {w : Workspace α}

/-- nothing hinders an expansion after layering -/
theorem not_hindered_of_layering {known : List Edge} (hw : w.Sound known) (hacyclic : w.graph.Acyclic)
    (hnames : NamesFree w)
    (hsize : ∀ limit, Scalar.limit? α = some limit → w.graph.nodes.size ≤ limit)
    {layers : OrderedMap NodeId Int} (hlayers : w.graph.layering = .ok layers) (c : Config α)
    (fault : Fault) : ¬ Hindered c w layers fault := by
  rintro ⟨e, he, a, b, ha, hb, i, h1, hlt, hid | hfault⟩
  · exact hnames layers hlayers e (hw.coherent.mem_edges.2 he) a b ha hb i (by omega) (by omega) hid
  · obtain ⟨_, hlongest⟩ := Graph.layering_ok hlayers
    have hnonneg := hlongest.nonneg _ _ ha
    have htop : b < w.graph.nodes.size := by
      have hperm := (longestPaths_of_layering hw.coherent.joined hacyclic hlayers).perm_keys
      have hlt := hlongest.lt_size hb
      rwa [← OrderedMap.length_keys, hperm.length_eq, Graph.nodeIds, OrderedMap.length_keys] at hlt
    have hroom : ¬ (Scalar.limit? α).any fun limit => limit ≤ (a + (i : Int)).natAbs := by
      cases hlimit : Scalar.limit? α with
      | none => exact Bool.false_ne_true
      | some limit =>
        have hle := hsize limit hlimit
        rw [Option.any_some, decide_eq_true_iff]
        omega
    unfold layerPosition? Scalar.ofInt? at hfault
    rw [if_neg hroom] at hfault
    cases hfault

/-- layering and expansion of an acyclic graph, each with a configuration of its own -/
theorem subdivide_exact {past : List Edge} (hw : Reached w past) (hacyclic : w.graph.Acyclic)
    (hnames : NamesFree w)
    (hsize : ∀ limit, Scalar.limit? α = some limit → w.graph.nodes.size ≤ limit) (c₀ c : Config α) :
    ∃ s v t u, (Action.putInLayers c₀ .initial).perform w = (.ok s, v) ∧
      (Action.subdivide c s).perform v = (.ok t, u) ∧ t.stage = .expanded ∧ Subdivision w s t u := by
  have hjoined := hw.sound.coherent.joined
  have hlayering (c : Config α) : ∃ s v, (Action.putInLayers c .initial).perform w = (.ok s, v) ∧
      Layered c w s v :=
    ((Action.leads_putInLayers c hjoined).mono (fun _ _ h => h) fun _ _ h => h hacyclic).exists_ok
  obtain ⟨s, v, hrun, hlayered⟩ := hlayering c₀
  obtain ⟨s', v', _, hlayered'⟩ := hlayering c
  obtain rfl := hlayered.snapshot_eq hlayered'
  have hsubdivide := (Action.leads_subdivide hw.sound hlayered').mono (fun _ _ h => h)
    fun fault _ h => not_hindered_of_layering hw.sound hacyclic hnames hsize hlayered'.layering c fault h
  obtain ⟨_, u', hrun', hstage, hexpanded, hlisted⟩ := hsubdivide.exists_ok
  have halike := Action.endAlike_subdivide (hlayered'.shifted hlayered) c s
  obtain ⟨t, u, hrun₂, rfl, hshifted⟩ := halike.exists_ok hrun'
  exact ⟨s, v, t, u, hrun, hrun₂, hstage,
    (hexpanded.subdivision hw.sound hlayered' hlisted).shifted hshifted⟩

theorem subdivide_triangle : (∃ past, Reached triangle past) ∧ triangle.graph.Acyclic ∧
    NamesFree triangle ∧
    (∀ limit, Scalar.limit? Rat = some limit → triangle.graph.nodes.size ≤ limit) ∧
    ∃ s v t u, (Action.putInLayers wideConfig .initial).perform triangle = (.ok s, v) ∧
      (Action.subdivide wideConfig s).perform v = (.ok t, u) ∧ t.stage = .expanded ∧
      Subdivision triangle s t u := by
  obtain ⟨past, hreached⟩ := reached_triangle
  have hsize : ∀ limit, Scalar.limit? Rat = some limit → triangle.graph.nodes.size ≤ limit :=
    fun _ hlimit => nomatch hlimit
  exact ⟨⟨past, hreached⟩, acyclic_triangle, namesFree_triangle, hsize,
    subdivide_exact hreached acyclic_triangle namesFree_triangle hsize wideConfig wideConfig⟩

end LayeredDrawing
