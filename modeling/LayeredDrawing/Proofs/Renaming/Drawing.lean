import LayeredDrawing.Proofs.Renaming.Reconstruction
import LayeredDrawing.Proofs.Workspace.EndAlike

/-!
# Drawings under a renaming

Two graphs that differ in names, drawn with configurations that differ in scale, are drawn alike, or
neither is drawn.  The phases are followed in pairs: each leaves behind what the next one needs to go on
alike.  Nothing that the first graph knew of layers, positions and bends before matters, and neither do
the keys of the edges in the chains.

* `ExpandedAlike`          the graphs while chains stand in for long edges;
* `Renamed.putInLayers`, `Renamed.subdivide`, `Renamed.reorder`, `Renamed.place`,
  `Renamed.restoreEdges`   the phases;
* `Renamed.draw`           the whole drawing, which `Corresponds`.
-/

namespace LayeredDrawing

/-! ## the first four phases -/

section
variable {α : Type} [Scalar α] {r : Renaming} {c c' : Config α} {across along : α → α}
  {w w' v v' : Workspace α} {table table' : OrderedMap NodeId Int} {s s' : Snapshot}
  {known known' : List Edge}

/-- the chains stand in for long edges in both graphs, and the arrangements correspond -/
structure ExpandedAlike (r : Renaming) (c c' : Config α) (w w' : Workspace α)
    (table table' : OrderedMap NodeId Int) (stage : Stage) (s : Snapshot) (v : Workspace α)
    (s' : Snapshot) (v' : Workspace α) : Prop where
  left : Expanded c w table s v
  right : Expanded c' w' table' s' v'
  stage_left : s.stage = stage
  stage_right : s'.stage = stage
  arrangement : s'.arrangement = r.arrangement s.arrangement

theorem Renamed.putInLayers (hr : Renamed r table w w') (hw : w.graph.Coherent)
    (hw' : w'.graph.Coherent) (hacyclic : w.graph.Acyclic) (htable : w.graph.layering = .ok table) :
    EndAlike (fun s v s' v' => Layered c w s v ∧ Layered c' w' s' v' ∧ s.layers = table ∧
        s'.layers.get? = (r.table table).get? ∧ s'.arrangement = r.arrangement s.arrangement)
      ((Action.putInLayers c .initial).perform w) ((Action.putInLayers c' .initial).perform w') := by
  have hacyclic' : w'.graph.Acyclic := hr.acyclic hw hw' htable hacyclic
  refine (Action.leads_putInLayers c hw.joined).endAlike (Action.leads_putInLayers c' hw'.joined)
    (fun s v s' v' h h' => ?_) (fun _ _ _ _ hcyclic => absurd hacyclic hcyclic)
    (fun _ _ _ _ _ hcyclic' => hcyclic' hacyclic') fun _ _ _ _ hcyclic => absurd hacyclic hcyclic
  obtain rfl : s.layers = table := Except.ok.inj (h.layering.symm.trans htable)
  refine ⟨h, h', rfl, hr.layering_eq hw hw' htable hacyclic h'.layering, ?_⟩
  rw [h.arrangement, h'.arrangement, hr.arrange_eq hw hw' htable hacyclic h'.layering]

theorem Renamed.subdivide (hr : Renamed r table w w') (hw : w.Sound known) (hw' : w'.Sound known')
    (hnumber : ∀ fault, Hindered c w table fault → fault = .numberTooLarge)
    (h : Layered c w s v) (h' : Layered c' w' s' v') (hlayers : s.layers = table)
    (htable : s'.layers.get? = (r.table table).get?)
    (hlists : s'.arrangement = r.arrangement s.arrangement) :
    EndAlike (ExpandedAlike r c c' w w' table s'.layers .expanded)
      ((Action.subdivide c s).perform v) ((Action.subdivide c' s').perform v') := by
  have hhindered (fault : Fault) :
      Hindered c' w' s'.layers fault ↔ Hindered c w table fault :=
    hr.hindered_iff htable hw.coherent hw'.coherent fault
  have hfirst := Action.leads_subdivide hw h
  rw [hlayers] at hfirst
  refine hfirst.endAlike (Action.leads_subdivide hw' h') (fun t u t' u' ht ht' => ?_)
    (fun fault _ fault' _ hE hE' => ?_) (fun _ _ fault' _ ht hE' => ?_) fun fault _ _ _ hE ht' => ?_
  · obtain ⟨hstage, hexp, hlisted⟩ := ht
    obtain ⟨hstage', hexp', hlisted'⟩ := ht'
    refine ⟨hexp, hexp', hstage, hstage', ?_⟩
    rw [hlists, (carried_listChains (fun a => Renaming.get?_of_table htable a)
      (hr.chains_eq htable hexp hexp') _).of_ok hlisted] at hlisted'
    exact (Except.ok.inj hlisted').symm
  · rw [hnumber fault hE, hnumber fault' ((hhindered fault').1 hE')]
  · exact ht.2.1.not_hindered fault' ((hhindered fault').1 hE')
  · exact ht'.2.1.not_hindered fault ((hhindered fault).2 hE)

variable (hr : Renamed r table w w') (htable : table'.get? = (r.table table).get?)
  (hc : Resizing c c' across along)
include hr htable hc

theorem Renamed.reorder (h : ExpandedAlike r c c' w w' table table' .expanded s v s' v') :
    EndAlike (ExpandedAlike r c c' w w' table table' .ordered)
      ((Action.reorder c s).perform v) ((Action.reorder c' s').perform v') := by
  refine (Action.leads_reorder h.stage_left h.left).endAlike
    (Action.leads_reorder h.stage_right h.right) (fun t u t' u' ht ht' => ?_)
    (fun _ _ _ _ hE => hE.elim) (fun _ _ _ _ _ hE => hE) fun _ _ _ _ hE => hE.elim
  obtain ⟨_, ⟨lists, hbest, rfl⟩, hexp⟩ := ht
  obtain ⟨_, ⟨lists', hbest', rfl⟩, hexp'⟩ := ht'
  refine ⟨hexp, hexp', rfl, rfl, ?_⟩
  have hcarried := (hr.mirrors htable h.left h.right).bestArrangement hc.seed hc.heuristic
    hc.crossingPasses s.arrangement
  rw [h.arrangement, hcarried.of_ok hbest] at hbest'
  exact (Except.ok.inj hbest').symm

theorem Renamed.place (h : ExpandedAlike r c c' w w' table table' .ordered s v s' v') :
    EndAlike (fun t u t' u' => ExpandedAlike r c c' w w' table table' .positioned t u t' u' ∧
        ∀ a, (u'.graph.nodes.get? (r.node a)).map Node.spot
          = (u.graph.nodes.get? a).map fun n => (n.layer, n.position.scale across along))
      ((Action.place c s).perform v) ((Action.place c' s').perform v') := by
  have hcarried : Carried (r.heights along) (checkedHeights v.graph c s.arrangement)
      (checkedHeights v'.graph c' s'.arrangement) := by
    rw [h.arrangement]
    exact (hc.scaling.heights hc.coordinatePasses (hr.mirrors htable h.left h.right) _).bind
      fun hs _ => (hc.scaling.requireOrdered hs _).bind fun _ _ => carried_ok rfl
  refine (Action.leads_place h.stage_left h.left).endAlike (Action.leads_place h.stage_right h.right)
    (fun t u t' u' ht ht' => ?_) (fun fault _ fault' _ hE hE' => ?_) (fun t u fault' _ ht hE' => ?_)
    fun fault _ t' u' hE ht' => ?_
  · obtain ⟨rfl, hexp, hpositioned⟩ := ht
    obtain ⟨rfl, hexp', hpositioned'⟩ := ht'
    obtain ⟨hs, hok, hordered, hy⟩ := hpositioned.heights
    obtain ⟨hs', hok', hordered', hy'⟩ := hpositioned'.heights
    have hheights : hs' = r.heights along hs := by
      have himage := hcarried.of_ok (checkedHeights_eq_ok_iff.2 ⟨hok, hordered⟩)
      rw [checkedHeights_eq_ok_iff.2 ⟨hok', hordered'⟩] at himage
      exact Except.ok.inj himage
    subst hheights
    exact ⟨⟨hexp, hexp', rfl, rfl, h.arrangement⟩,
      hexp.spot_rename hexp' hc h.arrangement hy hy'⟩
  · obtain ⟨fault'', hfault, hkind⟩ := hcarried.of_error hE
    rw [hE'] at hfault
    obtain rfl := Except.error.inj hfault
    exact hkind
  · obtain ⟨_, _, hpositioned⟩ := ht
    obtain ⟨hs, hok, hordered, _⟩ := hpositioned.heights
    rw [hcarried.of_ok (checkedHeights_eq_ok_iff.2 ⟨hok, hordered⟩)] at hE'
    cases hE'
  · obtain ⟨_, _, hpositioned'⟩ := ht'
    obtain ⟨hs', hok', hordered', _⟩ := hpositioned'.heights
    obtain ⟨fault', hfault, _⟩ := hcarried.of_error hE
    rw [checkedHeights_eq_ok_iff.2 ⟨hok', hordered'⟩] at hfault
    cases hfault

end

/-! ## the last phase -/

section
variable {α : Type} {r : Renaming} {w w' u u' v v' : Workspace α}
  {table table' : OrderedMap NodeId Int} {t t' : Snapshot}

/-- the second drawing is the first one under the new names and on the other scales; edges to the next
layer that had corresponding bends have them still -/
structure Corresponds (r : Renaming) (scale : Point α → Point α) (w w' : Workspace α)
    (s : Snapshot) (v : Workspace α) (s' : Snapshot) (v' : Workspace α) : Prop where
  arrangement : s'.arrangement = r.arrangement s.arrangement
  layers : s'.layers.get? = (r.table s.layers).get?
  spots : SpotsAlike r scale v v'
  long : List.Forall₂ (RoutesAlike r scale v v') (w.graph.longArcs s.layers)
    (w'.graph.longArcs s'.layers)
  short : ∀ e ∈ w.graph.shortArcs s.layers, ∀ e' ∈ w'.graph.shortArcs s'.layers,
    RoutesAlike r id w w' e e' → RoutesAlike r id v v' e e'

theorem Corresponds.layers_refl {scale : Point α → Point α} {s s' : Snapshot}
    (hv : Corresponds .refl scale w w' s v s' v') :
    s'.layers.get? = s.layers.get? :=
  hv.layers.trans (by rw [Renaming.refl_table])

section
variable [Metric α] {c c' : Config α} {across along : α → α}

/-- corresponding graphs with all edges back come out corresponding, whether or not routes are cleaned -/
theorem Renamed.corresponds (hr : Renamed r table w w')
    (htable : table'.get? = (r.table table).get?) (hc : Resizing c c' across along)
    (h : ExpandedAlike r c c' w w' table table' .positioned t u t' u')
    (hspots : SpotsAlike r (Point.scale across along) u u')
    (hrec : Reconstructed c w u t v) (hrec' : Reconstructed c' w' u' t' v') :
    Corresponds r (Point.scale across along) w w' t.withoutChains v t'.withoutChains v' := by
  obtain ⟨v₁, hv₁, hgraph, huncleaned, hcleaned⟩ := hrec.restored
  obtain ⟨v₁', hv₁', hgraph', huncleaned', hcleaned'⟩ := hrec'.restored
  have hspots₁ := hr.spots_restored h.left h.right hv₁ hv₁' htable hspots
  have hlong := hr.routes_restored h.left h.right hv₁ hv₁' htable hspots
  -- cleaning does the same to corresponding routes
  have hroute {f : Point α → Point α} (hf : c.cleanBends = true → f = id) {e e' : Edge}
      (he : e ∈ w.graph.arcs) (he' : e' ∈ w'.graph.arcs) (hback : RoutesAlike r f v₁ v₁' e e') :
      RoutesAlike r f v v' e e' := by
    by_cases hclean : c.cleanBends = true
    · obtain rfl := hf hclean
      rw [(hc.unscaled hclean).2] at hspots₁
      rw [hc.cleanBends, (hc.unscaled hclean).1] at hcleaned'
      exact hback.cleaned hspots₁ (hcleaned hclean e (hv₁.perm_arcs.mem_iff.2 he))
        (hcleaned' hclean e' (hv₁'.perm_arcs.mem_iff.2 he'))
    · rw [Bool.not_eq_true] at hclean
      rw [huncleaned hclean, huncleaned' (hc.cleanBends.trans hclean)]
      exact hback
  refine ⟨?_, ?_, ?_, ?_, fun e he e' he' hshort => ?_⟩
  · simp only [Snapshot.withoutChains, h.arrangement,
      hr.dummyNodes_eq htable h.left h.right, Renaming.arrangement_filter]
  · rw [h.left.layers_withoutChains, h.right.layers_withoutChains]
    exact htable
  · unfold SpotsAlike
    rw [hgraph, hgraph']
    exact hspots₁
  · rw [h.left.layers_withoutChains, h.right.layers_withoutChains]
    refine List.forall₂_iff_zip.2 ⟨hlong.length_eq, fun {e e'} hzip => ?_⟩
    have hmem := List.of_mem_zip hzip
    exact hroute (fun hclean => (hc.unscaled hclean).2)
      (h.left.base.mem_edges.1 (List.mem_filter.1 hmem.1).1)
      (h.right.base.mem_edges.1 (List.mem_filter.1 hmem.2).1) ((List.forall₂_iff_zip.1 hlong).2 hzip)
  · rw [h.left.layers_withoutChains] at he
    rw [h.right.layers_withoutChains] at he'
    exact hroute (fun _ => rfl) (List.mem_filter.1 he).1 (List.mem_filter.1 he').1
      (hshort.restored h.left h.right hv₁ hv₁' he he')

theorem Renamed.restoreEdges (hr : Renamed r table w w')
    (htable : table'.get? = (r.table table).get?) (hc : Resizing c c' across along)
    (h : ExpandedAlike r c c' w w' table table' .positioned t u t' u')
    (hspots : SpotsAlike r (Point.scale across along) u u')
    (hshort : c.cleanBends = true → ShortAlike r table w w') :
    EndAlike (Corresponds r (Point.scale across along) w w')
      ((Action.restoreEdges c t).perform u) ((Action.restoreEdges c' t').perform u') := by
  refine (Action.leads_restoreEdges h.stage_left h.left.toSubdivided).endAlike
    (Action.leads_restoreEdges h.stage_right h.right.toSubdivided) (fun s v s' v' hv hv' => ?_)
    (fun fault _ fault' _ hE hE' => ?_) (fun s v fault' _ hv hE' => ?_)
    fun fault _ s' v' hE hv' => ?_
  · obtain ⟨rfl, hrec⟩ := hv
    obtain ⟨rfl, hrec'⟩ := hv'
    exact hr.corresponds htable hc h hspots hrec hrec'
  · rw [hE.1, hE'.1]
  · obtain ⟨_, hclean', v₁', hv₁', e', he', hunclean⟩ := hE'
    obtain ⟨rfl, v₁, hv₁, _, _, hcleaned⟩ := hv
    rw [hc.cleanBends] at hclean'
    rw [(hc.unscaled hclean').2] at hspots
    rw [(hc.unscaled hclean').1] at hunclean
    obtain ⟨e, he, hroute⟩ := hr.exists_route_base h.left h.right hv₁ hv₁' htable hspots
      (hshort hclean') he'
    exact (hcleaned hclean' e he).not_uncleanAt ((hroute.uncleanAt_iff
      (hr.spots_restored h.left h.right hv₁ hv₁' htable hspots)).1 hunclean)
  · obtain ⟨_, hclean, v₁, hv₁, e, he, hunclean⟩ := hE
    obtain ⟨rfl, v₁', hv₁', _, _, hcleaned⟩ := hv'
    rw [(hc.unscaled hclean).2] at hspots
    rw [hc.cleanBends, (hc.unscaled hclean).1] at hcleaned
    obtain ⟨e', he', hroute⟩ := hr.exists_route h.left h.right hv₁ hv₁' htable hspots
      (hshort hclean) he
    exact (hcleaned hclean e' he').not_uncleanAt ((hroute.uncleanAt_iff
      (hr.spots_restored h.left h.right hv₁ hv₁' htable hspots)).2 hunclean)

/-- two renamed graphs are drawn alike, or neither is drawn -/
theorem Renamed.draw {known known' : List Edge} (hr : Renamed r table w w') (hw : w.Sound known)
    (hw' : w'.Sound known') (hc : Resizing c c' across along) (hacyclic : w.graph.Acyclic)
    (hlayering : w.graph.layering = .ok table)
    (hnumber : ∀ fault, Hindered c w table fault → fault = .numberTooLarge)
    (hshort : c.cleanBends = true → ShortAlike r table w w') :
    EndAlike (Corresponds r (Point.scale across along) w w')
      ((LayeredDrawing.draw c).perform w) ((LayeredDrawing.draw c').perform w') := by
  rw [draw_eq, draw_eq]
  refine EndAlike.bind (R := fun t u t' u' => ∃ table', table'.get? = (r.table table).get? ∧
    ExpandedAlike r c c' w w' table table' .positioned t u t' u' ∧
      SpotsAlike r (Point.scale across along) u u') ?_ ?_
  · simp only [Phase.preparation, runPhases_cons]
    refine (hr.putInLayers hw.coherent hw'.coherent hacyclic hlayering).bind
      fun s₁ v₁ s₁' v₁' h₁ => ?_
    obtain ⟨hlayered, hlayered', hlayers, htable, hlists⟩ := h₁
    refine (hr.subdivide hw hw' hnumber hlayered hlayered' hlayers htable hlists).bind
      fun s₂ v₂ s₂' v₂' h₂ => ?_
    refine (hr.reorder htable hc h₂).bind fun s₃ v₃ s₃' v₃' h₃ => ?_
    exact (hr.place htable hc h₃).bind fun t u t' u' h₄ => ⟨s₁'.layers, htable, h₄⟩
  · intro t u t' u' hx
    obtain ⟨table', htable, h, hspots⟩ := hx
    exact hr.restoreEdges htable hc h hspots hshort

/-- if the first graph can be drawn, nothing has stood in the way, so the second one can be drawn too -/
theorem Renamed.exists_draw {known known' : List Edge} {s : Snapshot} (hr : Renamed r s.layers w w')
    (hw : w.Sound known) (hw' : w'.Sound known') (hc : Resizing c c' across along)
    (hshort : c.cleanBends = true → ShortAlike r s.layers w w')
    (h : (LayeredDrawing.draw c).perform w = (.ok s, v)) :
    ∃ s' v', (LayeredDrawing.draw c').perform w' = (.ok s', v') ∧
      Corresponds r (Point.scale across along) w w' s v s' v' := by
  obtain ⟨table, t, u, _, hprepared, hs, _⟩ := draw_spec hw h
  have hlayers : s.layers = table := hs ▸ hprepared.layers_withoutChains
  rw [hlayers] at hr hshort
  exact (hr.draw hw hw' hc (hprepared.acyclic hw.coherent) hprepared.layering
    (fun fault hx => absurd hx (hprepared.toExpanded.not_hindered fault)) hshort).exists_ok h

end

end

end LayeredDrawing
