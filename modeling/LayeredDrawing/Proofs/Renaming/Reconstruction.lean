import LayeredDrawing.Proofs.Drawing.Conservation
import LayeredDrawing.Proofs.Renaming.Expansion

/-!
# Restored edges under a renaming

The long edges come back with bends where their dummy nodes stood, and corresponding edges have
corresponding dummy nodes.  Edges to the next layer have kept their own bends, so these are only alike if
they were before.  Cleaning looks at nothing but the bends of an edge and the places of its ends.

* `SpotsAlike`, `RoutesAlike`     nodes that stand alike, and edges that run alike;
* `Renamed.routes_restored`       the long edges with their bends;
* `Renamed.exists_route`          every edge has one that runs like it;
* `RoutesAlike.cleaned`           cleaning does the same to both.
-/

namespace LayeredDrawing

section
variable {α : Type} {r : Renaming} {scale : Point α → Point α} {w w' u u' v v' v₁ v₁' : Workspace α}
  {table table' : OrderedMap NodeId Int} {t t' : Snapshot}

/-- nodes stand in the same layers, at positions that the scales take to each other -/
def SpotsAlike (r : Renaming) (scale : Point α → Point α) (v v' : Workspace α) : Prop :=
  ∀ a, (v'.graph.nodes.get? (r.node a)).map Node.spot
    = (v.graph.nodes.get? a).map fun n => (n.layer, scale n.position)

/-- the edges correspond, and so do their bends -/
structure RoutesAlike (r : Renaming) (scale : Point α → Point α) (v v' : Workspace α) (e e' : Edge) :
    Prop extends r.Matches e e' where
  bends : v'.bends.get e'.slot = (v.bends.get e.slot).map scale

theorem SpotsAlike.position? (h : SpotsAlike r scale v v') (a : NodeId) :
    v'.graph.position? (r.node a) = (v.graph.position? a).map scale := by
  have hspot := congrArg (Option.map Prod.snd) (h a)
  rw [Option.map_map, Option.map_map] at hspot
  rw [Graph.position?, Graph.position?, Option.map_map]
  exact hspot

/-- with the names unchanged, nodes that stand alike differ in nothing but their positions -/
theorem SpotsAlike.nodes_get? (h : SpotsAlike .refl scale v v')
    (houtline : v'.graph.outline = v.graph.outline) (a : NodeId) :
    v'.graph.nodes.get? a = (v.graph.nodes.get? a).map fun n =>
      { n with x := (scale n.position).x, y := (scale n.position).y } := by
  have hspot := h a
  have hsame : (v'.graph.nodes.get? a).map Node.outline = (v.graph.nodes.get? a).map Node.outline := by
    rw [Graph.outline, Graph.outline] at houtline
    have hget := congrArg (fun m => OrderedMap.get? m a) houtline
    rwa [OrderedMap.get?_mapValues, OrderedMap.get?_mapValues] at hget
  change (v'.graph.nodes.get? a).map Node.spot = _ at hspot
  cases hn : v.graph.nodes.get? a with
  | none =>
    rw [hn] at hspot
    exact Option.map_eq_none_iff.1 hspot
  | some n =>
    rw [hn] at hspot hsame
    obtain ⟨n', hn', hplace⟩ := Option.map_eq_some_iff.1 hspot
    rw [hn'] at hsame
    obtain ⟨hlabel, hsize, hdummy⟩ : n'.label = n.label ∧ n'.size = n.size ∧ n'.isDummy = n.isDummy := by
      simpa [Node.outline] using hsame
    obtain ⟨hlayer, hposition⟩ := Prod.mk.inj hplace
    rw [hn', Option.map_some, ← hlabel, ← hsize, ← hlayer, ← hdummy, ← hposition]
    rfl

theorem Restored.nodes_get? [Scalar α] {c : Config α} (hv : Restored w u t v)
    (h : Expanded c w table t u) (id : NodeId) :
    v.graph.nodes.get? id = if id ∈ t.dummyNodes then none else u.graph.nodes.get? id := by
  obtain ⟨known, hexp⟩ := h.expanding
  by_cases hid : id ∈ t.dummyNodes
  · rw [if_pos hid, OrderedMap.get?_eq_none_iff]
    show id ∉ v.graph.nodeIds
    rw [Graph.nodeIds_congr hv.outline]
    exact hexp.replaced.not_mem_base hid
  · rw [if_neg hid, hv.node id hid]

/-- every edge to the next layer has a partner with the same bends -/
structure ShortAlike (r : Renaming) (table : OrderedMap NodeId Int) (w w' : Workspace α) : Prop where
  right : ∀ e ∈ w.graph.shortArcs table, ∃ e' ∈ w'.graph.shortArcs (r.table table),
    RoutesAlike r id w w' e e'
  left : ∀ e' ∈ w'.graph.shortArcs (r.table table), ∃ e ∈ w.graph.shortArcs table,
    RoutesAlike r id w w' e e'

section
variable [Scalar α] {c c' : Config α} (h : Expanded c w table t u)
  (h' : Expanded c' w' table' t' u') (hv : Restored w u t v) (hv' : Restored w' u' t' v')
include h h' hv hv'

/-- the edges to the next layer keep the bends that they have -/
theorem RoutesAlike.restored {e e' : Edge} (hroute : RoutesAlike r id w w' e e')
    (he : e ∈ w.graph.shortArcs table) (he' : e' ∈ w'.graph.shortArcs table') :
    RoutesAlike r id v v' e e' :=
  ⟨hroute.toMatches, by rw [hv'.bends_of_short h' he', hv.bends_of_short h he, hroute.bends]⟩

variable (hr : Renamed r table w w') (htable : table'.get? = (r.table table).get?)
  (hspots : SpotsAlike r scale u u')
include hr htable hspots

theorem Renamed.spots_restored : SpotsAlike r scale v v' := by
  intro a
  simp only [hv.nodes_get? h, hv'.nodes_get? h', hr.dummyNodes_eq htable h h',
    List.mem_map_of_injective r.injective]
  split
  · rfl
  · exact hspots a

/-- the routes of the long edges run through the places of corresponding dummy nodes -/
theorem Renamed.routes_restored :
    List.Forall₂ (RoutesAlike r scale v v') (w.graph.longArcs table) (w'.graph.longArcs table') := by
  have hmatches := (List.forall₂_iff_zip.1 (hr.long_matches htable))
  refine List.forall₂_iff_zip.2 ⟨hmatches.1, fun {e e'} hzip => ?_⟩
  have hmatch := hmatches.2 hzip
  refine ⟨hmatch, List.map_injective_iff.2 (Option.some_injective _) ?_⟩
  rw [hv'.bends_of_long h' (List.of_mem_zip hzip).2, Edge.detour_congr htable, hmatch.detour,
    List.map_map, List.map_map]
  have hroute := congrArg (List.map (Option.map scale)) (hv.bends_of_long h (List.of_mem_zip hzip).1)
  rw [List.map_map, List.map_map] at hroute
  exact (List.map_congr_left fun a _ => hspots.position? a).trans hroute.symm

end

section
variable [Scalar α] {c c' : Config α} (h : Expanded c w table t u)
  (h' : Expanded c' w' table' t' u') (hv : Restored w u t v) (hv' : Restored w' u' t' v')
  (hr : Renamed r table w w') (htable : table'.get? = (r.table table).get?)
  (hspots : SpotsAlike r id u u') (hshort : ShortAlike r table w w')
include h h' hv hv' hr htable hspots hshort

theorem Renamed.exists_route {e : Edge} (he : e ∈ v.graph.arcs) :
    ∃ e' ∈ v'.graph.arcs, RoutesAlike r id v v' e e' := by
  rcases (h.base.mem_arcs_iff table).1 (hv.perm_arcs.mem_iff.1 he) with he | he
  · obtain ⟨e', he', hroute⟩ := hshort.right e he
    rw [← Graph.shortArcs_congr htable] at he'
    exact ⟨e', hv'.perm_arcs.mem_iff.2 (List.mem_filter.1 he').1, hroute.restored h h' hv hv' he he'⟩
  · obtain ⟨e', he', hroute⟩ :=
      exists_right_of_forall₂ (hr.routes_restored h h' hv hv' htable hspots) he
    exact ⟨e', hv'.perm_arcs.mem_iff.2 (h'.base.mem_edges.1 (List.mem_filter.1 he').1), hroute⟩

theorem Renamed.exists_route_base {e' : Edge} (he' : e' ∈ v'.graph.arcs) :
    ∃ e ∈ v.graph.arcs, RoutesAlike r id v v' e e' := by
  rcases (h'.base.mem_arcs_iff table').1 (hv'.perm_arcs.mem_iff.1 he') with he' | he'
  · rw [Graph.shortArcs_congr htable] at he'
    obtain ⟨e, he, hroute⟩ := hshort.left e' he'
    rw [← Graph.shortArcs_congr htable] at he'
    exact ⟨e, hv.perm_arcs.mem_iff.2 (List.mem_filter.1 he).1, hroute.restored h h' hv hv' he he'⟩
  · obtain ⟨e, he, hroute⟩ :=
      exists_left_of_forall₂ (hr.routes_restored h h' hv hv' htable hspots) he'
    exact ⟨e, hv.perm_arcs.mem_iff.2 (h.base.mem_edges.1 (List.mem_filter.1 he).1), hroute⟩

end

section
variable [Metric α] {tol : α} {e e' : Edge}

variable (hroute : RoutesAlike r id v₁ v₁' e e') (hspots : SpotsAlike r id v₁ v₁')
include hroute hspots

theorem RoutesAlike.uncleanAt_iff : UncleanAt tol v₁' e' ↔ UncleanAt tol v₁ e := by
  unfold UncleanAt
  rw [hroute.source, hroute.target, hspots.position?, hspots.position?, hroute.bends]
  simp only [Option.map_id, List.map_id, id]

theorem RoutesAlike.cleaned (hclean : CleanedAt tol v₁ v e) (hclean' : CleanedAt tol v₁' v' e') :
    RoutesAlike r id v v' e e' := by
  obtain ⟨p, q, hp, hq, hok⟩ := hclean
  obtain ⟨p', q', hp', hq', hok'⟩ := hclean'
  rw [hroute.source, hspots.position?, hp] at hp'
  rw [hroute.target, hspots.position?, hq] at hq'
  rw [hroute.bends, List.map_id, ← Option.some.inj hp', ← Option.some.inj hq'] at hok'
  exact ⟨hroute.toMatches, by rw [List.map_id]; exact (Except.ok.inj (hok.symm.trans hok')).symm⟩

end

end

end LayeredDrawing
