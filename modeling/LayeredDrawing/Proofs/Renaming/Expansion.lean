import LayeredDrawing.Proofs.Phase.Expanded
import LayeredDrawing.Proofs.Phase.Placement
import LayeredDrawing.Proofs.Renaming.Placement

/-!
# Layering and expansion under a renaming

`Renamed r table w w'` compares two graphs that differ in names.  `table` has the layers of the first
one.  The long edges correspond in the order in which they are hidden; of the short edges, only those
at one node need to come in the same order, and only their ends matter.

* `Renamed.layering_eq`  the nodes get the same layers;
* `Renamed.hindered_iff` the same stands in the way of expansion;
* `Renamed.mirrors`      the graphs with their chains mirror each other;
* `Expanded.spot_rename` the nodes correspond in position, if they do in height.
-/

namespace LayeredDrawing

section
variable {r : Renaming} {table : OrderedMap NodeId Int}

/-- a table of the renamed nodes knows no others -/
theorem Renaming.exists_of_mem_table {a' : NodeId} (h : a' ∈ (r.table table).keys) :
    ∃ a ∈ table.keys, r.node a = a' := by
  rw [OrderedMap.keys_image] at h
  exact List.mem_map.1 h

theorem Renaming.nextLayer_iff {a b : NodeId} :
    NextLayer (r.table table) (r.node a) (r.node b) ↔ NextLayer table a b := by
  unfold NextLayer
  rw [get?_table, get?_table]

theorem dummies_rename (key : Int) (count : Nat) :
    dummies (r.key key) count = (dummies key count).map r.node := by
  rw [dummies, dummies, List.map_map]
  exact List.map_congr_left fun i _ => (r.node_dummy key _).symm

theorem Renaming.Matches.detour {e e' : Edge} (h : r.Matches e e') :
    e'.detour (r.table table) = (e.detour table).map r.node := by
  rw [Edge.detour, Edge.detour, h.source, h.target, get?_table, get?_table, h.key]
  cases table.get? e.source with
  | none => rfl
  | some a =>
    cases table.get? e.target with
    | none => rfl
    | some b => exact dummies_rename _ _

theorem Renaming.Matches.detourEnds {e e' : Edge} (h : r.Matches e e') :
    e'.detourEnds (r.table table) = (e.detourEnds table).map (Prod.map r.node r.node) := by
  rw [Edge.detourEnds, Edge.detourEnds, h.detour, h.source, h.target, ← List.zip_map, List.map_cons,
    List.map_append, List.map_singleton]

theorem linked_rename (ends : List (NodeId × NodeId)) (side : Side) (a : NodeId) :
    linked (ends.map (Prod.map r.node r.node)) side (r.node a) = (linked ends side a).map r.node := by
  cases side <;>
  · simp only [linked, List.filter_map, List.map_map]
    congr 1
    exact List.filter_congr fun p _ => by simp [r.injective.eq_iff]

/-- the layers of the renamed nodes are the same -/
theorem Longest.rename {arcs arcs' : List Edge} (h : Longest arcs table)
    (hto : ∀ e ∈ arcs, ∃ e' ∈ arcs', e'.source = r.node e.source ∧ e'.target = r.node e.target)
    (hfrom : ∀ e' ∈ arcs', ∃ e ∈ arcs, e'.source = r.node e.source ∧ e'.target = r.node e.target) :
    Longest arcs' (r.table table) := by
  have hbase {a' : NodeId} {layer : Int} (ha : (r.table table).get? a' = some layer) :
      ∃ a, r.node a = a' ∧ table.get? a = some layer := by
    obtain ⟨a, _, rfl⟩ := Renaming.exists_of_mem_table (OrderedMap.mem_keys_of_get? ha)
    exact ⟨a, rfl, Renaming.get?_table ▸ ha⟩
  refine ⟨⟨fun e' he' ht => ?_, fun e' he' a b ha hb => ?_, fun a' layer ha => ?_⟩,
    fun a' layer ha => ?_⟩
  · obtain ⟨e, he, hsource, htarget⟩ := hfrom e' he'
    rw [htarget, OrderedMap.mem_keys_image] at ht
    rw [hsource, OrderedMap.mem_keys_image]
    exact h.source_mem e he ht
  · obtain ⟨e, he, hsource, htarget⟩ := hfrom e' he'
    rw [hsource, Renaming.get?_table] at ha
    rw [htarget, Renaming.get?_table] at hb
    exact h.lt e he a b ha hb
  · obtain ⟨a, _, hlayer⟩ := hbase ha
    exact h.nonneg a layer hlayer
  · obtain ⟨a, rfl, hlayer⟩ := hbase ha
    refine (h.attained a layer hlayer).imp_right fun hx => ?_
    obtain ⟨e, he, ht, hs⟩ := hx
    obtain ⟨e', he', hsource, htarget⟩ := hto e he
    exact ⟨e', he', by rw [htarget, ht], by rw [hsource, Renaming.get?_table, hs]⟩

theorem arrange_rename (ids : List NodeId) :
    arrange (ids.map r.node) (r.table table) = r.arrangement (arrange ids table) := by
  unfold arrange Renaming.arrangement
  rw [OrderedMap.values_image, List.map_id, List.map_map]
  refine List.map_congr_left fun i _ => ?_
  rw [Function.comp_apply, List.filter_map]
  congr 1
  exact List.filter_congr fun a _ => by rw [Function.comp_apply, Renaming.get?_table]

/-- the lists settle the table, and the renamed lists that of the renamed nodes -/
theorem Filed.get?_rename {layers layers' : OrderedMap NodeId Int} {lists : Arrangement}
    (h : Filed layers lists) (h' : Filed layers' (r.arrangement lists)) (a : NodeId) :
    layers'.get? (r.node a) = layers.get? a := by
  refine Option.ext fun layer => ?_
  rw [h'.mem_iff, h.mem_iff]
  refine exists_congr fun i => and_congr_right fun _ => ?_
  rw [Renaming.arrangement, List.getElem?_map]
  cases lists[i]? with
  | none => simp
  | some l => simp [List.mem_map_of_injective r.injective]

end

variable {α : Type}

/-- the second graph is the first one under other names -/
structure Renamed (r : Renaming) (table : OrderedMap NodeId Int) (w w' : Workspace α) : Prop where
  nodeIds : w'.graph.nodeIds = w.graph.nodeIds.map r.node
  isDummy : ∀ a, (w'.graph.nodes.get? (r.node a)).map Node.isDummy
    = (w.graph.nodes.get? a).map Node.isDummy
  short : ∀ side a, linked ((w'.graph.shortArcs (r.table table)).map Edge.ends) side (r.node a)
    = (linked ((w.graph.shortArcs table).map Edge.ends) side a).map r.node
  long : List.Forall₂ r.Matches (w.graph.longArcs table) (w'.graph.longArcs (r.table table))

section
variable {r : Renaming} {table : OrderedMap NodeId Int} {w w' : Workspace α}
  (hr : Renamed r table w w')
include hr

theorem Renamed.mem_nodeIds_iff {a : NodeId} : r.node a ∈ w'.graph.nodeIds ↔ a ∈ w.graph.nodeIds := by
  rw [hr.nodeIds, List.mem_map_of_injective r.injective]

theorem Renamed.exists_short {e : Edge} (he : e ∈ w.graph.shortArcs table) :
    ∃ e' ∈ w'.graph.shortArcs (r.table table),
      e'.source = r.node e.source ∧ e'.target = r.node e.target := by
  have hlinked : r.node e.target
      ∈ linked ((w'.graph.shortArcs (r.table table)).map Edge.ends) .outgoing (r.node e.source) := by
    rw [hr.short, List.mem_map_of_injective r.injective]
    exact List.mem_map.2 ⟨e.ends, List.mem_filter.2 ⟨List.mem_map_of_mem he, by simp [Edge.ends]⟩, rfl⟩
  obtain ⟨p, hp, ht⟩ := List.mem_map.1 hlinked
  obtain ⟨hp, hs⟩ := List.mem_filter.1 hp
  obtain ⟨e', he', rfl⟩ := List.mem_map.1 hp
  exact ⟨e', he', of_decide_eq_true hs, ht⟩

theorem Renamed.exists_short_base (hw' : w'.graph.Coherent) {e' : Edge}
    (he' : e' ∈ w'.graph.shortArcs (r.table table)) :
    ∃ e ∈ w.graph.shortArcs table, e'.source = r.node e.source ∧ e'.target = r.node e.target := by
  have hsource := hw'.source_mem e' (List.mem_filter.1 he').1
  rw [hr.nodeIds] at hsource
  obtain ⟨a, _, ha⟩ := List.mem_map.1 hsource
  have hlinked : e'.target
      ∈ linked ((w'.graph.shortArcs (r.table table)).map Edge.ends) .outgoing (r.node a) :=
    List.mem_map.2 ⟨e'.ends, List.mem_filter.2 ⟨List.mem_map_of_mem he', decide_eq_true ha.symm⟩, rfl⟩
  rw [hr.short] at hlinked
  obtain ⟨b, hb, ht⟩ := List.mem_map.1 hlinked
  obtain ⟨p, hp, rfl⟩ := List.mem_map.1 hb
  obtain ⟨hp, hs⟩ := List.mem_filter.1 hp
  obtain ⟨e, he, rfl⟩ := List.mem_map.1 hp
  obtain rfl : e.source = a := of_decide_eq_true hs
  exact ⟨e, he, ha.symm, ht.symm⟩

theorem Renamed.exists_arc (hw : w.graph.Coherent) (hw' : w'.graph.Coherent) {e : Edge} (he : e ∈ w.graph.arcs) :
    ∃ e' ∈ w'.graph.arcs, e'.source = r.node e.source ∧ e'.target = r.node e.target := by
  rcases (hw.mem_arcs_iff table).1 he with he | he
  · obtain ⟨e', he', hends⟩ := hr.exists_short he
    exact ⟨e', (List.mem_filter.1 he').1, hends⟩
  · obtain ⟨e', he', hmatch⟩ := exists_right_of_forall₂ hr.long he
    exact ⟨e', hw'.mem_edges.1 (List.mem_filter.1 he').1, hmatch.source, hmatch.target⟩

theorem Renamed.exists_base (hw : w.graph.Coherent) (hw' : w'.graph.Coherent) {e' : Edge} (he' : e' ∈ w'.graph.arcs) :
    ∃ e ∈ w.graph.arcs, e'.source = r.node e.source ∧ e'.target = r.node e.target := by
  rcases (hw'.mem_arcs_iff (r.table table)).1 he' with he' | he'
  · obtain ⟨e, he, hends⟩ := hr.exists_short_base hw' he'
    exact ⟨e, (List.mem_filter.1 he).1, hends⟩
  · obtain ⟨e, he, hmatch⟩ := exists_left_of_forall₂ hr.long he'
    exact ⟨e, hw.mem_edges.1 (List.mem_filter.1 he).1, hmatch.source, hmatch.target⟩

end

/-! ## configurations -/

/-- the point on other scales -/
def Point.scale (across along : α → α) (p : Point α) : Point α := ⟨across p.x, along p.y⟩

/-- where a node is: its layer and its position -/
def Node.spot (n : Node α) : Int × Point α := (n.layer, n.position)

/-- the second configuration differs from the first one in the spacings, as the scales say; routes
are only cleaned if it does not differ at all -/
structure Resizing [Scalar α] (c c' : Config α) (across along : α → α) : Prop where
  seed : c'.seed = c.seed
  heuristic : c'.heuristic = c.heuristic
  crossingPasses : c'.crossingPasses = c.crossingPasses
  coordinatePasses : c'.coordinatePasses = c.coordinatePasses
  cleanBends : c'.cleanBends = c.cleanBends
  layerPosition : ∀ layer, layerPosition c' layer = across (layerPosition c layer)
  scaling : Scaling along c.nodeSpacing c'.nodeSpacing
  unscaled : c.cleanBends = true → c'.tolerance = c.tolerance ∧ Point.scale across along = id

theorem resizing_id [Scalar α] (c : Config α) : Resizing c c id id where
  seed := rfl
  heuristic := rfl
  crossingPasses := rfl
  coordinatePasses := rfl
  cleanBends := rfl
  layerPosition _ := rfl
  scaling := scaling_id _
  unscaled _ := ⟨rfl, rfl⟩

/-- a layer is too high for a coordinate whatever the spacing -/
theorem layerPosition?_eq_error_iff [Scalar α] {c : Config α} {layer : Int} {fault : Fault} :
    layerPosition? c layer = .error fault ↔
      (Scalar.ofInt? layer : Option α) = none ∧ fault = .numberTooLarge := by
  unfold layerPosition?
  cases (Scalar.ofInt? layer : Option α) with
  | none => simp [eq_comm]
  | some a => simp

/-! ## layers -/

section
variable {r : Renaming} {w w' : Workspace α} {table table' : OrderedMap NodeId Int}
  (hr : Renamed r table w w') (hw : w.graph.Coherent) (hw' : w'.graph.Coherent)
  (h : w.graph.layering = .ok table)
include hr hw hw' h

theorem Renamed.longest : Longest w'.graph.arcs (r.table table) :=
  (Graph.layering_ok h).2.rename (fun _ he => hr.exists_arc hw hw' he)
    fun _ he' => hr.exists_base hw hw' he'

variable (hacyclic : w.graph.Acyclic)
include hacyclic

theorem Renamed.acyclic : w'.graph.Acyclic := by
  refine Graph.acyclic_of_ascending hw' (hr.longest hw hw' h).toAscending fun a' ha' => ?_
  rw [hr.nodeIds] at ha'
  obtain ⟨a, ha, rfl⟩ := List.mem_map.1 ha'
  exact OrderedMap.mem_keys_image.2 ((Graph.mem_layers_iff hw.joined hacyclic h a).2 ha)

theorem Renamed.layering_eq (h' : w'.graph.layering = .ok table') :
    table'.get? = (r.table table).get? := by
  funext a'
  refine (Graph.layering_ok h').2.unique (hr.longest hw hw' h) (fun _ => Iff.rfl) (fun b' => ?_) a'
  rw [Graph.mem_layers_iff hw'.joined (hr.acyclic hw hw' h hacyclic) h', hr.nodeIds, OrderedMap.keys_image,
    List.mem_map, List.mem_map]
  exact exists_congr fun b => and_congr_left fun _ => (Graph.mem_layers_iff hw.joined hacyclic h b).symm

theorem Renamed.arrange_eq (h' : w'.graph.layering = .ok table') :
    arrange w'.graph.nodeIds table' = r.arrangement (arrange w.graph.nodeIds table) := by
  rw [hr.nodeIds, arrange_congr (hr.layering_eq hw hw' h hacyclic h'), arrange_rename]

end

/-! ## chains -/

theorem Renaming.get?_of_table {r : Renaming} {table table' : OrderedMap NodeId Int}
    (htable : table'.get? = (r.table table).get?) (a : NodeId) :
    table'.get? (r.node a) = table.get? a := by
  rw [htable, get?_table]

theorem Renamed.long_matches {r : Renaming} {w w' : Workspace α}
    {table table' : OrderedMap NodeId Int} (hr : Renamed r table w w')
    (htable : table'.get? = (r.table table).get?) :
    List.Forall₂ r.Matches (w.graph.longArcs table) (w'.graph.longArcs table') := by
  rw [Graph.longArcs_congr htable]
  exact hr.long

section
variable [Scalar α] {r : Renaming} {c c' : Config α} {w w' u u' : Workspace α}
  {table table' : OrderedMap NodeId Int} {s s' : Snapshot} (hr : Renamed r table w w')
  (htable : table'.get? = (r.table table).get?)
include hr htable

theorem Renamed.hindered_iff (hw : w.graph.Coherent) (hw' : w'.graph.Coherent) (fault : Fault) :
    Hindered c' w' table' fault ↔ Hindered c w table fault := by
  -- an edge across a layer is one of the long ones
  have hlong {table : OrderedMap NodeId Int} {e : Edge} {a b : Int} {i : Nat}
      (ha : table.get? e.source = some a) (hb : table.get? e.target = some b) (hi : 1 ≤ i)
      (hlt : a + i < b) : ¬ NextLayer table e.source e.target := by
    rw [nextLayer_iff ha hb]
    omega
  have hlayer (layer : Int) :
      layerPosition? c' layer = .error fault ↔ layerPosition? c layer = .error fault := by
    rw [layerPosition?_eq_error_iff, layerPosition?_eq_error_iff]
  have hmatches := hr.long_matches htable
  constructor
  · intro hx
    obtain ⟨e', he', a, b, ha, hb, i, hi, hlt, hcause⟩ := hx
    obtain ⟨e, he, hmatch⟩ := exists_left_of_forall₂ hmatches (List.mem_filter.2
      ⟨hw'.mem_edges.2 he', decide_eq_true (hlong ha hb hi hlt)⟩)
    rw [hmatch.source, Renaming.get?_of_table htable] at ha
    rw [hmatch.target, Renaming.get?_of_table htable] at hb
    rw [hmatch.key, ← r.node_dummy, hr.mem_nodeIds_iff, hlayer] at hcause
    exact ⟨e, hw.mem_edges.1 (List.mem_filter.1 he).1, a, b, ha, hb, i, hi, hlt, hcause⟩
  · intro hx
    obtain ⟨e, he, a, b, ha, hb, i, hi, hlt, hcause⟩ := hx
    obtain ⟨e', he', hmatch⟩ := exists_right_of_forall₂ hmatches (List.mem_filter.2
      ⟨hw.mem_edges.2 he, decide_eq_true (hlong ha hb hi hlt)⟩)
    refine ⟨e', hw'.mem_edges.1 (List.mem_filter.1 he').1, a, b, ?_, ?_, i, hi, hlt, ?_⟩
    · rw [hmatch.source, Renaming.get?_of_table htable, ha]
    · rw [hmatch.target, Renaming.get?_of_table htable, hb]
    · rw [hmatch.key, ← r.node_dummy, hr.mem_nodeIds_iff, hlayer]
      exact hcause

section
variable (h : Expanded c w table s u) (h' : Expanded c' w' table' s' u')
include h h'

theorem Renamed.chains_eq : s'.chains.values.map (fun C => (C.edge.source, C.nodes))
    = s.chains.values.map fun C => (r.node C.edge.source, C.nodes.map r.node) := by
  have hpairs {chains : List Chain} {long : List Edge} {table : OrderedMap NodeId Int}
      (hchains : chains.map (fun C => (C.edge, C.nodes)) = long.map fun e => (e, e.detour table))
      {β : Type} (f : Edge → List NodeId → β) :
      chains.map (fun C => f C.edge C.nodes) = long.map fun e => f e (e.detour table) := by
    have hmap := congrArg (List.map fun p => f p.1 p.2) hchains
    rwa [List.map_map, List.map_map] at hmap
  rw [hpairs h'.chains_eq fun e nodes => (e.source, nodes),
    hpairs h.chains_eq fun e nodes => (r.node e.source, nodes.map r.node)]
  refine map_eq_map_of_forall₂ (hr.long_matches htable) fun e e' hmatch => ?_
  rw [hmatch.source, Edge.detour_congr htable, hmatch.detour]

theorem Renamed.dummyNodes_eq : s'.dummyNodes = s.dummyNodes.map r.node := by
  have hnodes := congrArg (List.flatMap Prod.snd) (hr.chains_eq htable h h')
  rw [List.flatMap_map, List.flatMap_map] at hnodes
  exact hnodes.trans List.map_flatMap.symm

theorem Renamed.mirrors : Mirrors r u.graph u'.graph := by
  refine ⟨fun a => ?_, fun side a => ?_⟩
  · simp only [h'.isDummy_eq, h.isDummy_eq, hr.dummyNodes_eq htable h h',
      List.mem_map_of_injective r.injective, hr.isDummy]
  · have hchains : ((w'.graph.longArcs table').flatMap fun e => e.detourEnds table')
        = ((w.graph.longArcs table).flatMap fun e => e.detourEnds table).map
            (Prod.map r.node r.node) := by
      rw [List.map_flatMap, List.flatMap_def, List.flatMap_def]
      refine congrArg List.flatten (map_eq_map_of_forall₂ (hr.long_matches htable)
        fun e e' hmatch => ?_)
      rw [← hmatch.detourEnds, Edge.detourEnds, Edge.detourEnds, Edge.detour_congr htable]
    rw [h'.linked_arcs, h.linked_arcs, hchains, Graph.shortArcs_congr htable, hr.short, linked_rename,
      List.map_append]

end

end

/-- nodes stand in their layers at their heights, so they correspond where these do -/
theorem Expanded.spot_rename [Scalar α] {r : Renaming} {c c' : Config α} {w w' u u' : Workspace α}
    {table table' : OrderedMap NodeId Int} {s s' : Snapshot} (h : Expanded c w table s u)
    (h' : Expanded c' w' table' s' u') {across along : α → α} (hc : Resizing c c' across along)
    (hlists : s'.arrangement = r.arrangement s.arrangement) {hs : Heights α}
    (hy : ∀ id n, u.graph.nodes.get? id = some n → hs.get? id = some n.y)
    (hy' : ∀ id n, u'.graph.nodes.get? id = some n → (r.heights along hs).get? id = some n.y)
    (a : NodeId) : (u'.graph.nodes.get? (r.node a)).map Node.spot
      = (u.graph.nodes.get? a).map fun n => (n.layer, n.position.scale across along) := by
  obtain ⟨known, hexp⟩ := h.expanding
  obtain ⟨known', hexp'⟩ := h'.expanding
  have hlayer := hexp.filed.get?_rename (hlists ▸ hexp'.filed) a
  have hmem : r.node a ∈ u'.graph.nodeIds ↔ a ∈ u.graph.nodeIds := by
    rw [← h'.partition.mem_iff, hlists, Renaming.flatten_arrangement,
      List.mem_map_of_injective r.injective, h.partition.mem_iff]
  cases hn : u.graph.nodes.get? a with
  | none =>
    have hnone : u'.graph.nodes.get? (r.node a) = none :=
      OrderedMap.get?_eq_none_iff.2 fun hin => OrderedMap.get?_eq_none_iff.1 hn (hmem.1 hin)
    rw [hnone]
    rfl
  | some n =>
    obtain ⟨n', hn'⟩ := OrderedMap.exists_get?_of_mem (hmem.2 (OrderedMap.mem_keys_of_get? hn))
    obtain ⟨hl, hx⟩ := hexp.placed a n hn
    obtain ⟨hl', hx'⟩ := hexp'.placed _ n' hn'
    have hlayers : n'.layer = n.layer := by
      rw [hlayer, hl] at hl'
      exact (Option.some.inj hl').symm
    have hheights : n'.y = along n.y := by
      have hy' := hy' _ n' hn'
      rw [OrderedMap.get?_image, hy a n hn] at hy'
      exact (Option.some.inj hy').symm
    rw [hn', Option.map_some, Option.map_some, Node.spot, Node.position, Node.position, Point.scale,
      hx', hx, hlayers, hc.layerPosition, hheights]

end LayeredDrawing
