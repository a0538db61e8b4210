import LayeredDrawing.Proofs.Drawing.CycleRejection
import LayeredDrawing.Proofs.Drawing.Rearranged
import LayeredDrawing.Proofs.Renaming.Isomorphic

/-!
# Drawings depend on structure only

Two graphs with the same structure are drawn alike, or are refused for faults of one kind, and for
corresponding cycles.  Names and keys, labels, sizes, and what is left of earlier drawings make no
difference, but for the bends of edges to the next layer, which a drawing keeps.

* `Unbent`                 edges to the next layer have no bends;
* `DrawnAlike`             the second drawing is the first one under the given names;
* `RenamedGraph.draw`      acyclic graphs are drawn alike;
* `draw_isomorphic`        all graphs with the same structure.
-/

namespace LayeredDrawing

section
variable {α : Type}

/-- edges to the next layer have no bends -/
def Unbent (w : Workspace α) : Prop :=
  ∀ table, w.graph.layering = .ok table → ∀ e ∈ w.graph.edges,
    NextLayer table e.source e.target → w.bends.get e.slot = []

/-- the second drawing has the nodes of the first one under the given names, in the same lists and
layers and at the same places, and the edges across more than one layer have the same bends -/
structure DrawnAlike (f : NodeId → NodeId) (h : Int → Int) (s : Snapshot) (v : Workspace α)
    (s' : Snapshot) (v' : Workspace α) : Prop where
  arrangement : s'.arrangement = s.arrangement.map (List.map f)
  nodeIds : v'.graph.nodeIds = v.graph.nodeIds.map f
  layers : ∀ a ∈ v.graph.nodeIds, s'.layers.get? (f a) = s.layers.get? a
  spots : ∀ a ∈ v.graph.nodeIds,
    (v'.graph.nodes.get? (f a)).map Node.spot = (v.graph.nodes.get? a).map Node.spot
  bends : ∀ e ∈ v.graph.edges, ∀ i j, s.layers.get? e.source = some i →
    s.layers.get? e.target = some j → 1 < j - i → ∃ e', v'.graph.edge (h e.key) = .ok e' ∧
      e'.source = f e.source ∧ e'.target = f e.target ∧ v'.bends.get e'.slot = v.bends.get e.slot

section
variable {r : Renaming} {w w' : Workspace α} (hr : RenamedGraph r w.graph w'.graph)
  (hw : w.graph.Coherent) (hw' : w'.graph.Coherent)
include hr hw hw'

/-- edges to the next layer correspond, if none of them has bends -/
theorem RenamedGraph.shortAlike {table : OrderedMap NodeId Int} (hacyclic : w.graph.Acyclic)
    (h : w.graph.layering = .ok table) (hunbent : Unbent w) (hunbent' : Unbent w') :
    ShortAlike r table w w' := by
  have hr' := hr.renamed table
  obtain ⟨table', h'⟩ := Graph.layering_of_acyclic (hr'.acyclic hw hw' h hacyclic)
  have htable := hr'.layering_eq hw hw' h hacyclic h'
  have hnext {e e' : Edge} (hmatch : r.Matches e e') :
      NextLayer (r.table table) e'.source e'.target ↔ NextLayer table e.source e.target := by
    rw [hmatch.source, hmatch.target, Renaming.nextLayer_iff]
  have hroute {e e' : Edge} (he : e ∈ w.graph.edges) (he' : e' ∈ w'.graph.edges)
      (hmatch : r.Matches e e') (hshort : NextLayer table e.source e.target) :
      RoutesAlike r id w w' e e' := by
    have hshort' := (nextLayer_congr htable _ _).2 ((hnext hmatch).2 hshort)
    exact ⟨hmatch, by rw [hunbent table h e he hshort, hunbent' table' h' e' he' hshort']; rfl⟩
  refine ⟨fun e he => ?_, fun e' he' => ?_⟩
  · obtain ⟨harc, hshort⟩ := List.mem_filter.1 he
    obtain ⟨e', he', hmatch⟩ := exists_right_of_forall₂ hr.matches_edges (hw.mem_edges.2 harc)
    exact ⟨e', List.mem_filter.2 ⟨hw'.mem_edges.1 he',
      decide_eq_true ((hnext hmatch).2 (of_decide_eq_true hshort))⟩,
      hroute (hw.mem_edges.2 harc) he' hmatch (of_decide_eq_true hshort)⟩
  · obtain ⟨harc', hshort'⟩ := List.mem_filter.1 he'
    obtain ⟨e, he, hmatch⟩ := exists_left_of_forall₂ hr.matches_edges (hw'.mem_edges.2 harc')
    have hshort := (hnext hmatch).1 (of_decide_eq_true hshort')
    exact ⟨e, List.mem_filter.2 ⟨hw.mem_edges.1 he, decide_eq_true hshort⟩,
      hroute he (hw'.mem_edges.2 harc') hmatch hshort⟩

end

section
variable [Metric α] {r : Renaming} {c : Config α} {w w' v v' : Workspace α} {s s' : Snapshot}
  {known known' : List Edge} (hw : w.Sound known) (hw' : w'.Sound known')
include hw

/-- an arrangement lists nodes of the graph only -/
theorem mem_nodeIds_of_drawn (h : (draw c).perform w = (.ok s, v)) {l : List NodeId} {a : NodeId}
    (hl : l ∈ s.arrangement) (ha : a ∈ l) : a ∈ w.graph.nodeIds := by
  obtain ⟨table, t, u, _, hprepared, rfl, _⟩ := draw_spec hw h
  obtain ⟨i, hi⟩ := List.mem_iff_getElem?.1 hl
  have hlayer := (hprepared.filed_withoutChains.mem_iff a i).2 ⟨i, rfl, l, hi, ha⟩
  exact (hprepared.mem_table_iff a).1 (OrderedMap.mem_keys_of_get? hlayer)

include hw'

theorem RenamedGraph.draw (hr : RenamedGraph r w.graph w'.graph) (hacyclic : w.graph.Acyclic)
    (hfree : ∀ k i, .dummy k i ∉ w.graph.nodeIds) (hunbent : Unbent w) (hunbent' : Unbent w')
    (c : Config α) : EndAlike (Corresponds r id w w')
      ((LayeredDrawing.draw c).perform w) ((LayeredDrawing.draw c).perform w') := by
  obtain ⟨table, htable⟩ := Graph.layering_of_acyclic hacyclic
  refine (hr.renamed table).draw hw hw' (resizing_id c) hacyclic htable (fun fault hx => ?_)
    fun _ => hr.shortAlike hw.coherent hw'.coherent hacyclic htable hunbent hunbent'
  obtain ⟨e, _, _, _, _, _, i, _, _, hname | hlayer⟩ := hx
  · exact absurd hname (hfree e.key i)
  · exact (layerPosition?_eq_error_iff.1 hlayer).2

/-- what corresponds under a renaming is drawn alike under all names that the renaming agrees with -/
theorem Corresponds.drawnAlike {f : NodeId → NodeId} {key : Int → Int}
    (hv : Corresponds r id w w' s v s' v')
    (hgrouped : Grouped w.graph.arcs) (hgrouped' : Grouped w'.graph.arcs)
    (h : (LayeredDrawing.draw c).perform w = (.ok s, v))
    (h' : (LayeredDrawing.draw c).perform w' = (.ok s', v'))
    (hids : w'.graph.nodeIds = w.graph.nodeIds.map f)
    (hnode : ∀ a ∈ w.graph.nodeIds, r.node a = f a)
    (hkey : ∀ k ∈ w.graph.edges.map Edge.key, r.key k = key k) : DrawnAlike f key s v s' v' := by
  obtain ⟨hcoherent', houtline', harcs'⟩ := draw_arcs_eq hw' hgrouped' h'
  have hsame' : v'.graph.nodeIds = w'.graph.nodeIds := Graph.nodeIds_congr houtline'
  have hsame : v.graph.nodeIds = w.graph.nodeIds :=
    Graph.nodeIds_congr (draw_arcs_eq hw hgrouped h).2.1
  refine ⟨?_, by rw [hsame, hsame', hids], fun a ha => ?_, fun a ha => ?_,
    fun e he i j hi hj hlong => ?_⟩
  · rw [hv.arrangement]
    exact List.map_congr_left fun l hl => List.map_congr_left fun a ha =>
      hnode a (mem_nodeIds_of_drawn hw h hl ha)
  · rw [← hnode a (hsame ▸ ha), hv.layers, Renaming.get?_table]
  · rw [← hnode a (hsame ▸ ha)]
    exact hv.spots a
  · have hmem := mem_longArcs_of_drawn hw hgrouped h he hi hj hlong
    have hedge := (List.mem_filter.1 hmem).1
    have harc := hw.coherent.mem_edges.1 hedge
    obtain ⟨e', he', hroute⟩ := exists_right_of_forall₂ hv.long hmem
    have harc' : e' ∈ v'.graph.arcs := harcs' ▸ List.mem_append_right _ he'
    have hname : e'.key = key e.key := hroute.key.trans (hkey _ (List.mem_map_of_mem hedge))
    refine ⟨e', ?_, hroute.source.trans (hnode _ (hw.coherent.source_mem e harc)),
      hroute.target.trans (hnode _ (hw.coherent.target_mem e harc)),
      hroute.bends.trans (List.map_id _)⟩
    rw [Graph.edge, (hcoherent'.index_iff _ _).2 ⟨harc', hname⟩]

end

/-! ## graphs with cycles -/

/-- a cycle that is found runs through nodes of the graph -/
theorem Graph.mem_nodeIds_of_mem_someCycle {g : Graph α} (hg : g.Coherent) {p : NodeId × NodeId}
    (hp : p ∈ g.someCycle.map Edge.ends) : p.1 ∈ g.nodeIds ∧ p.2 ∈ g.nodeIds := by
  have hne : g.someCycle ≠ [] := by
    intro hnil
    rw [hnil] at hp
    cases hp
  obtain ⟨e, he, hs, ht⟩ := (isCycle_someCycle hne).adjacent p hp
  exact ⟨hs ▸ hg.source_mem e he, ht ▸ hg.target_mem e he⟩

theorem perform_draw_rename [Metric α] {r : Renaming} {w w' : Workspace α}
    (hr : RenamedGraph r w.graph w'.graph) (hcycle : w.graph.someCycle ≠ []) (c : Config α) :
    (draw c).perform w' = (.error (.cyclic
      ((w.graph.someCycle.map Edge.ends).map (Prod.map r.node r.node))), w') := by
  rw [← hr.someCycle_ends]
  refine perform_draw_of_someCycle fun hnil => hcycle ?_
  have hcycles := hr.someCycle
  rw [hnil] at hcycles
  exact List.forall₂_nil_right_iff.1 hcycles

/-- graphs with the same structure are drawn alike, or refused alike, for the same cycle if for one -/
theorem draw_isomorphic [Metric α] {w w' : Workspace α} {past past' : List Edge}
    {f : NodeId → NodeId} {h : Int → Int} (hw : Reached w past) (hw' : Reached w' past')
    (hiso : Isomorphic f h w.graph w'.graph) (hfree : ∀ k i, .dummy k i ∉ w.graph.nodeIds)
    (hfree' : ∀ k i, .dummy k i ∉ w'.graph.nodeIds) (hunbent : Unbent w) (hunbent' : Unbent w')
    (c : Config α) :
    EndAlike (DrawnAlike f h) ((draw c).perform w) ((draw c).perform w') ∧
      ∀ cycle v, (draw c).perform w = (.error (.cyclic cycle), v) →
        (draw c).perform w' = (.error (.cyclic (cycle.map (Prod.map f f))), w') := by
  have hg := hw.sound.coherent
  have hg' := hw'.sound.coherent
  obtain ⟨r, hnode, hkey⟩ := exists_renaming
    (fun a ha k i hname => hfree k i (hname ▸ ha))
    (fun a ha k i hname => hfree' k i (by
      rw [hiso.nodeIds, ← hname]
      exact List.mem_map_of_mem ha))
    hiso.node_injOn hiso.key_injOn
  have hr := hiso.renamedGraph hnode hg hg' hkey
  by_cases hcycle : w.graph.someCycle = []
  · have hacyclic := (Graph.someCycle_eq_nil_iff hw.built.joined).1 hcycle
    refine ⟨(hr.draw hw.sound hw'.sound hacyclic hfree hunbent hunbent' c).imp
      fun s v s' v' hdraw hdraw' hv => hv.drawnAlike hw.sound hw'.sound hw.built.grouped
        hw'.built.grouped hdraw hdraw' hiso.nodeIds hnode hkey, fun cycle v hdraw => ?_⟩
    exact absurd rfl ((leads_draw_not_cyclic c hcycle).of_error hdraw cycle)
  · have hleft := perform_draw_of_someCycle (c := c) hcycle
    have hright := perform_draw_rename hr hcycle c
    refine ⟨by rw [hleft, hright]; rfl, fun cycle v hdraw => ?_⟩
    rw [hleft] at hdraw
    obtain rfl := Fault.cyclic.inj (Except.error.inj (Prod.mk.inj hdraw).1)
    rw [hright]
    refine congrArg (fun l => (Except.error (Fault.cyclic l), w')) (List.map_congr_left fun p hp => ?_)
    obtain ⟨hs, ht⟩ := Graph.mem_nodeIds_of_mem_someCycle hg hp
    exact Prod.ext (hnode _ hs) (hnode _ ht)

end

/-! ## a triangle under other names -/

/-- the triangle with letters for nodes; its edges have come in another order, and one has a bend -/
def letteredTriangle : Workspace Rat :=
  let changes : List (Change Rat) :=
    [.addNode (.text "a") (.unplaced "first" (some (4, 3))), .addNode (.text "b") (.unplaced "" none),
      .addNode (.text "c") (.unplaced "last" none), .addEdge (.text "b") (.text "c") false,
      .addEdge (.text "a") (.text "b") false, .addEdge (.text "a") (.text "c") false,
      .addBend ⟨2, 2, .text "a", .text "c", false⟩ ⟨5, 7⟩]
  changes.foldl (fun w c => c.after w) ⟨.empty, .empty⟩

theorem reached_letteredTriangle : ∃ past, Reached letteredTriangle past :=
  ⟨_, (((((((Reached.start .empty).change (.addNode _ _) trivial).change (.addNode _ _) trivial).change
    (.addNode _ _) trivial).change (.addEdge _ _ _) trivial).change (.addEdge _ _ _) trivial).change
    (.addEdge _ _ _) trivial).change (.addBend _ _) trivial⟩

def letter : NodeId → NodeId
  | .int 1 => .text "a"
  | .int 2 => .text "b"
  | _ => .text "c"

def letteredKey (k : Int) : Int := if k = 0 then 1 else if k = 1 then 0 else k

theorem isomorphic_letteredTriangle :
    Isomorphic letter letteredKey triangle.graph letteredTriangle.graph where
  nodes := by decide +kernel
  outEdges := by decide +kernel
  predecessors := by decide +kernel
  node_injOn a ha b hb hab := by
    have hinj : ∀ a ∈ triangle.graph.nodeIds, ∀ b ∈ triangle.graph.nodeIds,
        letter a = letter b → a = b := by decide +kernel
    exact hinj a ha b hb hab
  key_injOn k hk l hl hkl := by
    have hinj : ∀ k ∈ triangle.graph.edges.map Edge.key, ∀ l ∈ triangle.graph.edges.map Edge.key,
        letteredKey k = letteredKey l → k = l := by decide +kernel
    exact hinj k hk l hl hkl

theorem unbent_letteredTriangle : Unbent letteredTriangle := by
  have hnone : (match letteredTriangle.graph.layering with
      | .ok table => decide (∀ e ∈ letteredTriangle.graph.edges,
          NextLayer table e.source e.target → letteredTriangle.bends.get e.slot = [])
      | .error _ => true) = true := by decide +kernel
  intro table htable
  rw [htable] at hnone
  exact of_decide_eq_true hnone

theorem draw_isomorphic_letteredTriangle : (∃ past, Reached triangle past) ∧
    (∃ past, Reached letteredTriangle past) ∧
    Isomorphic letter letteredKey triangle.graph letteredTriangle.graph ∧
    (∀ k i, .dummy k i ∉ triangle.graph.nodeIds) ∧
    (∀ k i, .dummy k i ∉ letteredTriangle.graph.nodeIds) ∧ Unbent triangle ∧
    Unbent letteredTriangle ∧ ∃ s v, (draw wideConfig).perform triangle = (.ok s, v) ∧
      ∃ s' v', (draw wideConfig).perform letteredTriangle = (.ok s', v') ∧
        DrawnAlike letter letteredKey s v s' v' := by
  obtain ⟨past, hw⟩ := reached_triangle
  obtain ⟨past', hw'⟩ := reached_letteredTriangle
  have hids : triangle.graph.nodeIds = [.int 1, .int 2, .int 3] := rfl
  have hids' : letteredTriangle.graph.nodeIds = [.text "a", .text "b", .text "c"] := rfl
  have hfree : ∀ k i, .dummy k i ∉ triangle.graph.nodeIds := by simp [hids]
  have hfree' : ∀ k i, .dummy k i ∉ letteredTriangle.graph.nodeIds := by simp [hids']
  have hunbent : Unbent triangle := by
    have hnone : ∀ e ∈ triangle.graph.edges, triangle.bends.get e.slot = [] := by decide +kernel
    exact fun _ _ e he _ => hnone e he
  obtain ⟨s, v, hdraw⟩ := exists_draw_triangle
  exact ⟨⟨past, hw⟩, ⟨past', hw'⟩, isomorphic_letteredTriangle, hfree, hfree', hunbent,
    unbent_letteredTriangle, s, v, hdraw, (draw_isomorphic hw hw' isomorphic_letteredTriangle hfree
      hfree' hunbent unbent_letteredTriangle wideConfig).1.exists_ok hdraw⟩

end LayeredDrawing
