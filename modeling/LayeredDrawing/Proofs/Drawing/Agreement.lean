import LayeredDrawing.Proofs.Drawing.Conservation
import LayeredDrawing.Proofs.Drawing.Course

/-!
# Snapshot and graph agree

The layer of a node stands in the table of layers, in the lists of the arrangement and in the graph
itself, and the phases change these in different places.  After each phase of a drawing they agree
(`Agrees`), and as long as there are chains, these are what the graph has in place of the hidden edges
(`StandIns`).

* `Layered.agrees`, `Expanded.agrees`, `Reconstructed.agrees`   the tables and the graph;
* `Expanded.standIns`                the chains and the graph;
* `draw_agrees`                      both for every report of a drawing.
-/

namespace LayeredDrawing

section
variable {α : Type} [Scalar α]

/-- after a phase of a drawing of `w`, the tables say of the graph what it says itself -/
structure Agrees (c : Config α) (w : Workspace α) (s : Snapshot) (v : Workspace α) : Prop where
  mem_keys_iff : ∀ id, id ∈ s.layers.keys ↔ id ∈ v.graph.nodeIds
  perm : s.arrangement.flatten.Perm v.graph.nodeIds
  filed : Filed s.layers s.arrangement
  occupied : ∀ l ∈ s.arrangement, ∃ id ∈ l, id ∈ w.graph.nodeIds
  placed : Placed c s.layers v.graph
  climbs : ∀ e ∈ v.graph.edges, ∃ a b, s.layers.get? e.source = some a ∧
    s.layers.get? e.target = some b ∧ a < b

/-- the graph has the chains in place of the edges hidden -/
structure StandIns (w : Workspace α) (s : Snapshot) (v : Workspace α) : Prop where
  nodes : ∀ C ∈ s.chains.values, ∀ id ∈ C.nodes, id ∈ v.graph.nodeIds
  edges : ∀ C ∈ s.chains.values, ∀ d ∈ C.edges, d ∈ v.graph.edges
  hidden : ∀ C ∈ s.chains.values, C.edge ∉ v.graph.edges ∧ v.graph.hasEdge C.edge = false
  nextLayer : ∀ e ∈ v.graph.edges, NextLayer s.layers e.source e.target
  once : ∀ e ∈ w.graph.edges,
    (s.chains.values.map Chain.edge ++ v.graph.edges).filter (fun d => d.key = e.key) = [e]

section
variable {c : Config α} {w u v : Workspace α} {table : OrderedMap NodeId Int} {s : Snapshot}
  {known : List Edge}

/-- a list is occupied if some node of the graph as it was has its number for a layer -/
theorem agrees_of_filed (hkeys : ∀ id, id ∈ s.layers.keys ↔ id ∈ v.graph.nodeIds)
    (hfiled : Filed s.layers s.arrangement)
    (hoccupied : ∀ i : Nat, i < s.arrangement.length →
      ∃ id ∈ w.graph.nodeIds, s.layers.get? id = some (i : Int))
    (hplaced : Placed c s.layers v.graph)
    (hclimbs : ∀ e ∈ v.graph.edges, ∃ a b, s.layers.get? e.source = some a ∧
      s.layers.get? e.target = some b ∧ a < b) : Agrees c w s v where
  mem_keys_iff := hkeys
  perm := by
    refine (List.perm_ext_iff_of_nodup hfiled.nodup_flatten v.graph.nodup_nodeIds).2 fun id => ?_
    rw [hfiled.mem_flatten, hkeys]
  filed := hfiled
  occupied l hl := by
    obtain ⟨i, hi, rfl⟩ := List.mem_iff_getElem.1 hl
    obtain ⟨id, hid, hlayer⟩ := hoccupied i hi
    obtain ⟨j, hj, l, hget, hmem⟩ := (hfiled.mem_iff id i).1 hlayer
    obtain rfl : j = i := by omega
    rw [List.getElem?_eq_getElem hi] at hget
    exact ⟨id, Option.some.inj hget ▸ hmem, hid⟩
  placed := hplaced
  climbs := hclimbs

theorem Layered.agrees (h : Layered c w s v) (hw : w.Sound known) : Agrees c w s v := by
  refine agrees_of_filed (fun id => ?_) h.filed (fun i hi => ?_) h.placed fun e he => ?_
  · rw [h.mem_keys_iff, h.redrawn.nodeIds]
  · rw [h.arrangement] at hi
    obtain ⟨id, hid⟩ := occupied_arrange (Graph.layering_ok h.layering).2 hi
    exact ⟨id, (h.mem_keys_iff id).1 (OrderedMap.mem_keys_of_get? hid), hid⟩
  · rw [h.redrawn.edges, hw.coherent.mem_edges] at he
    exact h.ends hw he

theorem Expanded.agrees (h : Expanded c w table s v)
    (htable : ∀ id, id ∈ table.keys ↔ id ∈ w.graph.nodeIds) : Agrees c w s v := by
  obtain ⟨known, hexp⟩ := h.expanding
  refine agrees_of_filed hexp.mem_keys_iff hexp.filed (fun i hi => ?_) hexp.placed fun e he => ?_
  · obtain ⟨id, hid⟩ := hexp.occupied i hi
    exact ⟨id, (htable id).1 (OrderedMap.mem_keys_of_get? hid), hexp.extends id i hid⟩
  · rw [hexp.replaced.sound.coherent.mem_edges] at he
    obtain ⟨layer, hs, ht⟩ := h.nextLayer he
    exact ⟨layer, layer + 1, hs, ht, by omega⟩

theorem Expanded.standIns (h : Expanded c w table s v) : StandIns w s v := by
  obtain ⟨known, hexp⟩ := h.expanding
  have hmem {e : Edge} : e ∈ v.graph.edges ↔ e ∈ v.graph.arcs :=
    hexp.replaced.sound.coherent.mem_edges
  have hhidden {C : Chain} (hC : C ∈ s.chains.values) : C.edge ∉ v.graph.arcs := fun he =>
    (hexp.replaced.mem_arcs_iff.1 he).2 (List.mem_map_of_mem hC)
  refine ⟨fun C hC id hid => ?_, fun C hC d hd => ?_, fun C hC => ⟨fun he => ?_, ?_⟩, fun e he => ?_,
    fun e he => ?_⟩
  · exact hexp.replaced.nodes_mem id (List.mem_flatMap.2 ⟨C, hC, hid⟩)
  · have hdummy : d ∈ s.dummyEdges := List.mem_flatMap.2 ⟨C, hC, hd⟩
    refine hmem.2 (hexp.replaced.mem_arcs_iff.2 ⟨.inr hdummy, fun hin => ?_⟩)
    exact (List.nodup_append.1 hexp.replaced.nodup_arcs).2.2 d (hexp.replaced.hidden_mem d hin) d
      hdummy rfl
  · exact hhidden hC (hmem.1 he)
  · rw [← Bool.not_eq_true]
    have hknown := hexp.replaced.known_of_mem _ (h.mem_arcs hC)
    exact fun htrue => hhidden hC ((hexp.replaced.sound.hasEdge_iff hknown).1 htrue)
  · exact h.nextLayer (hmem.1 he)
  · exact hexp.replaced.filter_key (hexp.replaced.base.mem_edges.1 he)

end

end

section
variable {α : Type} [Metric α] {c : Config α} {w u v : Workspace α} {table : OrderedMap NodeId Int}
  {s t : Snapshot} {past known : List Edge}

theorem Reconstructed.mem_edges_iff (h : Reconstructed c w u t v) {e : Edge} :
    e ∈ v.graph.edges ↔ e ∈ w.graph.arcs := by
  obtain ⟨v₁, hrestored, hgraph, _⟩ := h.restored
  rw [hgraph, hrestored.coherent.mem_edges, hrestored.perm_arcs.mem_iff]

/-- the nodes that stay are where they were -/
theorem Reconstructed.placed (h : Reconstructed c w u t v) (ht : Subdivided c w table t u)
    (htable : ∀ id, id ∈ table.keys ↔ id ∈ w.graph.nodeIds) : Placed c table v.graph := by
  obtain ⟨known, hexp⟩ := ht.expanding
  have hids := h.nodeIds
  obtain ⟨v₁, hrestored, hgraph, _⟩ := h.restored
  intro id n hn
  have hid : id ∈ w.graph.nodeIds := hids ▸ OrderedMap.mem_keys_of_get? hn
  have hnot : id ∉ t.dummyNodes := fun hd => hexp.replaced.not_mem_base hd hid
  rw [hgraph, hrestored.node id hnot] at hn
  obtain ⟨hlayer, hx⟩ := hexp.placed id n hn
  obtain ⟨layer, hget⟩ := OrderedMap.exists_get?_of_mem ((htable id).2 hid)
  have hsame := hexp.extends id layer hget
  rw [hlayer] at hsame
  exact ⟨by rw [hget, Option.some.inj hsame], hx⟩

theorem Reconstructed.agrees (h : Reconstructed c w u t v) (ht : Subdivided c w table t u)
    (htable : ∀ id, id ∈ table.keys ↔ id ∈ w.graph.nodeIds)
    (hends : ∀ e ∈ w.graph.arcs, ∃ a b, table.get? e.source = some a ∧
      table.get? e.target = some b ∧ a < b) : Agrees c w t.withoutChains v := by
  obtain ⟨known, hexp⟩ := ht.expanding
  have hlayers : t.withoutChains.layers = table := ht.layers_withoutChains
  refine agrees_of_filed (fun id => ?_) ?_ (fun i hi => ?_) ?_ fun e he => ?_
  · rw [hlayers, htable, h.nodeIds]
  · rw [hlayers]
    exact ht.filed_withoutChains
  · have hlists : i < t.arrangement.length := by
      rwa [Snapshot.withoutChains, List.length_map] at hi
    obtain ⟨id, hid⟩ := hexp.occupied i hlists
    rw [hlayers]
    exact ⟨id, (htable id).1 (OrderedMap.mem_keys_of_get? hid), hid⟩
  · rw [hlayers]
    exact h.placed ht htable
  · rw [hlayers]
    exact hends e (h.mem_edges_iff.1 he)

/-- all five reports of a drawing agree with themselves, and those with chains have these in the
graph -/
theorem draw_agrees (hw : Reached w past) (h : (draw c).perform w = (.ok s, v)) :
    (trace c w).map Report.phase = Phase.all ∧
      (trace c w).getLast? = some ⟨.reconstruction, .ok s, v⟩ ∧
      ∀ r ∈ trace c w, ∃ t, r.outcome = .ok t ∧ r.phase.expects.next? = some t.stage ∧
        Agrees c w t r.workspace ∧
        (t.stage = .expanded ∨ t.stage = .ordered ∨ t.stage = .positioned →
          StandIns w t r.workspace) := by
  obtain ⟨t, u, hprepare, hrestore⟩ := draw_ok h
  obtain ⟨k⟩ := exists_course hprepare
  have hlayered := k.layered hw.sound
  obtain ⟨hstage₂, hexpanded, _⟩ := k.expanded hw.sound
  obtain ⟨_, _, hordered⟩ := k.ordered hw.sound
  have hstage₄ := k.stage_positioned hw.sound
  obtain ⟨_, hpositioned, _⟩ := k.positioned hw.sound
  obtain ⟨rfl, hreconstructed⟩ :=
    (Action.leads_restoreEdges hstage₄ hpositioned.toSubdivided).of_ok hrestore
  rw [k.trace_eq hrestore]
  refine ⟨rfl, rfl, fun r hr => ?_⟩
  simp only [List.mem_cons, List.not_mem_nil, or_false] at hr
  rcases hr with rfl | rfl | rfl | rfl | rfl
  · refine ⟨_, rfl, congrArg some hlayered.stage.symm, hlayered.agrees hw.sound, fun hstage => ?_⟩
    rw [hlayered.stage] at hstage
    simp at hstage
  · exact ⟨_, rfl, congrArg some hstage₂.symm, hexpanded.agrees hlayered.mem_keys_iff,
      fun _ => hexpanded.standIns⟩
  · exact ⟨_, rfl, congrArg some (k.stage_ordered hw.sound).symm,
      hordered.agrees hlayered.mem_keys_iff, fun _ => hordered.standIns⟩
  · exact ⟨_, rfl, congrArg some hstage₄.symm, hpositioned.agrees hlayered.mem_keys_iff,
      fun _ => hpositioned.standIns⟩
  · refine ⟨_, rfl, rfl, ?_, fun hstage => ?_⟩
    · exact hreconstructed.agrees hpositioned.toSubdivided hlayered.mem_keys_iff
        fun e he => hlayered.ends hw.sound he
    · simp [Snapshot.withoutChains] at hstage

end

theorem draw_agrees_triangle : (∃ past, Reached triangle past) ∧
    ∃ s v, (draw wideConfig).perform triangle = (.ok s, v) ∧
      (trace wideConfig triangle).map Report.phase = Phase.all ∧
      (trace wideConfig triangle).getLast? = some ⟨.reconstruction, .ok s, v⟩ ∧
      ∀ r ∈ trace wideConfig triangle, ∃ t, r.outcome = .ok t ∧
        r.phase.expects.next? = some t.stage ∧ Agrees wideConfig triangle t r.workspace ∧
        (t.stage = .expanded ∨ t.stage = .ordered ∨ t.stage = .positioned →
          StandIns triangle t r.workspace) := by
  obtain ⟨past, hreached⟩ := reached_triangle
  obtain ⟨s, v, hdraw⟩ := exists_draw_triangle
  exact ⟨⟨past, hreached⟩, s, v, hdraw, draw_agrees hreached hdraw⟩

end LayeredDrawing
