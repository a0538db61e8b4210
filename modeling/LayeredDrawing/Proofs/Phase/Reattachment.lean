import LayeredDrawing.Proofs.Phase.Expanded
import LayeredDrawing.Proofs.Phase.Reconstruction
import LayeredDrawing.Proofs.Workspace.Grouped

/-!
# Where restored edges end up

Edges to the next layer keep their places in the list of arcs.  Each hidden edge comes back at the end
of the list, behind the hidden edges before it: the edges parallel to it, if there are any, have been
hidden with it and stand together.

* `Expanded.placeArc_eq`, `Expanded.restore`   one edge comes back, and its chain goes;
* `Restored.arcs_eq`      the arcs when all edges are back.
-/

namespace LayeredDrawing

variable {α : Type} [Scalar α]

theorem apartFrom_eq_self {ids : List NodeId} {l : List Edge}
    (h : ∀ e ∈ l, e.source ∉ ids ∧ e.target ∉ ids) : apartFrom ids l = l :=
  List.filter_eq_self.2 fun e he => by simp [h e he]

section
variable {c : Config α} {w u v : Workspace α} {table : OrderedMap NodeId Int} {s : Snapshot}
  (h : Expanded c w table s u)
include h

/-- all edges of the graph lead to the next layer, and no hidden edge does -/
theorem Expanded.not_parallel {a : Edge} (ha : a ∈ u.graph.arcs) {C : Chain}
    (hC : C ∈ s.chains.values) : ¬ a.parallel C.edge = true := by
  intro hparallel
  obtain ⟨hs, ht⟩ := Edge.parallel_iff.1 hparallel
  obtain ⟨known, hexp⟩ := h.expanding
  have hmem := h.mem_arcs hC
  obtain ⟨layer, hlower, hupper⟩ := h.nextLayer ha
  rw [hs, hexp.get?_eq (hexp.replaced.base.source_mem _ hmem)] at hlower
  rw [ht, hexp.get?_eq (hexp.replaced.base.target_mem _ hmem)] at hupper
  exact (h.hidden_iff hmem).1 (List.mem_map_of_mem hC) ⟨layer, hlower, hupper⟩

theorem Expanded.key_ne {a : Edge} (ha : a ∈ u.graph.arcs) {C : Chain} (hC : C ∈ s.chains.values) :
    a.key ≠ C.edge.key := by
  obtain ⟨known, hexp⟩ := h.expanding
  intro hkey
  have heq := hexp.replaced.sound.key_inj a (hexp.replaced.sound.known_of_mem a ha) C.edge
    (hexp.replaced.known_of_mem _ (h.mem_arcs hC)) hkey
  exact (hexp.replaced.mem_arcs_iff.1 ha).2 (heq ▸ List.mem_map_of_mem hC)

/-- while the edges of `done` are back, the next one finds its place at the end -/
theorem Expanded.placeArc_eq (hgrouped : Grouped w.graph.arcs) {done left : List Chain} {C : Chain}
    (hall : done ++ C :: left = s.chains.values) :
    Graph.placeArc C.edge
        (w.graph.shortArcs table ++ (C :: left).flatMap Chain.edges ++ done.map Chain.edge)
      = w.graph.shortArcs table ++ (C :: left).flatMap Chain.edges ++ done.map Chain.edge
          ++ [C.edge] := by
  have hmem {D : Chain} (hD : D ∈ done ++ C :: left) : D ∈ s.chains.values := hall ▸ hD
  have hC := hmem (List.mem_append_right _ List.mem_cons_self)
  have hsplit : done.map Chain.edge ++ C.edge :: left.map Chain.edge
      = s.chains.values.map Chain.edge := by
    rw [← hall, List.map_append, List.map_cons]
  have hactive {a : Edge} (ha : a ∈ w.graph.shortArcs table ++ (C :: left).flatMap Chain.edges) :
      a ∈ u.graph.arcs := by
    rw [h.arcs_eq, List.mem_append]
    refine (List.mem_append.1 ha).imp_right fun ha => ?_
    obtain ⟨D, hD, ha⟩ := List.mem_flatMap.1 ha
    exact List.mem_flatMap.2 ⟨D, hmem (List.mem_append_right _ hD), ha⟩
  rw [Graph.placeArc_eq_insertArc, Graph.insertArc_eq_append]
  · intro a ha hparallel
    rcases List.mem_append.1 ha with ha | ha
    · exact absurd hparallel (h.not_parallel (hactive ha) hC)
    · have hlong : Grouped (s.chains.values.map Chain.edge) := by
        rw [h.hidden_eq]
        exact (Graph.grouped_edges hgrouped).sublist List.filter_sublist
      have hprefix : Grouped (done.map Chain.edge ++ [C.edge]) := by
        refine hlong.sublist ?_
        rw [← hsplit]
        exact (List.Sublist.refl _).append ((List.nil_sublist _).cons_cons C.edge)
      obtain ⟨x, hx, hxC⟩ := hprefix.parallel_last ha hparallel
      exact ⟨x, by rw [List.getLast?_append, hx]; rfl, hxC⟩
  · intro a ha hkey
    rcases List.mem_append.1 ha with ha | ha
    · exact h.key_ne (hactive ha) hC hkey
    · obtain ⟨known, hexp⟩ := h.expanding
      obtain ⟨D, hD, rfl⟩ := List.mem_map.1 ha
      have heq := hexp.replaced.base.eq_of_key (h.mem_arcs (hmem (List.mem_append_left _ hD)))
        (h.mem_arcs hC) hkey
      have hnodup := h.nodup_hidden
      rw [← hsplit] at hnodup
      exact (List.nodup_append.1 hnodup).2.2 _ (List.mem_map_of_mem hD) _ List.mem_cons_self heq

/-- one more edge is back, and its chain is gone -/
theorem Expanded.restore (hgrouped : Grouped w.graph.arcs) {done left : List Chain} {C : Chain}
    (hall : done ++ C :: left = s.chains.values) :
    C.restore (w.graph.shortArcs table ++ (C :: left).flatMap Chain.edges ++ done.map Chain.edge)
      = w.graph.shortArcs table ++ left.flatMap Chain.edges ++ (done ++ [C]).map Chain.edge := by
  obtain ⟨known, hexp⟩ := h.expanding
  have hmem {D : Chain} (hD : D ∈ done ++ C :: left) : D ∈ s.chains.values := hall ▸ hD
  have hC := hmem (List.mem_append_right _ List.mem_cons_self)
  have hnodup : ((done ++ C :: left).flatMap Chain.nodes).Nodup := by
    rw [hall]
    exact hexp.replaced.nodup
  rw [List.flatMap_append, List.flatMap_cons] at hnodup
  have hdisjoint := (List.nodup_append.1 (List.nodup_append.1 hnodup).2.1).2.2
  have hbase {e : Edge} (he : e ∈ w.graph.arcs) : e.source ∉ C.nodes ∧ e.target ∉ C.nodes := by
    have hnot {id : NodeId} (hid : id ∈ C.nodes) : id ∉ w.graph.nodeIds :=
      hexp.replaced.not_mem_base (List.mem_flatMap.2 ⟨C, hC, hid⟩)
    exact ⟨fun hs => hnot hs (hexp.replaced.base.source_mem e he),
      fun ht => hnot ht (hexp.replaced.base.target_mem e he)⟩
  have hshort : apartFrom C.nodes (w.graph.shortArcs table) = w.graph.shortArcs table :=
    apartFrom_eq_self fun e he => hbase (List.mem_filter.1 he).1
  have hback : apartFrom C.nodes (done.map Chain.edge ++ [C.edge]) = done.map Chain.edge ++ [C.edge] := by
    refine apartFrom_eq_self fun e he => ?_
    rcases List.mem_append.1 he with he | he
    · obtain ⟨D, hD, rfl⟩ := List.mem_map.1 he
      exact hbase (h.mem_arcs (hmem (List.mem_append_left _ hD)))
    · rw [List.mem_singleton.1 he]
      exact hbase (h.mem_arcs hC)
  have hrest : ∀ d ∈ left.flatMap Chain.edges, d.source ∉ C.nodes ∧ d.target ∉ C.nodes := by
    intro d hd
    obtain ⟨D, hD, hd⟩ := List.mem_flatMap.1 hd
    have hDmem := hmem (List.mem_append_right _ (List.mem_cons_of_mem _ hD))
    refine Action.apart_of_bridges (h.bridges D hDmem)
      (fun id hid => hexp.replaced.not_mem_base (List.mem_flatMap.2 ⟨C, hC, hid⟩))
      ⟨hexp.replaced.base.source_mem _ (h.mem_arcs hDmem),
        hexp.replaced.base.target_mem _ (h.mem_arcs hDmem)⟩ (fun id hid hid' => ?_) d hd
    exact hdisjoint id hid id (List.mem_flatMap.2 ⟨D, hD, hid'⟩) rfl
  have happend (l m : List Edge) :
      apartFrom C.nodes (l ++ m) = apartFrom C.nodes l ++ apartFrom C.nodes m := List.filter_append ..
  rw [Chain.restore, h.placeArc_eq hgrouped hall, List.append_assoc _ _ [C.edge], happend, happend,
    hback, hshort, List.flatMap_cons, Action.apartFrom_chain (h.bridges C hC) hrest, List.map_append]
  rfl

end

theorem Restored.arcs_eq {c : Config α} {w u v : Workspace α} {table : OrderedMap NodeId Int}
    {s : Snapshot} (hr : Restored w u s v) (h : Expanded c w table s u)
    (hgrouped : Grouped w.graph.arcs) :
    v.graph.arcs = w.graph.shortArcs table ++ w.graph.longArcs table := by
  have hrest (left : List Chain) : ∀ done, done ++ left = s.chains.values →
      left.foldl (fun arcs C => C.restore arcs)
          (w.graph.shortArcs table ++ left.flatMap Chain.edges ++ done.map Chain.edge)
        = w.graph.shortArcs table ++ s.chains.values.map Chain.edge := by
    induction left with
    | nil =>
      intro done hall
      rw [List.append_nil] at hall
      rw [List.foldl_nil, List.flatMap_nil, List.append_nil, hall]
    | cons C left ih =>
      intro done hall
      rw [List.foldl_cons, h.restore hgrouped hall]
      exact ih (done ++ [C]) (by rw [List.append_assoc, List.singleton_append, hall])
  have hall := hrest s.chains.values [] rfl
  rw [List.map_nil, List.append_nil] at hall
  rw [hr.arcs, h.arcs_eq]
  exact hall.trans (by rw [h.hidden_eq])

end LayeredDrawing
