import LayeredDrawing.Phase.Reconstruction
import LayeredDrawing.Proofs.Phase.Expansion
import LayeredDrawing.Proofs.Workspace.Cleaned

/-!
# What reconstruction does

Reconstruction undoes expansion: chain by chain, the hidden edge comes back with the positions of
the dummy nodes as its bends, and the dummy nodes leave with all their edges.  Chains that are still
in place are not touched, though they may share ends with the one that goes.

* `leads_bendAt`        one dummy node becomes a bend;
* `leads_restoreEdge`   one chain goes;
* `leads_restoreAll`    all chains go (`Restored`), which is never refused;
* `leads_restoreEdges`  the whole phase, refused only if a route cannot be cleaned.
-/

namespace LayeredDrawing

/-- what is left of a list of arcs when the edge of a chain is back and the dummy nodes are gone -/
def Chain.restore (C : Chain) (arcs : List Edge) : List Edge :=
  apartFrom C.nodes (Graph.placeArc C.edge arcs)

/-- the graph with all edges back, as compared with the graph `u` that had the chains -/
structure Restored {α : Type} (w u : Workspace α) (s : Snapshot) (v : Workspace α) : Prop where
  replaced : ∃ known, Replaced w [] [] [] known v
  arcs : v.graph.arcs = s.chains.values.foldl (fun arcs C => C.restore arcs) u.graph.arcs
  node : ∀ id, id ∉ s.dummyNodes → v.graph.nodes.get? id = u.graph.nodes.get? id
  route : ∀ C ∈ s.chains.values, (v.bends.get C.edge.slot).map some = C.nodes.map u.graph.position?
  kept : ∀ e ∈ w.graph.arcs, e ∉ s.chains.values.map Chain.edge →
    v.bends.get e.slot = u.bends.get e.slot

namespace Action

variable {α : Type} {w u v : Workspace α} {hidden edges known : List Edge} {nodes : List NodeId}
  {E : Fault → Workspace α → Prop}

theorem leads_bendAt {e : Edge} {id : NodeId}
    (h : Replaced w hidden (id :: nodes) edges known v) :
    (bendAt e id).Leads v
      (fun _ v' => Replaced w hidden nodes (apartFrom [id] edges) known v' ∧
        v'.graph.nodes = v.graph.nodes.erase id ∧ v'.graph.arcs = apartFrom [id] v.graph.arcs ∧
          ∃ p, v.graph.position? id = some p ∧
            v'.bends = v.bends.set e.slot (v.bends.get e.slot ++ [p])) E := by
  obtain ⟨n, hn⟩ := OrderedMap.exists_get?_of_mem (h.nodes_mem id List.mem_cons_self)
  have hbend := h.setBends e.slot (v.bends.get e.slot ++ [n.position])
  obtain ⟨g, hremove, hnodes, harcs, hreplaced⟩ := hbend.removeNode
  unfold bendAt
  refine leads_bind (leads_ask_ok (Graph.node_eq_ok_iff.2 hn) ?_)
  refine leads_bind (leads_of_perform_ok (perform_addBend e n.position v) ?_)
  refine leads_edit_ok hremove ⟨hreplaced, hnodes, harcs, n.position, ?_, rfl⟩
  rw [Graph.position?, hn]
  rfl

/-- the chain `C` goes: its edge is back, with the nodes `done` for bends, and the nodes `left` are
still there -/
structure Bending (w v : Workspace α) (C : Chain) (hidden : List Edge) (nodes : List NodeId)
    (edges known : List Edge) (done left : List NodeId) (u : Workspace α) : Prop where
  replaced : Replaced w hidden (left ++ nodes) (apartFrom done (C.edges ++ edges)) known u
  arcs : u.graph.arcs = apartFrom done (Graph.placeArc C.edge v.graph.arcs)
  node : ∀ id, id ∉ done → u.graph.nodes.get? id = v.graph.nodes.get? id
  fresh : C.edge.slot < u.bends.fresh
  route : (u.bends.get C.edge.slot).map some = done.map v.graph.position?
  kept : ∀ e ∈ known, e ≠ C.edge → u.bends.get e.slot = v.bends.get e.slot

section
variable {C : Chain}

theorem slot_ne_of_ne (h : v.Sound known) {a b : Edge} (ha : a ∈ known) (hb : b ∈ known)
    (hne : a ≠ b) : a.slot ≠ b.slot := fun heq => hne (h.slot_inj a ha b hb heq)

theorem bending_start {g : Graph α} (hknown : C.edge ∈ known) (hv : v.Sound known)
    (hnodes : g.nodes = v.graph.nodes) (harcs : g.arcs = Graph.placeArc C.edge v.graph.arcs)
    (h : Replaced w hidden (C.nodes ++ nodes) (C.edges ++ edges) known
      ⟨g, v.bends.set C.edge.slot []⟩) :
    Bending w v C hidden nodes edges known [] C.nodes ⟨g, v.bends.set C.edge.slot []⟩ where
  replaced := by
    rw [apartFrom_nil]
    exact h
  arcs := harcs.trans (apartFrom_nil _).symm
  node id _ := by
    show g.nodes.get? id = v.graph.nodes.get? id
    rw [hnodes]
  fresh := by
    rw [Bends.fresh_set]
    exact hv.slot_lt _ hknown
  route := by
    rw [Bends.get_set_self (hv.slot_lt _ hknown)]
    rfl
  kept e he hne := Bends.get_set_of_ne (slot_ne_of_ne hv he hknown hne) []

theorem Bending.leads_bendAt {done left : List NodeId} {id : NodeId}
    (h : Bending w v C hidden nodes edges known done (id :: left) u) (hknown : C.edge ∈ known)
    (hv : v.Sound known) (hid : id ∉ done) :
    (bendAt C.edge id).Leads u
      (fun _ u' => Bending w v C hidden nodes edges known (done ++ [id]) left u') E := by
  refine (Action.leads_bendAt h.replaced).imp fun _ u' hu' => ?_
  obtain ⟨hreplaced, hnodes, harcs, p, hp, hbends⟩ := hu'
  refine ⟨?_, ?_, fun j hj => ?_, ?_, ?_, fun e he hne => ?_⟩
  · rw [← apartFrom_snoc]
    exact hreplaced
  · rw [harcs, h.arcs, apartFrom_snoc]
  · rw [List.mem_append, List.mem_singleton, not_or] at hj
    rw [hnodes, OrderedMap.get?_erase_of_ne hj.2, h.node j hj.1]
  · rw [hbends, Bends.fresh_set]
    exact h.fresh
  · have hposition : v.graph.position? id = some p := by
      rw [← hp, Graph.position?, Graph.position?, h.node id hid]
    rw [hbends, Bends.get_set_self h.fresh, List.map_append, h.route, List.map_append,
      List.map_singleton, List.map_singleton, hposition]
  · rw [hbends, Bends.get_set_of_ne (slot_ne_of_ne hv he hknown hne)]
    exact h.kept e he hne

/-- the edges that touch the chain are the edges of the chain -/
theorem apartFrom_chain {layers : OrderedMap NodeId Int} (hC : C.Bridges layers)
    (hrest : ∀ d ∈ edges, d.source ∉ C.nodes ∧ d.target ∉ C.nodes) :
    apartFrom C.nodes (C.edges ++ edges) = edges := by
  have hgone : apartFrom C.nodes C.edges = [] := by
    refine List.filter_eq_nil_iff.2 fun d hd => ?_
    rcases hC.joins.touches hC.nonempty d hd with hs | ht
    · simp [hs]
    · simp [ht]
  have hkept : apartFrom C.nodes edges = edges := by
    refine List.filter_eq_self.2 fun d hd => ?_
    simp [(hrest d hd).1, (hrest d hd).2]
  calc apartFrom C.nodes (C.edges ++ edges)
      = apartFrom C.nodes C.edges ++ apartFrom C.nodes edges := List.filter_append ..
    _ = edges := by rw [hgone, hkept, List.nil_append]

/-- the nodes of the chain become the bends of its edge, and no other chain is touched -/
theorem leads_restoreEdge {layers : OrderedMap NodeId Int} (hC : C.Bridges layers)
    (h : Replaced w (C.edge :: hidden) (C.nodes ++ nodes) (C.edges ++ edges) known v)
    (hrest : ∀ d ∈ edges, d.source ∉ C.nodes ∧ d.target ∉ C.nodes) :
    (restoreEdge C).Leads v
      (fun _ u => Replaced w hidden nodes edges known u ∧ u.graph.arcs = C.restore v.graph.arcs ∧
        (∀ id, id ∉ C.nodes → u.graph.nodes.get? id = v.graph.nodes.get? id) ∧
        (u.bends.get C.edge.slot).map some = C.nodes.map v.graph.position? ∧
        ∀ e ∈ known, e ≠ C.edge → u.bends.get e.slot = v.bends.get e.slot) E := by
  obtain ⟨g, hattach, hnodes, harcs, hreplaced⟩ := h.reattach
  have hknown : C.edge ∈ known := h.known_of_mem _ (h.hidden_mem _ List.mem_cons_self)
  unfold restoreEdge
  refine leads_bind (leads_reattach_ok hattach ?_)
  refine Leads.imp (leads_forM C.nodes (Bending w v C hidden nodes edges known)
    (bending_start hknown h.sound hnodes harcs hreplaced) fun done id left u hall hu => ?_) fun _ u hu => ?_
  · have hnodup := (List.nodup_append.1 h.nodup).1
    rw [← hall] at hnodup
    have hid : id ∉ done := fun hid =>
      (List.nodup_append.1 hnodup).2.2 id hid id List.mem_cons_self rfl
    exact hu.leads_bendAt hknown h.sound hid
  · have hrestored := hu.replaced
    rw [List.nil_append, apartFrom_chain hC hrest] at hrestored
    exact ⟨hrestored, hu.arcs, hu.node, hu.route, hu.kept⟩

end

/-! ## all chains -/

/-- the edges of a chain keep clear of the nodes of the others -/
theorem apart_of_bridges {C D : Chain} {layers : OrderedMap NodeId Int} (hD : D.Bridges layers)
    (hbase : ∀ id ∈ C.nodes, id ∉ w.graph.nodeIds) (hends : D.edge.source ∈ w.graph.nodeIds ∧
      D.edge.target ∈ w.graph.nodeIds) (hdisjoint : ∀ id ∈ C.nodes, id ∉ D.nodes) :
    ∀ d ∈ D.edges, d.source ∉ C.nodes ∧ d.target ∉ C.nodes := by
  have hnot (id : NodeId) (hid : id ∈ D.edge.source :: (D.nodes ++ [D.edge.target])) :
      id ∉ C.nodes := by
    intro hc
    rcases List.mem_cons.1 hid with rfl | hid
    · exact hbase _ hc hends.1
    · rcases List.mem_append.1 hid with hid | hid
      · exact hdisjoint id hc hid
      · rw [List.mem_singleton.1 hid] at hc
        exact hbase _ hc hends.2
  intro d hd
  obtain ⟨hs, ht⟩ := hD.joins.mem_ends hd
  exact ⟨hnot _ hs, hnot _ ht⟩

/-- the chains `done` are gone, and the chains `left` are as in `u` -/
structure Restoring (w u : Workspace α) (known : List Edge) (done left : List Chain)
    (v : Workspace α) : Prop where
  replaced : Replaced w (left.map Chain.edge) (left.flatMap Chain.nodes) (left.flatMap Chain.edges)
    known v
  arcs : v.graph.arcs = done.foldl (fun arcs C => C.restore arcs) u.graph.arcs
  node : ∀ id, id ∉ done.flatMap Chain.nodes → v.graph.nodes.get? id = u.graph.nodes.get? id
  route : ∀ C ∈ done, (v.bends.get C.edge.slot).map some = C.nodes.map u.graph.position?
  kept : ∀ e ∈ known, e ∉ done.map Chain.edge → v.bends.get e.slot = u.bends.get e.slot

theorem Restoring.leads_restoreEdge {layers : OrderedMap NodeId Int} {C : Chain}
    {done left : List Chain} (h : Restoring w u known done (C :: left) v)
    (hbridges : ∀ D ∈ C :: left, D.Bridges layers) (hdone : ∀ D ∈ done, D.edge ∈ known)
    (hedges : C.edge ∉ done.map Chain.edge)
    (hnodes : ((done ++ C :: left).flatMap Chain.nodes).Nodup) :
    (restoreEdge C).Leads v (fun _ v' => Restoring w u known (done ++ [C]) left v') E := by
  rw [List.flatMap_append, List.flatMap_cons, List.nodup_append] at hnodes
  obtain ⟨_, hleft, hdisjoint⟩ := hnodes
  have hrest : ∀ d ∈ left.flatMap Chain.edges, d.source ∉ C.nodes ∧ d.target ∉ C.nodes := by
    intro d hd
    obtain ⟨D, hD, hd⟩ := List.mem_flatMap.1 hd
    have harc : D.edge ∈ w.graph.arcs :=
      h.replaced.hidden_mem _ (List.mem_map_of_mem (List.mem_cons_of_mem _ hD))
    refine apart_of_bridges (hbridges D (List.mem_cons_of_mem _ hD)) (fun id hid => ?_)
      ⟨h.replaced.base.source_mem _ harc, h.replaced.base.target_mem _ harc⟩ (fun id hid hid' => ?_) d hd
    · exact h.replaced.not_mem_base (List.mem_append_left _ hid)
    · exact (List.nodup_append.1 hleft).2.2 id hid id (List.mem_flatMap.2 ⟨D, hD, hid'⟩) rfl
  refine (Action.leads_restoreEdge (hbridges C List.mem_cons_self) h.replaced hrest).imp
    fun _ v' hv' => ?_
  obtain ⟨hreplaced, harcs, hnode, hroute, hkept⟩ := hv'
  refine ⟨hreplaced, ?_, fun id hid => ?_, fun D hD => ?_, fun e he hn => ?_⟩
  · rw [harcs, h.arcs, List.foldl_append]
    rfl
  · rw [List.flatMap_append, List.flatMap_singleton, List.mem_append, not_or] at hid
    rw [hnode id hid.2, h.node id hid.1]
  · rcases List.mem_append.1 hD with hD | hD
    · have hne : D.edge ≠ C.edge := fun heq => hedges (heq ▸ List.mem_map_of_mem hD)
      rw [hkept D.edge (hdone D hD) hne]
      exact h.route D hD
    · rw [List.mem_singleton.1 hD, hroute]
      refine List.map_congr_left fun id hid => ?_
      rw [Graph.position?, Graph.position?, h.node id]
      exact fun hid' => hdisjoint id hid' id (List.mem_append_left _ hid) rfl
  · rw [List.map_append, List.mem_append, not_or, List.map_singleton, List.mem_singleton] at hn
    rw [hkept e he hn.2, h.kept e he hn.1]

theorem leads_restoreAll [Scalar α] {c : Config α} {table : OrderedMap NodeId Int} {s : Snapshot}
    (h : Subdivided c w table s u) :
    (s.chains.values.forM restoreEdge).Leads u (fun _ v => Restored w u s v) E := by
  obtain ⟨known, hexp⟩ := h.expanding
  have hstart : Restoring w u known [] s.chains.values u :=
    ⟨hexp.replaced, rfl, fun _ _ => rfl, fun C hC => (List.not_mem_nil hC).elim, fun _ _ _ => rfl⟩
  refine Leads.imp (leads_forM s.chains.values (Restoring w u known) hstart
    fun done C left v hall hv => ?_) fun _ v hv => ?_
  · have hmem {D : Chain} (hD : D ∈ done ++ C :: left) : D ∈ s.chains.values := hall ▸ hD
    refine hv.leads_restoreEdge (fun D hD => h.bridges D (hmem (List.mem_append_right _ hD)))
      (fun D hD => ?_) ?_ ?_
    · exact hexp.replaced.known_of_mem _ (h.mem_arcs (hmem (List.mem_append_left _ hD)))
    · have hnodup := h.nodup_hidden
      rw [← hall, List.map_append, List.map_cons] at hnodup
      exact fun hin => (List.nodup_append.1 hnodup).2.2 _ hin _ List.mem_cons_self rfl
    · rw [hall]
      exact hexp.replaced.nodup
  · exact ⟨⟨known, hv.replaced⟩, hv.arcs, hv.node, hv.route,
      fun e he hn => hv.kept e (hexp.replaced.known_of_mem e he) hn⟩

end Action

section
variable {α : Type} [Scalar α] {c : Config α} {w u v : Workspace α} {table : OrderedMap NodeId Int}
  {s : Snapshot} {e : Edge} (hr : Restored w u s v) (h : Expanded c w table s u)
include hr h

/-- an edge to the next layer has the bends that it had -/
theorem Restored.bends_of_short (he : e ∈ w.graph.shortArcs table) :
    v.bends.get e.slot = w.bends.get e.slot := by
  obtain ⟨known, hexp⟩ := h.expanding
  obtain ⟨hmem, hnext⟩ := List.mem_filter.1 he
  rw [hr.kept e hmem fun hin => (h.hidden_iff hmem).1 hin (of_decide_eq_true hnext)]
  exact hexp.bends e hmem

/-- the bends of any other edge are where its dummy nodes were -/
theorem Restored.bends_of_long (he : e ∈ w.graph.longArcs table) :
    (v.bends.get e.slot).map some = (e.detour table).map u.graph.position? := by
  rw [← h.hidden_eq] at he
  obtain ⟨C, hC, rfl⟩ := List.mem_map.1 he
  rw [hr.route C hC, h.nodes_eq_detour hC]

end

/-! ## the whole phase -/

/-- the tables without what the chains put into them -/
def Snapshot.withoutChains (s : Snapshot) : Snapshot :=
  { s with
    stage := .reconstructed
    layers := s.layers.filter fun id => !s.dummyNodes.contains id
    arrangement := s.arrangement.map fun layer => layer.filter fun id => !s.dummyNodes.contains id
    chains := ∅ }

section
variable {α : Type} [Scalar α] {c : Config α} {w v : Workspace α} {table : OrderedMap NodeId Int}
  {s : Snapshot} (h : Subdivided c w table s v)
include h

theorem Subdivided.layers_withoutChains : s.withoutChains.layers = table := by
  obtain ⟨known, hexp⟩ := h.expanding
  rw [← hexp.table]
  show s.layers.filter (fun id => !s.dummyNodes.contains id) = _
  exact OrderedMap.filter_congr fun id _ => by simp

theorem Subdivided.filed_withoutChains : Filed table s.withoutChains.arrangement := by
  obtain ⟨known, hexp⟩ := h.expanding
  have hfiled := hexp.filed.filter fun id => !s.dummyNodes.contains id
  have htable : s.layers.filter (fun id => !s.dummyNodes.contains id) = table :=
    h.layers_withoutChains
  rw [htable] at hfiled
  exact hfiled

end

/-- the graph with all edges back, and their routes cleaned if configured -/
structure Reconstructed {α : Type} [Metric α] (c : Config α) (w u : Workspace α) (s : Snapshot)
    (v : Workspace α) : Prop where
  restored : ∃ v₁, Restored w u s v₁ ∧ v.graph = v₁.graph ∧ (c.cleanBends = false → v = v₁) ∧
    (c.cleanBends = true → ∀ e ∈ v₁.graph.arcs, CleanedAt c.tolerance v₁ v e)

namespace Action

/-- the last phase, after the fourth -/
theorem leads_restoreEdges {α : Type} [Metric α] {c : Config α} {w u : Workspace α}
    {table : OrderedMap NodeId Int} {s : Snapshot} (hstage : s.stage = .positioned)
    (h : Subdivided c w table s u) :
    (restoreEdges c s).Leads u
      (fun s' v => s' = s.withoutChains ∧ Reconstructed c w u s v)
      fun fault _ => fault = .divisionByZero ∧ c.cleanBends = true ∧ ∃ v₁, Restored w u s v₁ ∧
        ∃ e ∈ v₁.graph.arcs, UncleanAt c.tolerance v₁ e := by
  unfold restoreEdges
  refine leads_bind (leads_check_ok (Snapshot.requireStage_eq_ok_iff.2 hstage) ?_)
  refine leads_bind ((leads_restoreAll h).imp fun _ v₁ hv₁ => ?_)
  dsimp only
  by_cases hclean : c.cleanBends = true
  · rw [if_pos hclean]
    obtain ⟨known, hreplaced⟩ := hv₁.replaced
    refine leads_bind (leads_discard ((leads_cleanRoutes_cleaned hreplaced.sound).mono
      (fun _ v hv => leads_pure ⟨rfl, v₁, hv₁, hv.1.graph, fun hnot => ?_, fun _ e he =>
        hv.1.cleaned e (hreplaced.sound.coherent.mem_edges.2 he)⟩)
      fun _ _ hunclean => ⟨hunclean.1, hclean, v₁, hv₁, hunclean.2⟩))
    rw [hclean] at hnot
    cases hnot
  · rw [if_neg hclean]
    exact leads_pure ⟨rfl, v₁, hv₁, rfl, fun _ => rfl, fun hyes => absurd hyes hclean⟩

end Action

end LayeredDrawing
