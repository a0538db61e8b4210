import LayeredDrawing.Proofs.Phase.Expanded
import LayeredDrawing.Proofs.Phase.Ordering
import LayeredDrawing.Proofs.Workspace.Shifted

/-!
# Expansion as a subdivision

Expansion puts as many dummy nodes on each edge as there are layers between its ends, and does nothing
else: without the dummy nodes, the graph, the table and the lists are what they were, and with the
hidden edges in the places of their chains, so are the edges.

* `Chain.contract`, `Snapshot.contract`   hidden edges in the places of their chains;
* `Chain.StandsFor`        what the chain of a long edge is like;
* `Subdivision`            what a graph and its snapshot are like when all long edges are subdivided;
* `Expanded.subdivision`   expansion leaves them so;
* `Subdivision.shifted`    wherever the nodes stand.
-/

namespace LayeredDrawing

/-! ## contraction -/

/-- the hidden edge in the place of the edges of its chain -/
def Chain.contract (C : Chain) (edges : List Edge) : List Edge :=
  C.edge :: edges.filter fun e => decide (e ∉ C.edges)

/-- all hidden edges in the places of their chains -/
def Snapshot.contract (s : Snapshot) (edges : List Edge) : List Edge :=
  s.chains.values.foldr Chain.contract edges

theorem foldr_contract {chains : List Chain} (h : ∀ C ∈ chains, ∀ D ∈ chains, C.edge ∉ D.edges)
    (edges : List Edge) : chains.foldr Chain.contract edges = chains.map Chain.edge
      ++ edges.filter fun e => decide (e ∉ chains.flatMap Chain.edges) := by
  induction chains with
  | nil => exact (List.filter_eq_self.2 fun _ _ => decide_eq_true List.not_mem_nil).symm
  | cons C chains ih =>
    have hrest := ih fun D hD E hE => h D (List.mem_cons_of_mem C hD) E (List.mem_cons_of_mem C hE)
    have hkept : (chains.map Chain.edge).filter (fun e => decide (e ∉ C.edges))
        = chains.map Chain.edge := by
      refine List.filter_eq_self.2 fun e he => decide_eq_true ?_
      obtain ⟨D, hD, rfl⟩ := List.mem_map.1 he
      exact h D (List.mem_cons_of_mem C hD) C List.mem_cons_self
    rw [List.foldr_cons, hrest, Chain.contract, List.filter_append, hkept, List.filter_filter,
      List.map_cons, List.cons_append]
    congr 2
    refine List.filter_congr fun e _ => ?_
    rw [List.flatMap_cons, ← Bool.decide_and, decide_eq_decide, List.mem_append, not_or]

/-! ## subdivided edges -/

section
variable {α : Type}

/-- the chain leads from layer `a` across `span` layers in the place of the edge, by dummy nodes that
are named after it -/
structure Chain.StandsFor (C : Chain) (e : Edge) (a : Int) (span : Nat) (t : Snapshot) (g : Graph α) :
    Prop where
  edge : C.edge = e
  nodes : C.nodes = dummies e.key (span - 1)
  layer : ∀ (i : Nat) (id : NodeId), C.nodes[i]? = some id → t.layers.get? id = some (a + i + 1)
  dummy : ∀ id ∈ C.nodes, ∃ n, g.nodes.get? id = some n ∧ n.isDummy = true ∧
    t.layers.get? id = some n.layer
  length : C.edges.length = span
  path : C.edges.map Edge.ends = (e.source :: C.nodes).zip (C.nodes ++ [e.target])
  active : ∀ d ∈ C.edges, d ∈ g.edges
  inactive : e ∉ g.edges ∧ g.hasEdge e = false

/-- all edges of `w` across more than one layer, by the table of `s`, are subdivided in `u` -/
structure Subdivision (w : Workspace α) (s t : Snapshot) (u : Workspace α) : Prop where
  edge : ∀ e ∈ w.graph.edges, ∃ (a : Int) (span : Nat), s.layers.get? e.source = some a ∧
    s.layers.get? e.target = some (a + span) ∧ 1 ≤ span ∧
    (span = 1 → e ∈ u.graph.edges ∧ t.chains.get? e.key = none) ∧
    (1 < span → ∃ C, t.chains.get? e.key = some C ∧ C.StandsFor e a span t u.graph)
  hidden : t.chains.values.map Chain.edge = w.graph.longArcs s.layers
  bends : ∀ e ∈ w.graph.edges, u.bends.get e.slot = w.bends.get e.slot
  nodes : u.graph.nodeIds.filter (fun id => decide (id ∉ t.dummyNodes)) = w.graph.nodeIds
  dummies : t.dummyNodes.Nodup ∧ ∀ id ∈ t.dummyNodes, id ∈ u.graph.nodeIds ∧ id ∉ w.graph.nodeIds
  edges : u.graph.edges.Perm
    ((w.graph.edges.filter fun e => decide (NextLayer s.layers e.source e.target)) ++ t.dummyEdges)
  degree : ∀ id ∈ t.dummyNodes, (∃ d, u.graph.inEdges id = [d]) ∧ ∃ e, u.graph.outEdges id = [e]
  span : ∀ e ∈ u.graph.edges, span? t.layers e = .ok 1
  unitSpans : requireUnitSpans u.graph t = .ok ()
  table : t.layers.filter (fun id => decide (id ∉ t.dummyNodes)) = s.layers
  listed : ∀ id ∈ t.dummyNodes, ∃ (i : Nat) (l : List NodeId), t.layers.get? id = some (i : Int) ∧
    t.arrangement[i]? = some l ∧ id ∈ l
  listedOnce : t.arrangement.flatten.Nodup
  unlisted : t.arrangement.map (List.filter fun id => decide (id ∉ t.dummyNodes)) = s.arrangement
  contract : (t.contract u.graph.edges).Perm w.graph.edges

end

section
variable {α : Type} [Scalar α] {c : Config α} {w u : Workspace α} {table : OrderedMap NodeId Int}
  {t : Snapshot} (h : Expanded c w table t u)
include h

theorem Expanded.get?_chain {C : Chain} (hC : C ∈ t.chains.values) :
    t.chains.get? C.edge.key = some C := by
  obtain ⟨key, hget⟩ := OrderedMap.mem_values_iff.1 hC
  rw [h.chain_key key C hget]
  exact hget

theorem Expanded.nodup_dummyNodes : t.dummyNodes.Nodup := by
  obtain ⟨_, hexp⟩ := h.expanding
  exact hexp.replaced.nodup

theorem Expanded.dummy_not_mem_base {id : NodeId} (hid : id ∈ t.dummyNodes) : id ∉ w.graph.nodeIds := by
  obtain ⟨_, hexp⟩ := h.expanding
  exact hexp.replaced.not_mem_base hid

theorem Expanded.mem_edges {e : Edge} : e ∈ u.graph.edges ↔ e ∈ u.graph.arcs := by
  obtain ⟨_, hexp⟩ := h.expanding
  exact hexp.replaced.sound.coherent.mem_edges

theorem Expanded.standsFor {C : Chain} (hC : C ∈ t.chains.values) {a : Int} {span : Nat}
    (ha : table.get? C.edge.source = some a) (hb : table.get? C.edge.target = some (a + span)) :
    C.StandsFor C.edge a span t u.graph := by
  obtain ⟨known, hexp⟩ := h.expanding
  have hbridges := h.bridges C hC
  have harc := h.mem_arcs hC
  have hsource := hexp.extends _ _ ha
  have hspan : C.nodes.length + 1 = span := by
    have hlast := (hbridges.layer_target hsource).symm.trans (hexp.extends _ _ hb)
    have hsum := Option.some.inj hlast
    omega
  have hinactive : C.edge ∉ u.graph.arcs := fun he =>
    (hexp.replaced.mem_arcs_iff.1 he).2 (List.mem_map_of_mem hC)
  refine ⟨rfl, ?_, fun i id hid => hbridges.layer_node hsource hid, fun id hid => ?_, ?_, ?_,
    fun d hd => ?_, fun he => hinactive (h.mem_edges.1 he), ?_⟩
  · rw [← hspan, Nat.add_sub_cancel]
    exact hbridges.nodes_eq
  · have hdummy : id ∈ t.dummyNodes := List.mem_flatMap.2 ⟨C, hC, hid⟩
    have houtline := hexp.dummies id hdummy
    rw [Graph.outline, OrderedMap.get?_mapValues, Option.map_eq_some_iff] at houtline
    obtain ⟨n, hn, hflag⟩ := houtline
    exact ⟨n, hn, congrArg (fun o => o.2.2) hflag, (hexp.placed id n hn).1⟩
  · have hlength := congrArg List.length hbridges.joins.map_target
    rw [List.length_map, List.length_append, List.length_singleton] at hlength
    omega
  · rw [← hbridges.joins.map_source, ← hbridges.joins.map_target, List.zip_map']
    rfl
  · rw [h.mem_edges, h.arcs_eq]
    exact List.mem_append_right _ (List.mem_flatMap.2 ⟨C, hC, hd⟩)
  · rw [← Bool.not_eq_true, hexp.replaced.sound.hasEdge_iff (hexp.replaced.known_of_mem _ harc)]
    exact hinactive

/-- a short edge stays, and a long one is hidden behind a chain -/
theorem Expanded.exists_span {e : Edge} (he : e ∈ w.graph.arcs) {a b : Int}
    (ha : table.get? e.source = some a) (hb : table.get? e.target = some b) (hab : a < b) :
    ∃ (a : Int) (span : Nat), table.get? e.source = some a ∧ table.get? e.target = some (a + span) ∧
      1 ≤ span ∧ (span = 1 → e ∈ u.graph.edges ∧ t.chains.get? e.key = none) ∧
      (1 < span → ∃ C, t.chains.get? e.key = some C ∧ C.StandsFor e a span t u.graph) := by
  obtain ⟨known, hexp⟩ := h.expanding
  have hspan : a + ((b - a).toNat : Int) = b := by omega
  refine ⟨a, (b - a).toNat, ha, by rw [hspan]; exact hb, by omega, fun hone => ?_, fun hlong => ?_⟩
  · have hnot : e ∉ t.chains.values.map Chain.edge := by
      rw [h.hidden_iff he, not_not, nextLayer_iff ha hb]
      omega
    refine ⟨h.mem_edges.2 (hexp.replaced.mem_arcs_iff.2 ⟨.inl he, hnot⟩), ?_⟩
    exact OrderedMap.get?_eq_none_iff.2 (h.key_not_mem he hnot)
  · obtain ⟨C, hC, rfl, _⟩ := h.exists_chain he ha hb (by omega)
    exact ⟨C, h.get?_chain hC, h.standsFor hC ha (by rw [hspan]; exact hb)⟩

/-- as many edges start at a dummy node as it stands in chains, and as many end there -/
theorem Expanded.length_filter_eq_one {id : NodeId} (hid : id ∈ t.dummyNodes) {f : Edge → NodeId}
    (hbase : ∀ e ∈ w.graph.arcs, f e ∈ w.graph.nodeIds)
    (hchain : ∀ C ∈ t.chains.values, (C.edges.map f).filter (fun j => decide (j = id))
      = C.nodes.filter fun j => decide (j = id)) :
    (u.graph.arcs.filter fun e => decide (f e = id)).length = 1 := by
  have hshort : (w.graph.shortArcs table).filter (fun e => decide (f e = id)) = [] := by
    refine List.filter_eq_nil_iff.2 fun e he heq => h.dummy_not_mem_base hid ?_
    rw [← of_decide_eq_true heq]
    exact hbase e (List.mem_filter.1 he).1
  have hdummies : (t.dummyEdges.filter fun e => decide (f e = id)).length
      = (t.dummyNodes.filter fun j => decide (j = id)).length := by
    have hmap : (t.dummyEdges.map f).filter (fun j => decide (j = id))
        = t.dummyNodes.filter fun j => decide (j = id) := by
      rw [Snapshot.dummyEdges, Snapshot.dummyNodes, List.map_flatMap, List.filter_flatMap,
        List.filter_flatMap]
      exact List.flatMap_congr hchain
    rw [← hmap, List.filter_map, List.length_map]
    rfl
  rw [h.arcs_eq, List.filter_append, hshort, List.nil_append, hdummies, ← List.countP_eq_length_filter]
  exact List.count_eq_one_of_mem h.nodup_dummyNodes hid

theorem Expanded.degree {id : NodeId} (hid : id ∈ t.dummyNodes) :
    (∃ d, u.graph.inEdges id = [d]) ∧ ∃ e, u.graph.outEdges id = [e] := by
  obtain ⟨known, hexp⟩ := h.expanding
  have hbase := hexp.replaced.base
  have hne {j : NodeId} (hj : j ∈ w.graph.nodeIds) : ¬ decide (j = id) = true := fun heq =>
    h.dummy_not_mem_base hid (of_decide_eq_true heq ▸ hj)
  constructor
  · refine List.length_eq_one_iff.1 (h.length_filter_eq_one hid hbase.target_mem fun C hC => ?_)
    rw [(h.bridges C hC).joins.map_target, List.filter_append, List.filter_cons,
      if_neg (hne (hbase.target_mem _ (h.mem_arcs hC))), List.filter_nil, List.append_nil]
  · refine List.length_eq_one_iff.1 (h.length_filter_eq_one hid hbase.source_mem fun C hC => ?_)
    rw [(h.bridges C hC).joins.map_source, List.filter_cons,
      if_neg (hne (hbase.source_mem _ (h.mem_arcs hC)))]

theorem Expanded.perm_edges : u.graph.edges.Perm
    ((w.graph.edges.filter fun e => decide (NextLayer table e.source e.target)) ++ t.dummyEdges) := by
  obtain ⟨known, hexp⟩ := h.expanding
  refine hexp.replaced.sound.coherent.perm_edges.trans ?_
  rw [h.arcs_eq]
  exact (hexp.replaced.base.perm_edges.symm.filter _).append_right _

/-- contracted, the chains give the hidden edges back -/
theorem Expanded.contract_perm : (t.contract u.graph.edges).Perm w.graph.edges := by
  obtain ⟨known, hexp⟩ := h.expanding
  have hapart {e : Edge} (he : e ∈ w.graph.arcs) : e ∉ t.dummyEdges := fun hd =>
    (List.nodup_append.1 hexp.replaced.nodup_arcs).2.2 e he e hd rfl
  have hcontract : t.contract u.graph.edges = t.chains.values.map Chain.edge
      ++ u.graph.edges.filter fun e => decide (e ∉ t.dummyEdges) :=
    foldr_contract (fun C hC D hD hin => hapart (h.mem_arcs hC) (List.mem_flatMap.2 ⟨D, hD, hin⟩)) _
  have hshort : ((w.graph.edges.filter fun e => decide (NextLayer table e.source e.target))
        ++ t.dummyEdges).filter (fun e => decide (e ∉ t.dummyEdges))
      = w.graph.edges.filter fun e => decide (NextLayer table e.source e.target) := by
    have hnone : t.dummyEdges.filter (fun e => decide (e ∉ t.dummyEdges)) = [] :=
      List.filter_eq_nil_iff.2 fun e he hnot => of_decide_eq_true hnot he
    rw [List.filter_append, hnone, List.append_nil]
    exact List.filter_eq_self.2 fun e he => decide_eq_true
      (hapart (hexp.replaced.base.mem_edges.1 (List.mem_filter.1 he).1))
  have hkept := h.perm_edges.filter fun e => decide (e ∉ t.dummyEdges)
  rw [hshort] at hkept
  rw [hcontract, h.hidden_eq, Graph.longArcs]
  refine (hkept.append_left _).trans (List.perm_append_comm.trans ?_)
  have hsplit := List.filter_append_perm (fun e => decide (NextLayer table e.source e.target)) w.graph.edges
  simpa only [decide_not] using hsplit

end

/-! ## shifted graphs -/

section
variable {α : Type} {w u u' : Workspace α} {s t : Snapshot} {e : Edge} {a : Int} {span : Nat} {C : Chain}

theorem Chain.StandsFor.shifted (h : C.StandsFor e a span t u.graph) (hs : Shifted u u') :
    C.StandsFor e a span t u'.graph := by
  refine ⟨h.edge, h.nodes, h.layer, fun id hid => ?_, h.length, h.path, fun d hd => ?_, ?_⟩
  · obtain ⟨n, hn, hdummy, hlayer⟩ := h.dummy id hid
    obtain ⟨m, hm, hseat⟩ := hs.exists_node hn
    have hflag : m.isDummy = n.isDummy := congrArg (fun o => o.1.2.2) hseat
    have hsame : m.layer = n.layer := congrArg Prod.snd hseat
    exact ⟨m, hm, hflag.trans hdummy, by rw [hsame, hlayer]⟩
  · rw [hs.edges]
    exact h.active d hd
  · have hedge : u'.graph.hasEdge e = u.graph.hasEdge e := by rw [hs.graph]; rfl
    rw [hs.edges, hedge]
    exact h.inactive

/-- where the nodes stand does not matter -/
theorem Subdivision.shifted (h : Subdivision w s t u) (hs : Shifted u u') : Subdivision w s t u' where
  edge e he := by
    obtain ⟨a, span, ha, hb, hpos, hshort, hlong⟩ := h.edge e he
    refine ⟨a, span, ha, hb, hpos, fun hone => ?_, fun hspan => ?_⟩
    · rw [hs.edges]
      exact hshort hone
    · obtain ⟨C, hC, hstands⟩ := hlong hspan
      exact ⟨C, hC, hstands.shifted hs⟩
  hidden := h.hidden
  bends e he := by rw [hs.bends, h.bends e he]
  nodes := by rw [hs.nodeIds, h.nodes]
  dummies := by
    rw [hs.nodeIds]
    exact h.dummies
  edges := by
    rw [hs.edges]
    exact h.edges
  degree id hid := by
    rw [Graph.inEdges, Graph.outEdges, hs.arcs]
    exact h.degree id hid
  span e he := h.span e (hs.edges ▸ he)
  unitSpans := by
    rw [← h.unitSpans, requireUnitSpans, requireUnitSpans, hs.edges]
  table := h.table
  listed := h.listed
  listedOnce := h.listedOnce
  unlisted := h.unlisted
  contract := by
    rw [hs.edges]
    exact h.contract

end

/-- what expansion leaves behind, after layering -/
theorem Expanded.subdivision {α : Type} [Scalar α] {c : Config α} {w v u : Workspace α}
    {known : List Edge} {s t : Snapshot} (hw : w.Sound known) (hlayered : Layered c w s v)
    (h : Expanded c w s.layers t u)
    (hlisted : listChains s.layers t.chains.values s.arrangement = .ok t.arrangement) :
    Subdivision w s t u := by
  obtain ⟨_, hexp⟩ := h.expanding
  have hmem {e : Edge} : e ∈ w.graph.edges ↔ e ∈ w.graph.arcs := hw.coherent.mem_edges
  have hold : s.arrangement.map (List.filter fun id => decide (id ∉ t.dummyNodes)) = s.arrangement := by
    refine (List.map_congr_left fun l hl => ?_).trans (List.map_id _)
    refine List.filter_eq_self.2 fun id hid => decide_eq_true fun hdummy => ?_
    have hflat : id ∈ s.arrangement.flatten := List.mem_flatten.2 ⟨l, hl, hid⟩
    rw [hlayered.filed.mem_flatten, hlayered.mem_keys_iff] at hflat
    exact h.dummy_not_mem_base hdummy hflat
  refine ⟨fun e he => ?_, h.hidden_eq, fun e he => hexp.bends e (hmem.1 he), ?_,
    ⟨h.nodup_dummyNodes, fun id hid => ⟨hexp.replaced.nodes_mem id hid, h.dummy_not_mem_base hid⟩⟩,
    h.perm_edges, fun id hid => h.degree hid, fun e he => ?_, h.requireUnitSpans, hexp.table,
    fun id hid => ?_, hexp.filed.nodup_flatten, ?_, h.contract_perm⟩
  · obtain ⟨a, b, ha, hb, hab⟩ := hlayered.ends hw (hmem.1 he)
    exact h.exists_span (hmem.1 he) ha hb hab
  · rw [← Graph.keys_outline, ← Graph.keys_outline, ← hexp.replaced.outline, OrderedMap.keys_filter]
  · obtain ⟨layer, hs, ht⟩ := h.nextLayer (h.mem_edges.1 he)
    have hone : layer + 1 - layer = 1 := by omega
    rw [span?_of_get? hs ht, hone]
  · have hkey : id ∈ t.layers.keys := (hexp.mem_keys_iff id).2 (hexp.replaced.nodes_mem id hid)
    obtain ⟨layer, hlayer⟩ := OrderedMap.exists_get?_of_mem hkey
    obtain ⟨i, rfl, _, l, hl, hin⟩ := hexp.filed.exists_list hlayer
    exact ⟨i, l, hlayer, hl, hin⟩
  · refine (map_filter_listChains (fun C hC id hid => ?_) hlisted).trans hold
    exact decide_eq_false fun hnot => hnot (List.mem_flatMap.2 ⟨C, hC, hid⟩)

end LayeredDrawing
