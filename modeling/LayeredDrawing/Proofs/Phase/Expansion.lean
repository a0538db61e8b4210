import LayeredDrawing.Proofs.Arrangement.Listing
import LayeredDrawing.Proofs.Phase.Expanding

/-!
# What expansion does

Expansion hides the edges that lead across more than one layer, each behind a chain that bridges it,
and leaves all else as it was.  It is refused only if it is `Hindered`.

* `Subdivided`        the graph and the tables after some edges have been hidden;
* `leads_hideEdge`    one more edge is hidden;
* `leads_subdivide`   the whole phase.
-/

namespace LayeredDrawing

variable {α : Type} [Scalar α]

/-- the strand has grown behind the edge `e` from layer `a` on, beside the nodes and edges of other
chains; `lists` is the arrangement without it -/
structure Growing (c : Config α) (w : Workspace α) (table : OrderedMap NodeId Int)
    (hidden : List Edge) (nodes : List NodeId) (edges : List Edge) (lists : Arrangement) (e : Edge)
    (a : Int) (st : Strand) (v : Workspace α) : Prop where
  expanding : ∃ known, Expanding c w table hidden (nodes ++ st.nodes) (edges ++ st.edges) known
    st.layers st.arrangement v
  grows : st.Grows e a
  listed : listChain (a + 1) e.source st.nodes lists = .ok st.arrangement
  /-- no edge goes on from the last dummy node -/
  loose : st.nodes ≠ [] → ∀ d ∈ v.graph.arcs, d.source ≠ st.last

/-- the chains stand in for their hidden edges -/
structure Subdivided (c : Config α) (w : Workspace α) (table : OrderedMap NodeId Int) (s : Snapshot)
    (v : Workspace α) : Prop where
  expanding : ∃ known, Expanding c w table (s.chains.values.map Chain.edge) s.dummyNodes
    s.dummyEdges known s.layers s.arrangement v
  bridges : ∀ C ∈ s.chains.values, C.Bridges s.layers
  chain_key : ∀ key C, s.chains.get? key = some C → C.edge.key = key

/-- the arcs that stay, in their order -/
def Graph.shortArcs (g : Graph α) (table : OrderedMap NodeId Int) : List Edge :=
  g.arcs.filter fun e => NextLayer table e.source e.target

/-- the edges that are hidden, in the order in which they are -/
def Graph.longArcs (g : Graph α) (table : OrderedMap NodeId Int) : List Edge :=
  g.edges.filter fun e => ¬ NextLayer table e.source e.target

/-- the chains stand in for all edges that do not lead to the next layer -/
structure Expanded (c : Config α) (w : Workspace α) (table : OrderedMap NodeId Int) (s : Snapshot)
    (v : Workspace α) : Prop extends Subdivided c w table s v where
  hidden_eq : s.chains.values.map Chain.edge = w.graph.longArcs table

section
variable {c : Config α} {w v : Workspace α} {table : OrderedMap NodeId Int} {s : Snapshot}

theorem Subdivided.base (h : Subdivided c w table s v) : w.graph.Coherent := by
  obtain ⟨known, hexp⟩ := h.expanding
  exact hexp.replaced.base

theorem Subdivided.mem_arcs (h : Subdivided c w table s v) {C : Chain} (hC : C ∈ s.chains.values) :
    C.edge ∈ w.graph.arcs := by
  obtain ⟨known, hexp⟩ := h.expanding
  exact hexp.replaced.hidden_mem _ (List.mem_map_of_mem hC)

/-- no edge is hidden twice -/
theorem Subdivided.nodup_hidden (h : Subdivided c w table s v) :
    (s.chains.values.map Chain.edge).Nodup := by
  have hkeys : (s.chains.values.map Chain.edge).map Edge.key = s.chains.keys := by
    rw [OrderedMap.values, OrderedMap.keys, List.map_map, List.map_map]
    exact List.map_congr_left fun p hp => h.chain_key p.1 p.2 (OrderedMap.get?_eq_some_iff.2 hp)
  refine List.Nodup.of_map Edge.key ?_
  rw [hkeys]
  exact s.chains.nodup_keys

/-- the dummy nodes are named after hidden edges -/
theorem Subdivided.dummy_not_mem (h : Subdivided c w table s v) {e : Edge} (he : e ∈ w.graph.arcs)
    (hnot : e ∉ s.chains.values.map Chain.edge) (i : Nat) : .dummy e.key i ∉ s.dummyNodes := by
  intro hid
  obtain ⟨known, hexp⟩ := h.expanding
  obtain ⟨C, hC, hid⟩ := List.mem_flatMap.1 hid
  obtain ⟨j, _, _, heq⟩ := (h.bridges C hC).mem_nodes.1 hid
  have hkey := (NodeId.dummy.inj heq).1
  have hedge := hexp.replaced.base.eq_of_key he (h.mem_arcs hC) hkey
  exact hnot (hedge ▸ List.mem_map_of_mem hC)

theorem Subdivided.key_not_mem (h : Subdivided c w table s v) {e : Edge} (he : e ∈ w.graph.arcs)
    (hnot : e ∉ s.chains.values.map Chain.edge) : e.key ∉ s.chains.keys := by
  intro hkey
  obtain ⟨known, hexp⟩ := h.expanding
  obtain ⟨C, hget⟩ := OrderedMap.exists_get?_of_mem hkey
  have hC : C ∈ s.chains.values := OrderedMap.mem_values_iff.2 ⟨_, hget⟩
  have hedge := hexp.replaced.base.eq_of_key he (h.mem_arcs hC) (h.chain_key _ C hget).symm
  exact hnot (hedge ▸ List.mem_map_of_mem hC)

theorem Expanded.hidden_iff (h : Expanded c w table s v) {e : Edge} (he : e ∈ w.graph.arcs) :
    e ∈ s.chains.values.map Chain.edge ↔ ¬ NextLayer table e.source e.target := by
  obtain ⟨known, hexp⟩ := h.expanding
  rw [h.hidden_eq, Graph.longArcs, List.mem_filter, hexp.replaced.base.mem_edges, decide_eq_true_eq]
  exact and_iff_right he

/-- which dummy nodes a chain has can be told from the layers of the graph itself -/
theorem Subdivided.nodes_eq_detour (h : Subdivided c w table s v) {C : Chain}
    (hC : C ∈ s.chains.values) : C.nodes = C.edge.detour table := by
  obtain ⟨known, hexp⟩ := h.expanding
  rw [(h.bridges C hC).nodes_eq_detour, Edge.detour, Edge.detour,
    hexp.get?_eq (hexp.replaced.base.source_mem _ (h.mem_arcs hC)),
    hexp.get?_eq (hexp.replaced.base.target_mem _ (h.mem_arcs hC))]

/-- an edge across layers has a chain with a dummy node for each of them -/
theorem Expanded.exists_chain (h : Expanded c w table s v) {e : Edge} (he : e ∈ w.graph.arcs)
    {a b : Int} (ha : table.get? e.source = some a) (hb : table.get? e.target = some b)
    (hlong : 1 < b - a) :
    ∃ C ∈ s.chains.values, C.edge = e ∧ C.nodes = dummies e.key (b - a - 1).toNat := by
  have hnot : ¬ NextLayer table e.source e.target := by
    rw [nextLayer_iff ha hb]
    omega
  obtain ⟨C, hC, rfl⟩ := List.mem_map.1 ((h.hidden_iff he).2 hnot)
  refine ⟨C, hC, rfl, ?_⟩
  rw [h.nodes_eq_detour hC, Edge.detour, ha, hb]

/-- every edge of the graph leads to the next layer -/
theorem Expanded.nextLayer (h : Expanded c w table s v) {e : Edge} (he : e ∈ v.graph.arcs) :
    NextLayer s.layers e.source e.target := by
  obtain ⟨known, hexp⟩ := h.expanding
  obtain ⟨hmem, hnot⟩ := hexp.replaced.mem_arcs_iff.1 he
  rcases hmem with hw | hd
  · have hnext : NextLayer table e.source e.target :=
      Classical.not_not.1 fun hn => hnot ((h.hidden_iff hw).2 hn)
    exact hnext.mono hexp.extends
  · obtain ⟨C, hC, hd⟩ := List.mem_flatMap.1 hd
    exact (h.bridges C hC).nextLayer hd

end

/-! ## a chain under construction -/

section
variable {c : Config α} {w v : Workspace α} {table : OrderedMap NodeId Int} {hidden edges : List Edge}
  {nodes : List NodeId} {lists : Arrangement} {e : Edge} {a b : Int} {st : Strand}

/-- only a node of `w` can have the name of the next dummy node -/
theorem Growing.hindered (h : Growing c w table hidden nodes edges lists e a st v)
    (hw : e ∈ w.graph.arcs) (ha : table.get? e.source = some a) (hb : table.get? e.target = some b)
    (hlt : a + (st.nodes.length + 1 : Nat) < b) (hnew : ∀ i : Nat, .dummy e.key i ∉ nodes)
    (hid : .dummy e.key ((st.nodes.length + 1 : Nat) : Int) ∈ v.graph.nodeIds) (fault : Fault) :
    Hindered c w table fault := by
  obtain ⟨known, hexp⟩ := h.expanding
  rcases hexp.replaced.mem_base_or_nodes hid with hid | hid
  · exact ⟨e, hw, a, b, ha, hb, _, by omega, hlt, .inl hid⟩
  · rcases List.mem_append.1 hid with hid | hid
    · exact absurd hid (hnew _)
    · obtain ⟨i, _, hi, heq⟩ := h.grows.mem_nodes.1 hid
      have hindex := (NodeId.dummy.inj heq).2
      omega

theorem Growing.last_mem (h : Growing c w table hidden nodes edges lists e a st v) :
    st.last ∈ v.graph.nodeIds := by
  obtain ⟨known, hexp⟩ := h.expanding
  exact (hexp.mem_keys_iff _).1 (OrderedMap.mem_keys_of_get? h.grows.layer)

/-- one more node and edge at the end of the strand -/
theorem Growing.extend (h : Growing c w table hidden nodes edges lists e a st v) {id : NodeId}
    (hid : id = .dummy e.key ((st.nodes.length + 1 : Nat) : Int)) (hnew : id ∉ v.graph.nodeIds)
    {d : Edge} (hs : d.source = st.last) (ht : d.target = id) {lists' : Arrangement}
    (hins : insertBeside st.arrangement (a + (st.nodes.length + 1 : Nat)) st.last id = .ok lists')
    {known : List Edge} {u : Workspace α}
    (hexp : Expanding c w table hidden (nodes ++ (st.nodes ++ [id])) (edges ++ (st.edges ++ [d])) known
      (st.layers.insert id (a + (st.nodes.length + 1 : Nat))) lists' u) :
    Growing c w table hidden nodes edges lists e a
      ⟨st.layers.insert id (a + (st.nodes.length + 1 : Nat)), lists', id, st.nodes ++ [id],
        st.edges ++ [d]⟩ u := by
  obtain ⟨_, hexp₀⟩ := h.expanding
  have hlayer : a + (st.nodes.length : Int) + 1 = a + ((st.nodes.length + 1 : Nat) : Int) := by
    omega
  have hkeys : id ∉ st.layers.keys := fun hm => hnew ((hexp₀.mem_keys_iff _).1 hm)
  have hgrows := h.grows.extend (d := d) lists' hid hkeys hs ht
  rw [hlayer] at hgrows
  refine ⟨⟨known, hexp⟩, hgrows, ?_, fun _ f hf => ?_⟩
  · rw [listChain_concat, h.listed, ← h.grows.last_eq, Int.add_right_comm, hlayer]
    exact hins
  · have harcs : u.graph.arcs = v.graph.arcs ++ [d] := by
      rw [hexp.arcs, hexp₀.arcs, List.append_assoc, List.append_assoc]
    have hsource : f.source ∈ v.graph.nodeIds := by
      rw [harcs, List.mem_append, List.mem_singleton] at hf
      rcases hf with hf | rfl
      · exact hexp₀.replaced.sound.coherent.source_mem f hf
      · rw [hs]
        exact h.last_mem
    exact fun heq : f.source = id => hnew (heq ▸ hsource)

namespace Action

theorem leads_extendStrand (h : Growing c w table hidden nodes edges lists e a st v)
    (hw : e ∈ w.graph.arcs) (ha : table.get? e.source = some a) (hb : table.get? e.target = some b)
    (hlt : a + (st.nodes.length + 1 : Nat) < b) (hnew : ∀ i : Nat, .dummy e.key i ∉ nodes) :
    (extendStrand c e a (st.nodes.length + 1) st).Leads v
      (fun st' u => Growing c w table hidden nodes edges lists e a st' u ∧
        st'.nodes.length = st.nodes.length + 1 ∧ Extends st'.layers st.layers)
      fun fault _ => Hindered c w table fault := by
  have hlast := h.last_mem
  obtain ⟨n, hn⟩ := OrderedMap.entry_of_mem hlast
  unfold extendStrand
  refine leads_bind (leads_check (fun x hx => ?_) fun fault hx =>
    ⟨e, hw, a, b, ha, hb, _, by omega, hlt, .inr hx⟩)
  refine leads_bind (leads_ask_ok (b := n) hn ?_)
  refine leads_bind (leads_edit (fun g hok => ?_) fun fault hfault => ?_)
  · obtain ⟨known, hexp⟩ := h.expanding
    obtain ⟨hid, hg⟩ := Graph.addNode_ok hok
    have hprev : st.layers.get? st.last = some (a + ((st.nodes.length + 1 : Nat) : Int) - 1) := by
      rw [h.grows.layer]
      congr 1
      omega
    have hlen : a + ((st.nodes.length + 1 : Nat) : Int) < st.arrangement.length := by
      obtain ⟨i, hi, hil, _⟩ := hexp.filed.exists_list (hexp.extends _ _ hb)
      omega
    obtain ⟨lists', hins, _, hexp₁⟩ := hexp.addNode hok hx hprev hlen
    have hsource : st.last ∈ g.nodeIds := by
      rw [hg]
      exact OrderedMap.mem_keys_insert.2 (.inl hlast)
    have htarget : .dummy e.key ((st.nodes.length + 1 : Nat) : Int) ∈ g.nodeIds := by
      rw [hg]
      exact OrderedMap.mem_keys_insert.2 (.inr rfl)
    obtain ⟨d, g', hadd⟩ := Graph.addEdge_of_mem hsource htarget v.bends.fresh true
    refine leads_bind (leads_check_ok hins (leads_bind (leads_addEdge_ok hadd (leads_pure ?_))))
    have hexp₂ := hexp₁.addEdge hadd fun f hf _ heq => by
      have harcs : g.arcs = v.graph.arcs := by rw [hg]
      exact hid (heq ▸ hexp.replaced.sound.coherent.target_mem f (harcs ▸ hf))
    have hkeys : NodeId.dummy e.key ((st.nodes.length + 1 : Nat) : Int) ∉ st.layers.keys :=
      fun hm => hid ((hexp.mem_keys_iff _).1 hm)
    have hd := (Graph.addEdge_ok hadd).2.2.1
    rw [List.append_assoc, List.append_assoc] at hexp₂
    refine ⟨h.extend rfl hid (by rw [hd]) (by rw [hd]) hins hexp₂, ?_, extends_insert hkeys _⟩
    rw [List.length_append, List.length_singleton]
  · refine h.hindered hw ha hb hlt hnew (Classical.byContradiction fun hn => ?_) fault
    rw [Graph.addNode_of_not_mem hn (by simp)] at hfault
    cases hfault

theorem leads_extendStrandBy (count : Nat)
    (h : Growing c w table hidden nodes edges lists e a st v) (hw : e ∈ w.graph.arcs)
    (ha : table.get? e.source = some a) (hb : table.get? e.target = some b)
    (hlt : a + (st.nodes.length + count : Nat) < b) (hnew : ∀ i : Nat, .dummy e.key i ∉ nodes) :
    (extendStrandBy c e a count (st.nodes.length + 1) st).Leads v
      (fun st' u => Growing c w table hidden nodes edges lists e a st' u ∧
        st'.nodes.length = st.nodes.length + count ∧ Extends st'.layers st.layers)
      fun fault _ => Hindered c w table fault := by
  induction count generalizing st v with
  | zero => exact leads_pure ⟨h, rfl, Extends.refl _⟩
  | succ count ih =>
    rw [extendStrandBy]
    refine leads_bind ((leads_extendStrand h hw ha hb (by omega) hnew).imp fun st' u hst' => ?_)
    obtain ⟨hgrowing, hlen, hext⟩ := hst'
    have hnext := ih hgrowing (by omega)
    rw [hlen] at hnext
    refine hnext.imp fun st'' u' hst'' => ?_
    exact ⟨hst''.1, by rw [hst''.2.1]; omega, hst''.2.2.trans hext⟩

end Action

end

/-! ## all chains -/

section
variable {c : Config α} {w v : Workspace α} {table : OrderedMap NodeId Int} {s : Snapshot} {e : Edge}

theorem Growing.start (h : Subdivided c w table s v) {a : Int} (ha : table.get? e.source = some a) :
    Growing c w table (s.chains.values.map Chain.edge) s.dummyNodes s.dummyEdges s.arrangement e a
      ⟨s.layers, s.arrangement, e.source, [], []⟩ v := by
  obtain ⟨known, hexp⟩ := h.expanding
  refine ⟨⟨known, ?_⟩, Strand.grows_start (hexp.extends _ _ ha), rfl, fun hne => absurd rfl hne⟩
  rw [List.append_nil, List.append_nil]
  exact hexp

/-- one more chain is complete -/
theorem Subdivided.insert (h : Subdivided c w table s v) {C : Chain} (hkey : C.edge.key ∉ s.chains.keys)
    {layers : OrderedMap NodeId Int} {lists : Arrangement} {known : List Edge} {u : Workspace α}
    (hext : Extends layers s.layers) (hC : C.Bridges layers)
    (hexp : Expanding c w table (s.chains.values.map Chain.edge ++ [C.edge]) (s.dummyNodes ++ C.nodes)
      (s.dummyEdges ++ C.edges) known layers lists u) :
    Subdivided c w table ⟨s.stage, layers, lists, s.chains.insert C.edge.key C⟩ u ∧
      (s.chains.insert C.edge.key C).values = s.chains.values ++ [C] := by
  have hvalues : (s.chains.insert C.edge.key C).values = s.chains.values ++ [C] :=
    OrderedMap.values_insert_of_not_mem hkey C
  refine ⟨⟨⟨known, ?_⟩, fun D hD => ?_, fun key D hget => ?_⟩, hvalues⟩
  · show Expanding c w table ((s.chains.insert C.edge.key C).values.map Chain.edge)
      ((s.chains.insert C.edge.key C).values.flatMap Chain.nodes)
      ((s.chains.insert C.edge.key C).values.flatMap Chain.edges) known layers lists u
    rw [hvalues, List.map_append, List.flatMap_append, List.flatMap_append, List.flatMap_singleton,
      List.flatMap_singleton]
    exact hexp
  · have hD' : D ∈ s.chains.values ++ [C] := hvalues ▸ hD
    rcases List.mem_append.1 hD' with hD' | hD'
    · exact (h.bridges D hD').mono hext
    · rw [List.mem_singleton.1 hD']
      exact hC
  · have hget' : (s.chains.insert C.edge.key C).get? key = some D := hget
    rw [OrderedMap.get?_insert] at hget'
    split at hget'
    · rename_i heq
      obtain rfl := Option.some.inj hget'
      exact heq.symm
    · exact h.chain_key key D hget'

namespace Action

theorem leads_hideEdge (h : Subdivided c w table s v) (he : e ∈ w.graph.arcs)
    (hnot : e ∉ s.chains.values.map Chain.edge) {a b : Int} (ha : table.get? e.source = some a)
    (hb : table.get? e.target = some b) (hlong : a + 1 < b) :
    (hideEdge c s e).Leads v
      (fun s' u => Subdivided c w table s' u ∧ ∃ C : Chain, C.edge = e ∧
        s'.chains.values = s.chains.values ++ [C] ∧
        listChain (a + 1) e.source C.nodes s.arrangement = .ok s'.arrangement)
      fun fault _ => Hindered c w table fault := by
  obtain ⟨known, hexp⟩ := h.expanding
  have hsource := hexp.extends _ _ ha
  have htarget := hexp.extends _ _ hb
  have hcount : a + ((0 + (b - a - 1).toNat : Nat) : Int) < b := by omega
  unfold hideEdge
  refine leads_bind (leads_check_ok (OrderedMap.entry_eq_ok_iff.2 hsource) ?_)
  refine leads_bind (leads_check_ok (span?_of_get? hsource htarget) ?_)
  refine leads_bind ((leads_extendStrandBy _ (Growing.start h ha) he ha hb hcount
    (h.dummy_not_mem he hnot)).imp fun st u hst => ?_)
  obtain ⟨hgrowing, hlen, hext⟩ := hst
  have hlast := hgrowing.last_mem
  obtain ⟨known₁, hexp₁⟩ := hgrowing.expanding
  have hlen' : (st.nodes.length : Int) = b - a - 1 := by
    rw [hlen]
    show ((0 + (b - a - 1).toNat : Nat) : Int) = b - a - 1
    omega
  have hne : st.nodes ≠ [] := fun hnil => by
    rw [hnil, List.length_nil] at hlen'
    omega
  have hend : e.target ∈ u.graph.nodeIds :=
    (hexp₁.mem_keys_iff _).1 (OrderedMap.mem_keys_of_get? (hext _ _ htarget))
  obtain ⟨d, g, hadd⟩ := Graph.addEdge_of_mem hlast hend u.bends.fresh true
  have hexp₂ := hexp₁.addEdge hadd fun f hf hs => absurd hs (hgrowing.loose hne f hf)
  have hactive : e ∈ g.arcs := hexp₂.replaced.mem_arcs_iff.2 ⟨.inl he, hnot⟩
  obtain ⟨g', hdetach, hexp₃⟩ := hexp₂.detach hactive he
  rw [List.append_assoc] at hexp₃
  refine leads_bind (leads_addEdge_ok hadd (leads_bind (leads_edit_ok hdetach (leads_pure ?_))))
  have hd := (Graph.addEdge_ok hadd).2.2.1
  have hbridge : Chain.Bridges st.layers ⟨e, st.nodes, st.edges ++ [d]⟩ := by
    refine hgrowing.grows.close hne (by rw [hd]) (by rw [hd]) ?_
    rw [hext _ _ htarget]
    congr 1
    omega
  obtain ⟨hsubdivided, hvalues⟩ := h.insert (C := ⟨e, st.nodes, st.edges ++ [d]⟩)
    (h.key_not_mem he hnot) hext hbridge hexp₃
  exact ⟨hsubdivided, _, rfl, hvalues, hgrowing.listed⟩

end Action

end

/-! ## the whole phase -/

section
variable {c : Config α} {w v : Workspace α} {s : Snapshot} {known : List Edge}

theorem Layered.ends (h : Layered c w s v) (hw : w.Sound known) {e : Edge} (he : e ∈ w.graph.arcs) :
    ∃ a b, s.layers.get? e.source = some a ∧ s.layers.get? e.target = some b ∧ a < b := by
  obtain ⟨a, ha⟩ := OrderedMap.exists_get?_of_mem
    ((h.mem_keys_iff _).2 (hw.coherent.source_mem e he))
  obtain ⟨b, hb⟩ := OrderedMap.exists_get?_of_mem
    ((h.mem_keys_iff _).2 (hw.coherent.target_mem e he))
  exact ⟨a, b, ha, hb, h.ascending.lt e he a b ha hb⟩

theorem Layered.subdivided (h : Layered c w s v) (hw : w.Sound known) :
    Subdivided c w s.layers { s with chains := ∅ } v where
  expanding := ⟨known,
    { replaced := (replaced_start (h.redrawn.sound hw)).of_redrawn hw.coherent h.redrawn
      arcs := by
        have hall : (w.graph.arcs.filter fun e => e ∉ ([] : List Edge)) = w.graph.arcs :=
          List.filter_eq_self.2 fun _ _ => decide_eq_true List.not_mem_nil
        exact h.redrawn.arcs.trans (hall.symm.trans (List.append_nil _).symm)
      dummies := fun _ hid => (List.not_mem_nil hid).elim
      filed := h.filed
      occupied := fun i hi => by
        have hlists : i < s.arrangement.length := hi
        rw [h.arrangement] at hlists
        exact occupied_arrange (Graph.layering_ok h.layering).2 hlists
      mem_keys_iff := fun id => by rw [h.mem_keys_iff, h.redrawn.nodeIds]
      room := fun _ hid => (List.not_mem_nil hid).elim
      table := OrderedMap.filter_not_mem_nil s.layers
      placed := h.placed
      bends := fun e _ => by rw [h.redrawn.bends] }⟩
  bridges _ hC := (List.not_mem_nil hC).elim
  chain_key _ _ hC := by cases hC

/-- the second phase, after the first -/
theorem Action.leads_subdivide (hw : w.Sound known) (h : Layered c w s v) :
    (subdivide c s).Leads v
      (fun s' u => s'.stage = .expanded ∧ Expanded c w s.layers s' u ∧
        listChains s.layers s'.chains.values s.arrangement = .ok s'.arrangement)
      fun fault _ => Hindered c w s.layers fault := by
  have hsoundv := h.redrawn.sound hw
  have harcs (e : Edge) : e ∈ v.graph.edges ↔ e ∈ w.graph.arcs := by
    rw [hsoundv.coherent.mem_edges, h.redrawn.arcs]
  have hlong := longEdges_of_ascending fun e he => h.ends hw ((harcs e).1 he)
  have hnodup := (hsoundv.coherent.perm_edges.nodup_iff.2 hsoundv.coherent.nodup).filter
    fun e => ¬ NextLayer s.layers e.source e.target
  unfold subdivide
  refine leads_bind (leads_check_ok (Snapshot.requireStage_eq_ok_iff.2 h.stage) ?_)
  refine leads_bind (leads_ask_ok hlong ?_)
  -- the edges done so far are the hidden ones
  refine leads_bind (Leads.imp (leads_foldlM _
    (fun done _ s' u => Subdivided c w s.layers s' u ∧ s'.chains.values.map Chain.edge = done ∧
      listChains s.layers s'.chains.values s.arrangement = .ok s'.arrangement)
    ⟨h.subdivided hw, rfl, rfl⟩ fun done e left s' u hdone hI => ?_)
    fun s' u hI => leads_pure ⟨rfl, ?_, hI.2.2⟩)
  · obtain ⟨hs', hhidden, hlisted⟩ := hI
    rw [← hdone] at hnodup
    have hin := hdone ▸ List.mem_append_right done (List.mem_cons_self (a := e) (l := left))
    obtain ⟨hedge, hnext⟩ := List.mem_filter.1 hin
    have hnot : e ∉ s'.chains.values.map Chain.edge := by
      rw [hhidden]
      exact fun he => (List.nodup_append.1 hnodup).2.2 e he e List.mem_cons_self rfl
    have he := (harcs e).1 hedge
    obtain ⟨a, b, ha, hb, hab⟩ := h.ends hw he
    have hspan : a + 1 < b := by
      have hne : b ≠ a + 1 := fun heq => of_decide_eq_true hnext ⟨a, ha, heq ▸ hb⟩
      omega
    refine (leads_hideEdge hs' he hnot ha hb hspan).imp fun s'' u' hs'' => ?_
    obtain ⟨hs'', C, rfl, hvalues, hlist⟩ := hs''
    refine ⟨hs'', ?_, ?_⟩
    · rw [hvalues, List.map_append, hhidden]
      rfl
    · rw [hvalues, listChains_concat, hlisted, OrderedMap.entry_eq_ok_iff.2 ha]
      exact hlist
  · obtain ⟨hs', hhidden, _⟩ := hI
    refine ⟨⟨hs'.expanding, hs'.bridges, hs'.chain_key⟩, ?_⟩
    show s'.chains.values.map Chain.edge = _
    rw [hhidden, h.redrawn.edges, Graph.longArcs]

end

end LayeredDrawing
