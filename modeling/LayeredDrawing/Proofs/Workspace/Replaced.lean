import LayeredDrawing.Proofs.Workspace.Redrawn

/-!
# Edges replaced

`Replaced w hidden nodes edges known v` says that `v` differs from `w` in three things: the edges
`hidden` are gone, the nodes `nodes` and the edges `edges` have come in, and what is drawn may have
changed.  There is one lemma for each operation that expansion or reconstruction performs; what one
adds to a list, another takes off it again.
-/

namespace LayeredDrawing

variable {α : Type}

structure Replaced (w : Workspace α) (hidden : List Edge) (nodes : List NodeId)
    (edges known : List Edge) (v : Workspace α) : Prop where
  base : w.graph.Coherent
  sound : v.Sound known
  known_of_mem : ∀ e ∈ w.graph.arcs, e ∈ known
  hidden_mem : ∀ e ∈ hidden, e ∈ w.graph.arcs
  nodes_mem : ∀ id ∈ nodes, id ∈ v.graph.nodeIds
  nodup : nodes.Nodup
  outline : v.graph.outline.filter (fun id => decide (id ∉ nodes)) = w.graph.outline
  perm : (v.graph.arcs ++ hidden).Perm (w.graph.arcs ++ edges)
  nodup_arcs : (w.graph.arcs ++ edges).Nodup

/-- nothing replaced so far -/
theorem replaced_start {w : Workspace α} {known : List Edge} (h : w.Sound known) :
    Replaced w [] [] [] known w where
  base := h.coherent
  sound := h
  known_of_mem := h.known_of_mem
  hidden_mem e he := by cases he
  nodes_mem id hid := by cases hid
  nodup := List.nodup_nil
  outline := OrderedMap.filter_not_mem_nil w.graph.outline
  perm := List.Perm.refl _
  nodup_arcs := by
    rw [List.append_nil]
    exact h.coherent.nodup

section
variable {w v : Workspace α} {hidden : List Edge} {nodes : List NodeId} {edges known : List Edge}
  (h : Replaced w hidden nodes edges known v)
include h

theorem Replaced.mem_nodeIds_iff {id : NodeId} :
    id ∈ w.graph.nodeIds ↔ id ∈ v.graph.nodeIds ∧ id ∉ nodes := by
  rw [← Graph.keys_outline, ← h.outline, OrderedMap.keys_filter, Graph.keys_outline, List.mem_filter,
    decide_eq_true_eq]

theorem Replaced.not_mem_base {id : NodeId} (hid : id ∈ nodes) : id ∉ w.graph.nodeIds :=
  fun hw => (h.mem_nodeIds_iff.1 hw).2 hid

theorem Replaced.mem_of_base {id : NodeId} (hid : id ∈ w.graph.nodeIds) : id ∈ v.graph.nodeIds :=
  (h.mem_nodeIds_iff.1 hid).1

theorem Replaced.mem_base_or_nodes {id : NodeId} (hid : id ∈ v.graph.nodeIds) :
    id ∈ w.graph.nodeIds ∨ id ∈ nodes := by
  by_cases hn : id ∈ nodes
  · exact .inr hn
  · exact .inl (h.mem_nodeIds_iff.2 ⟨hid, hn⟩)

/-- an edge of the graph is an old one that has not been hidden, or a new one -/
theorem Replaced.mem_arcs_iff {e : Edge} :
    e ∈ v.graph.arcs ↔ (e ∈ w.graph.arcs ∨ e ∈ edges) ∧ e ∉ hidden := by
  have hnodup : (v.graph.arcs ++ hidden).Nodup := h.perm.nodup_iff.2 h.nodup_arcs
  rw [← List.mem_append, ← h.perm.mem_iff, List.mem_append]
  constructor
  · intro he
    exact ⟨.inl he, fun hh => (List.nodup_append.1 hnodup).2.2 e he e hh rfl⟩
  · rintro ⟨he | he, hn⟩
    · exact he
    · exact absurd he hn

/-- each old edge is the only one with its key, hidden or not -/
theorem Replaced.filter_key {e : Edge} (he : e ∈ w.graph.arcs) :
    (hidden ++ v.graph.edges).filter (fun d => d.key = e.key) = [e] := by
  have hperm : (hidden ++ v.graph.edges).Perm (w.graph.arcs ++ edges) :=
    (List.perm_append_comm.trans (h.sound.coherent.perm_edges.append_right hidden)).trans h.perm
  have hnodup : (hidden ++ v.graph.edges).Nodup := hperm.nodup_iff.2 h.nodup_arcs
  have hknown {d : Edge} (hd : d ∈ hidden ++ v.graph.edges) : d ∈ known := by
    rcases List.mem_append.1 hd with hd | hd
    · exact h.known_of_mem d (h.hidden_mem d hd)
    · exact h.sound.known_of_mem d (h.sound.coherent.mem_edges.1 hd)
  have hin : e ∈ hidden ++ v.graph.edges := hperm.mem_iff.2 (List.mem_append_left _ he)
  refine List.perm_singleton.1
    ((List.perm_ext_iff_of_nodup (hnodup.filter _) (List.nodup_singleton e)).2 fun d => ?_)
  rw [List.mem_filter, List.mem_singleton, decide_eq_true_eq]
  constructor
  · exact fun hd => h.sound.key_inj d (hknown hd.1) e (hknown hin) hd.2
  · rintro rfl
    exact ⟨hin, rfl⟩

theorem Replaced.redrawn {u : Workspace α} (hr : Redrawn v u) :
    Replaced w hidden nodes edges known u where
  base := h.base
  sound := hr.sound h.sound
  known_of_mem := h.known_of_mem
  hidden_mem := h.hidden_mem
  nodes_mem id hid := by
    rw [hr.nodeIds]
    exact h.nodes_mem id hid
  nodup := h.nodup
  outline := by
    rw [hr.outline]
    exact h.outline
  perm := by
    rw [hr.arcs]
    exact h.perm
  nodup_arcs := h.nodup_arcs

theorem Replaced.of_redrawn {w₀ : Workspace α} (hw : w₀.graph.Coherent) (hr : Redrawn w₀ w) :
    Replaced w₀ hidden nodes edges known v where
  base := hw
  sound := h.sound
  known_of_mem e he := h.known_of_mem e (hr.arcs ▸ he)
  hidden_mem e he := hr.arcs ▸ h.hidden_mem e he
  nodes_mem := h.nodes_mem
  nodup := h.nodup
  outline := h.outline.trans hr.outline
  perm := by
    have hp := h.perm
    rwa [hr.arcs] at hp
  nodup_arcs := by
    have hn := h.nodup_arcs
    rwa [hr.arcs] at hn

theorem Replaced.setBends (slot : Nat) (l : List (Point α)) :
    Replaced w hidden nodes edges known { v with bends := v.bends.set slot l } :=
  ⟨h.base, h.sound.setBends slot l, h.known_of_mem, h.hidden_mem, h.nodes_mem, h.nodup, h.outline,
    h.perm, h.nodup_arcs⟩

/-! ## replacing -/

theorem Replaced.addNode {id : NodeId} (hid : id ∉ v.graph.nodeIds) {n : Node α} {g : Graph α}
    (hok : v.graph.addNode id n = .ok g) :
    Replaced w hidden (nodes ++ [id]) edges known { v with graph := g } := by
  have hsound := h.sound.addNode hok
  obtain ⟨_, rfl⟩ := Graph.addNode_ok hok
  refine ⟨h.base, hsound, h.known_of_mem, h.hidden_mem, fun j hj => ?_, ?_, ?_, h.perm, h.nodup_arcs⟩
  · refine OrderedMap.mem_keys_insert.2 ?_
    rcases List.mem_append.1 hj with hj | hj
    · exact .inl (h.nodes_mem j hj)
    · exact .inr (List.mem_singleton.1 hj)
  · rw [List.nodup_append]
    refine ⟨h.nodup, List.nodup_singleton id, fun j hj k hk hjk => ?_⟩
    rw [List.mem_singleton.1 hk] at hjk
    exact hid (hjk ▸ h.nodes_mem j hj)
  · have hkeys : id ∉ v.graph.outline.keys := by rwa [Graph.keys_outline]
    have hinsert : (v.graph.nodes.insert id n).mapValues (fun _ n => n.outline)
        = v.graph.outline.insert id n.outline := OrderedMap.mapValues_insert_of_not_mem _ hid n
    show ((v.graph.nodes.insert id n).mapValues fun _ n => n.outline).filter _ = _
    rw [hinsert, OrderedMap.filter_insert_of_not_mem hkeys (by simp), ← h.outline]
    refine OrderedMap.filter_congr fun j hj => ?_
    have hne : j ≠ id := fun heq => hkeys (heq ▸ hj)
    simp [hne]

theorem Replaced.addEdge {source target : NodeId} {isDummy : Bool} {d : Edge} {g : Graph α}
    (hok : v.graph.addEdge v.bends.fresh source target isDummy = .ok (d, g)) :
    Replaced w hidden nodes (edges ++ [d]) (known ++ [d]) ⟨g, v.bends.push []⟩ := by
  obtain ⟨hsound, hnodes, hperm⟩ := h.sound.addEdge hok
  have hnew : d ∉ known := fun hd => by
    have hlt := h.sound.key_lt d hd
    have hkey : d.key = v.graph.nextKey := by rw [(Graph.addEdge_ok hok).2.2.1]
    omega
  have hmem {e : Edge} (he : e ∈ w.graph.arcs ++ edges) : e ∈ known := by
    rw [← h.perm.mem_iff, List.mem_append] at he
    rcases he with he | he
    · exact h.sound.known_of_mem e he
    · exact h.known_of_mem e (h.hidden_mem e he)
  refine ⟨h.base, hsound, fun e he => List.mem_append_left _ (h.known_of_mem e he), h.hidden_mem,
    fun j hj => ?_, h.nodup, ?_, ?_, ?_⟩
  · show j ∈ g.nodes.keys
    rw [hnodes]
    exact h.nodes_mem j hj
  · show (g.nodes.mapValues fun _ n => n.outline).filter _ = _
    rw [hnodes]
    exact h.outline
  · refine (hperm.append_right hidden).trans ?_
    rw [← List.append_assoc]
    exact (h.perm.cons d).trans (List.perm_append_singleton d _).symm
  · rw [← List.append_assoc, List.nodup_append]
    refine ⟨h.nodup_arcs, List.nodup_singleton d, fun e he e' he' hee => ?_⟩
    rw [List.mem_singleton.1 he'] at hee
    exact hnew (hee ▸ hmem he)

theorem Replaced.detach {e : Edge} (he : e ∈ v.graph.arcs) (hw : e ∈ w.graph.arcs) :
    ∃ g, v.graph.detach e = .ok g ∧ g.nodes = v.graph.nodes ∧
      (g.arcs = v.graph.arcs.filter fun a => a ≠ e) ∧
      Replaced w (hidden ++ [e]) nodes edges known { v with graph := g } := by
  obtain ⟨g, hok, _, hnodes, _, hperm, harcs⟩ := h.sound.coherent.detach_of_mem he
  refine ⟨g, hok, hnodes, harcs, h.base, h.sound.detach hok, h.known_of_mem, fun a ha => ?_, fun j hj => ?_,
    h.nodup, ?_, ?_, h.nodup_arcs⟩
  · rcases List.mem_append.1 ha with ha | ha
    · exact h.hidden_mem a ha
    · rwa [List.mem_singleton.1 ha]
  · show j ∈ g.nodes.keys
    rw [hnodes]
    exact h.nodes_mem j hj
  · show (g.nodes.mapValues fun _ n => n.outline).filter _ = _
    rw [hnodes]
    exact h.outline
  · refine List.Perm.trans ?_ h.perm
    rw [← List.append_assoc]
    exact (List.perm_append_singleton e _).trans (hperm.append_right hidden)

end

/-! ## putting back -/

theorem Replaced.reattach {w v : Workspace α} {e : Edge} {hidden : List Edge} {nodes : List NodeId}
    {edges known : List Edge} (h : Replaced w (e :: hidden) nodes edges known v) :
    ∃ g, v.graph.reattach e = .ok g ∧ g.nodes = v.graph.nodes ∧
      g.arcs = Graph.placeArc e v.graph.arcs ∧
      Replaced w hidden nodes edges known ⟨g, v.bends.set e.slot []⟩ := by
  have hw : e ∈ w.graph.arcs := h.hidden_mem e List.mem_cons_self
  have hknown : e ∈ known := h.known_of_mem e hw
  have hnot : e ∉ v.graph.arcs := fun he => (h.mem_arcs_iff.1 he).2 List.mem_cons_self
  have hedge : v.graph.hasEdge e = false := by
    rw [← Bool.not_eq_true]
    exact fun htrue => hnot ((h.sound.hasEdge_iff hknown).1 htrue)
  have hok := Graph.reattach_of_mem hedge (h.mem_of_base (h.base.source_mem e hw))
    (h.mem_of_base (h.base.target_mem e hw))
  obtain ⟨hsound, hnodes, _, hperm⟩ := h.sound.reattach hknown hok
  refine ⟨_, hok, hnodes, rfl, h.base, hsound, h.known_of_mem,
    fun a ha => h.hidden_mem a (List.mem_cons_of_mem _ ha), h.nodes_mem, h.nodup, h.outline, ?_,
    h.nodup_arcs⟩
  refine List.Perm.trans ?_ h.perm
  exact (hperm.append_right hidden).trans List.perm_middle.symm

/-- the edges that touch none of the nodes -/
def apartFrom (ids : List NodeId) (edges : List Edge) : List Edge :=
  edges.filter fun e => decide (e.source ∉ ids) && decide (e.target ∉ ids)

theorem apartFrom_nil (edges : List Edge) : apartFrom [] edges = edges :=
  List.filter_eq_self.2 fun e _ => by simp

theorem apartFrom_snoc (ids : List NodeId) (id : NodeId) (edges : List Edge) :
    apartFrom [id] (apartFrom ids edges) = apartFrom (ids ++ [id]) edges := by
  unfold apartFrom
  rw [List.filter_filter]
  refine List.filter_congr fun e _ => ?_
  simp only [List.mem_append, List.mem_singleton, not_or, Bool.decide_and]
  ac_rfl

theorem Replaced.removeNode {w v : Workspace α} {hidden : List Edge} {id : NodeId}
    {nodes : List NodeId} {edges known : List Edge}
    (h : Replaced w hidden (id :: nodes) edges known v) :
    ∃ g, v.graph.removeNode id = .ok g ∧ g.nodes = v.graph.nodes.erase id ∧
      g.arcs = apartFrom [id] v.graph.arcs ∧
      Replaced w hidden nodes (apartFrom [id] edges) known { v with graph := g } := by
  obtain ⟨g, hok⟩ := Graph.removeNode_of_mem (h.nodes_mem id List.mem_cons_self)
  have hsound := h.sound.removeNode hok
  obtain ⟨_, hg⟩ := Graph.removeNode_ok hok
  have hnodes : g.nodes = v.graph.nodes.erase id := by rw [hg]
  have harcs : g.arcs = apartFrom [id] v.graph.arcs := by
    rw [hg, apartFrom]
    show v.graph.arcsApart id = _
    rw [Graph.arcsApart]
    simp only [List.mem_singleton]
  -- edges of the base do not touch the node
  have hbase (l : List Edge) (hl : ∀ e ∈ l, e ∈ w.graph.arcs) : apartFrom [id] l = l := by
    refine List.filter_eq_self.2 fun e he => ?_
    have hid := h.not_mem_base List.mem_cons_self
    have hs : e.source ≠ id := fun heq => hid (heq ▸ h.base.source_mem e (hl e he))
    have ht : e.target ≠ id := fun heq => hid (heq ▸ h.base.target_mem e (hl e he))
    simp [hs, ht]
  obtain ⟨hidn, hnodup⟩ := List.nodup_cons.1 h.nodup
  refine ⟨g, hok, hnodes, harcs, h.base, hsound, h.known_of_mem, h.hidden_mem, fun j hj => ?_, hnodup,
    ?_, ?_, ?_⟩
  · show j ∈ g.nodes.keys
    rw [hnodes, OrderedMap.keys_erase, List.mem_filter, decide_eq_true_eq]
    exact ⟨h.nodes_mem j (List.mem_cons_of_mem _ hj), fun heq => hidn (heq ▸ hj)⟩
  · show (g.nodes.mapValues fun _ n => n.outline).filter _ = _
    rw [hnodes, OrderedMap.erase, ← OrderedMap.filter_mapValues, OrderedMap.filter_filter,
      ← h.outline]
    refine OrderedMap.filter_congr fun j _ => ?_
    simp only [List.mem_cons, not_or, Bool.decide_and]
  · have hp : (apartFrom [id] (v.graph.arcs ++ hidden)).Perm
        (apartFrom [id] (w.graph.arcs ++ edges)) := h.perm.filter _
    have happend (l m : List Edge) : apartFrom [id] (l ++ m) = apartFrom [id] l ++ apartFrom [id] m :=
      List.filter_append ..
    rw [happend, happend, hbase hidden h.hidden_mem, hbase w.graph.arcs fun _ he => he,
      ← harcs] at hp
    exact hp
  · have hsub : (apartFrom [id] edges).Sublist edges := List.filter_sublist
    exact h.nodup_arcs.sublist ((List.Sublist.refl _).append hsub)

end LayeredDrawing
