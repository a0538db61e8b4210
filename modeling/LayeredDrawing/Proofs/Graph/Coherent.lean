import LayeredDrawing.Graph.Edit
import LayeredDrawing.Proofs.OrderedMap.Entries
import Mathlib.Data.List.Perm.Basic
import Mathlib.Data.List.Nodup

/-!
# Coherent graphs

A graph keeps its edges twice, in the list of arcs and in the index by key.  `Graph.Coherent` says
that the two agree, that every edge joins nodes of the graph, and that no key is as large as the
next one.  Every change keeps this.

* `Coherent.eq_of_key`   a key belongs to one edge;
* `perm_attach`          attaching adds one arc, wherever it is put;
* `Coherent.perm_edges`  the edges listed by source are the arcs.
-/

namespace LayeredDrawing

theorem Edge.parallel_iff {a b : Edge} :
    a.parallel b = true ↔ a.source = b.source ∧ a.target = b.target := by
  simp [parallel]

theorem Edge.parallel_trans {a b c : Edge} (hab : a.parallel b = true) (hbc : b.parallel c = true) :
    a.parallel c = true := by
  rw [parallel_iff] at hab hbc ⊢
  exact ⟨hab.1.trans hbc.1, hab.2.trans hbc.2⟩

theorem Edge.parallel_symm {a b : Edge} (h : a.parallel b = true) : b.parallel a = true := by
  rw [parallel_iff] at h ⊢
  exact ⟨h.1.symm, h.2.symm⟩

theorem Edge.sameArc_iff {a b : Edge} : a.sameArc b = true ↔
    (a.source = b.source ∧ a.target = b.target) ∧ a.key = b.key := by
  simp [sameArc, parallel_iff]

namespace Graph

variable {α : Type}

/-- every edge joins nodes of the graph -/
def Joined (g : Graph α) : Prop := ∀ e ∈ g.arcs, e.source ∈ g.nodeIds ∧ e.target ∈ g.nodeIds

structure Coherent (g : Graph α) : Prop where
  nodup : g.arcs.Nodup
  index_iff : ∀ key e, g.index.get? key = some e ↔ e ∈ g.arcs ∧ e.key = key
  source_mem : ∀ e ∈ g.arcs, e.source ∈ g.nodeIds
  target_mem : ∀ e ∈ g.arcs, e.target ∈ g.nodeIds
  key_lt : ∀ e ∈ g.arcs, e.key < g.nextKey

theorem Coherent.joined {g : Graph α} (h : g.Coherent) : g.Joined := fun e he =>
  ⟨h.source_mem e he, h.target_mem e he⟩

theorem coherent_empty : (empty : Graph α).Coherent where
  nodup := List.nodup_nil
  index_iff key e := by
    show (none : Option Edge) = some e ↔ e ∈ [] ∧ e.key = key
    simp
  source_mem e he := by cases he
  target_mem e he := by cases he
  key_lt e he := by cases he

theorem hasNode_iff {g : Graph α} {id : NodeId} : g.hasNode id = true ↔ id ∈ g.nodeIds :=
  g.nodes.contains_iff id

theorem nodup_nodeIds (g : Graph α) : g.nodeIds.Nodup := g.nodes.nodup_keys

theorem node_eq_ok_iff {g : Graph α} {id : NodeId} {n : Node α} :
    g.node id = .ok n ↔ g.nodes.get? id = some n := by
  unfold node OrderedMap.entry
  split <;> simp_all

/-! ## attaching and detaching -/

theorem placeArc_eq_insertArc {e : Edge} {l : List Edge} (h : ∀ a ∈ l, a.key ≠ e.key) :
    placeArc e l = insertArc e l := by
  have hn : l.any (Edge.sameArc e) = false := by
    rw [List.any_eq_false]
    intro a ha hs
    exact h a ha (Edge.sameArc_iff.1 hs).2.symm
  rw [placeArc, hn]
  rfl

/-- an arc whose key is new goes in beside the others -/
theorem perm_attach {g : Graph α} {e : Edge} (h : ∀ a ∈ g.arcs, a.key ≠ e.key) :
    (g.attach e).arcs.Perm (e :: g.arcs) := by
  show (placeArc e g.arcs).Perm (e :: g.arcs)
  rw [placeArc_eq_insertArc h]
  exact insertArc_perm e g.arcs

/-- an arc goes to the end of the list, unless parallel ones stand elsewhere -/
theorem insertArc_eq_append {e : Edge} {l : List Edge}
    (h : ∀ a ∈ l, a.parallel e = true → ∃ x, l.getLast? = some x ∧ x.parallel e = true) :
    insertArc e l = l ++ [e] := by
  induction l with
  | nil => rfl
  | cons a l ih =>
    unfold insertArc
    split
    · rename_i hcond
      simp only [Bool.and_eq_true, Bool.not_eq_true', List.any_eq_false] at hcond
      obtain ⟨x, hx, hxe⟩ := h a List.mem_cons_self hcond.1
      cases l with
      | nil => rfl
      | cons b l =>
        have hmem : x ∈ b :: l := by
          rw [List.getLast?_cons_cons] at hx
          exact List.mem_of_getLast? hx
        exact absurd (Edge.parallel_symm hxe) (hcond.2 x hmem)
    · rw [ih fun b hb hbe => ?_]
      · rfl
      · obtain ⟨x, hx, hxe⟩ := h b (List.mem_cons_of_mem _ hb) hbe
        cases l with
        | nil => cases hb
        | cons d l => exact ⟨x, by rwa [List.getLast?_cons_cons] at hx, hxe⟩

section
variable {g : Graph α} (hg : g.Coherent)
include hg

theorem Coherent.eq_of_key {a b : Edge} (ha : a ∈ g.arcs) (hb : b ∈ g.arcs) (h : a.key = b.key) :
    a = b := by
  have h1 := (hg.index_iff a.key a).2 ⟨ha, rfl⟩
  have h2 := (hg.index_iff a.key b).2 ⟨hb, h.symm⟩
  exact Option.some.inj (h1.symm.trans h2)

theorem Coherent.hasEdge_iff {e : Edge} : g.hasEdge e = true ↔ ∃ a ∈ g.arcs, a.key = e.key := by
  rw [hasEdge, OrderedMap.contains_iff]
  constructor
  · intro h
    obtain ⟨a, ha⟩ := OrderedMap.exists_get?_of_mem h
    exact ⟨a, (hg.index_iff e.key a).1 ha⟩
  · intro hx
    obtain ⟨a, ha, hk⟩ := hx
    exact OrderedMap.mem_keys_of_get? ((hg.index_iff e.key a).2 ⟨ha, hk⟩)

theorem Coherent.attach {e : Edge} {next : Int} (hkey : ∀ a ∈ g.arcs, a.key ≠ e.key)
    (hs : e.source ∈ g.nodeIds) (ht : e.target ∈ g.nodeIds) (hle : g.nextKey ≤ next)
    (hlt : e.key < next) : ({ g with nextKey := next }.attach e).Coherent := by
  have hp : ({ g with nextKey := next }.attach e).arcs.Perm (e :: g.arcs) := perm_attach hkey
  refine ⟨?_, ?_, ?_, ?_, ?_⟩
  · rw [hp.nodup_iff, List.nodup_cons]
    exact ⟨fun he => hkey e he rfl, hg.nodup⟩
  · intro key a
    rw [hp.mem_iff, List.mem_cons]
    show (g.index.insert e.key e).get? key = some a ↔ _
    rw [OrderedMap.get?_insert]
    by_cases h : key = e.key
    · rw [if_pos h]
      constructor
      · intro hea
        obtain rfl := Option.some.inj hea
        exact ⟨.inl rfl, h.symm⟩
      · rintro ⟨rfl | ha, hk⟩
        · rfl
        · exact absurd (hk.trans h) (hkey a ha)
    · rw [if_neg h, hg.index_iff]
      constructor
      · exact fun ⟨ha, hk⟩ => ⟨.inr ha, hk⟩
      · rintro ⟨rfl | ha, hk⟩
        · exact absurd hk.symm h
        · exact ⟨ha, hk⟩
  · intro a ha
    rcases List.mem_cons.1 (hp.mem_iff.1 ha) with rfl | ha
    · exact hs
    · exact hg.source_mem a ha
  · intro a ha
    rcases List.mem_cons.1 (hp.mem_iff.1 ha) with rfl | ha
    · exact ht
    · exact hg.target_mem a ha
  · intro a ha
    rcases List.mem_cons.1 (hp.mem_iff.1 ha) with rfl | ha
    · exact hlt
    · exact Int.lt_of_lt_of_le (hg.key_lt a ha) hle

/-- what `detach` does, for an edge that is in the graph or only looks like one -/
theorem Coherent.detach_ok {e : Edge} {g' : Graph α} (h : g.detach e = .ok g') :
    g'.Coherent ∧ g'.nodes = g.nodes ∧ g'.nextKey = g.nextKey ∧
      g'.arcs = g.arcs.filter fun a => !a.sameArc e := by
  unfold detach at h
  split at h
  · cases h
  · split at h
    · cases h
    · split at h
      · cases h
      · rename_i _ _ hsame
        simp only [Bool.not_eq_true', Bool.not_eq_false, List.any_eq_true] at hsame
        obtain ⟨a, ha, hae⟩ := hsame
        have hkey : a.key = e.key := (Edge.sameArc_iff.1 hae).2.symm
        cases h
        have hmem {b : Edge} (hb : b ∈ g.arcs.filter fun a => !a.sameArc e) : b ∈ g.arcs :=
          (List.mem_filter.1 hb).1
        refine ⟨⟨hg.nodup.filter _, ?_, fun b hb => hg.source_mem b (hmem hb),
          fun b hb => hg.target_mem b (hmem hb), fun b hb => hg.key_lt b (hmem hb)⟩, rfl, rfl, rfl⟩
        intro key b
        by_cases hk : key = e.key
        · show (g.index.erase e.key).get? key = some b ↔ _
          rw [hk, OrderedMap.get?_erase_self]
          constructor
          · intro hb
            cases hb
          · intro hx
            obtain ⟨hb, hbk⟩ := hx
            obtain ⟨hb, hne⟩ := List.mem_filter.1 hb
            obtain ⟨⟨hs, ht⟩, hk⟩ := Edge.sameArc_iff.1 hae
            have hsame : a.sameArc e = true := Edge.sameArc_iff.2 ⟨⟨hs.symm, ht.symm⟩, hk.symm⟩
            rw [hg.eq_of_key hb ha (hbk.trans hkey.symm), hsame] at hne
            cases hne
        · show (g.index.erase e.key).get? key = some b ↔ _
          rw [OrderedMap.get?_erase_of_ne hk, hg.index_iff, List.mem_filter]
          constructor
          · intro hx
            obtain ⟨hb, hbk⟩ := hx
            refine ⟨⟨hb, ?_⟩, hbk⟩
            have hn : b.sameArc e ≠ true := fun hs => hk (hbk ▸ (Edge.sameArc_iff.1 hs).2)
            simpa using hn
          · exact fun ⟨hb, hbk⟩ => ⟨hb.1, hbk⟩

/-- an edge of the graph can be detached, and nothing else goes with it -/
theorem Coherent.detach_of_mem {e : Edge} (he : e ∈ g.arcs) : ∃ g', g.detach e = .ok g' ∧
    g'.Coherent ∧ g'.nodes = g.nodes ∧ g'.nextKey = g.nextKey ∧ (e :: g'.arcs).Perm g.arcs ∧
      g'.arcs = g.arcs.filter fun a => a ≠ e := by
  have hself : e.sameArc e = true := Edge.sameArc_iff.2 ⟨⟨rfl, rfl⟩, rfl⟩
  have h1 : g.hasEdge e = true := hg.hasEdge_iff.2 ⟨e, he, rfl⟩
  have h2 : g.arcs.any (Edge.parallel e) = true :=
    List.any_eq_true.2 ⟨e, he, Edge.parallel_iff.2 ⟨rfl, rfl⟩⟩
  have h3 : g.arcs.any (Edge.sameArc e) = true := List.any_eq_true.2 ⟨e, he, hself⟩
  have hd : g.detach e = .ok { g with
      arcs := g.arcs.filter fun a => !a.sameArc e
      index := g.index.erase e.key } := by
    simp [detach, h1, h2, h3]
  obtain ⟨hc, hn, hk, ha⟩ := hg.detach_ok hd
  have hf : (g.arcs.filter fun a => !a.sameArc e) = g.arcs.filter fun a => a ≠ e := by
    refine List.filter_congr fun a ha => ?_
    by_cases h : a = e
    · rw [h, hself]
      simp
    · have hn : a.sameArc e ≠ true := fun hs =>
        h (hg.eq_of_key ha he (Edge.sameArc_iff.1 hs).2)
      simp [h, hn]
  have herase : (g.arcs.filter fun a => a ≠ e) = g.arcs.erase e := by
    rw [hg.nodup.erase_eq_filter]
    exact List.filter_congr fun a _ => by simp [bne, Bool.beq_eq_decide_eq]
  refine ⟨_, hd, hc, hn, hk, ?_, hf⟩
  rw [hf, herase]
  exact (List.perm_cons_erase he).symm

end

/-! ## adding, changing and removing nodes -/

section
variable {g g' : Graph α} {id : NodeId}

theorem addNode_ok {n : Node α} (h : g.addNode id n = .ok g') :
    id ∉ g.nodeIds ∧ g' = { g with nodes := g.nodes.insert id n } := by
  unfold addNode at h
  split at h
  · cases h
  · rename_i hn
    split at h
    · cases h
    · cases h
      exact ⟨fun hm => hn (hasNode_iff.2 hm), rfl⟩

theorem addNode_of_not_mem (hid : id ∉ g.nodeIds) (hnull : id ≠ .null) (n : Node α) :
    g.addNode id n = .ok { g with nodes := g.nodes.insert id n } := by
  have hn : ¬ g.hasNode id = true := fun h => hid (hasNode_iff.1 h)
  rw [addNode, if_neg hn, if_neg hnull]

theorem modifyNode_ok {f : Node α → Node α} (h : g.modifyNode id f = .ok g') :
    g' = { g with nodes := g.nodes.modify id f } := by
  unfold modifyNode at h
  cases hn : g.node id with
  | ok n => rw [hn] at h; cases h; rfl
  | error fault => rw [hn] at h; cases h

theorem modifyNode_of_mem (h : id ∈ g.nodeIds) (f : Node α → Node α) :
    g.modifyNode id f = .ok { g with nodes := g.nodes.modify id f } := by
  obtain ⟨n, hn⟩ := OrderedMap.exists_get?_of_mem h
  unfold modifyNode
  rw [node_eq_ok_iff.2 hn]
  rfl

/-- the arcs that do not touch a node -/
def arcsApart (g : Graph α) (id : NodeId) : List Edge :=
  g.arcs.filter fun e => decide (e.source ≠ id) && decide (e.target ≠ id)

theorem mem_arcsApart {e : Edge} :
    e ∈ g.arcsApart id ↔ e ∈ g.arcs ∧ e.source ≠ id ∧ e.target ≠ id := by
  simp [arcsApart]

/-- the keys of the edges that a node takes along -/
theorem mem_lostKeys {key : Int} : key ∈ (g.inEdges id ++ g.outEdges id).map Edge.key ↔
    ∃ e ∈ g.arcs, e.key = key ∧ (e.target = id ∨ e.source = id) := by
  simp only [inEdges, outEdges, List.mem_map, List.mem_append, List.mem_filter, decide_eq_true_eq]
  constructor
  · rintro ⟨e, he | he, hk⟩
    · exact ⟨e, he.1, hk, .inl he.2⟩
    · exact ⟨e, he.1, hk, .inr he.2⟩
  · rintro ⟨e, he, hk, ht | hs⟩
    · exact ⟨e, .inl ⟨he, ht⟩, hk⟩
    · exact ⟨e, .inr ⟨he, hs⟩, hk⟩

theorem removeNode_ok (h : g.removeNode id = .ok g') : id ∈ g.nodeIds ∧ g' = { g with
    nodes := g.nodes.erase id
    arcs := g.arcsApart id
    index := (g.inEdges id ++ g.outEdges id).foldl (fun index e => index.erase e.key) g.index } := by
  unfold removeNode at h
  cases hr : g.require id with
  | error fault => rw [hr] at h; cases h
  | ok u =>
    rw [hr] at h
    cases h
    refine ⟨hasNode_iff.1 (require_eq_ok_iff.1 hr), ?_⟩
    simp only [arcsApart, Bool.decide_and]

theorem removeNode_of_mem (h : id ∈ g.nodeIds) : ∃ g', g.removeNode id = .ok g' := by
  unfold removeNode
  rw [require_eq_ok_iff.2 (hasNode_iff.2 h)]
  exact ⟨_, rfl⟩

theorem Coherent.with_nodes (hg : g.Coherent) {nodes : OrderedMap NodeId (Node α)}
    (h : ∀ id ∈ g.nodeIds, id ∈ nodes.keys) : ({ g with nodes := nodes } : Graph α).Coherent where
  nodup := hg.nodup
  index_iff := hg.index_iff
  source_mem e he := h _ (hg.source_mem e he)
  target_mem e he := h _ (hg.target_mem e he)
  key_lt := hg.key_lt

theorem Coherent.addNode (hg : g.Coherent) {n : Node α} (h : g.addNode id n = .ok g') :
    g'.Coherent := by
  obtain ⟨_, rfl⟩ := addNode_ok h
  exact hg.with_nodes fun j hj => OrderedMap.mem_keys_insert.2 (.inl hj)

theorem Coherent.modifyNode (hg : g.Coherent) {f : Node α → Node α}
    (h : g.modifyNode id f = .ok g') : g'.Coherent := by
  obtain rfl := modifyNode_ok h
  exact hg.with_nodes fun j hj => by rwa [OrderedMap.keys_modify]

theorem Coherent.removeNode (hg : g.Coherent) (h : g.removeNode id = .ok g') : g'.Coherent := by
  obtain ⟨_, rfl⟩ := removeNode_ok h
  have hkeep {j : NodeId} (hj : j ∈ g.nodeIds) (hne : j ≠ id) : j ∈ (g.nodes.erase id).keys := by
    rw [OrderedMap.keys_erase, List.mem_filter]
    exact ⟨hj, by simpa using hne⟩
  refine ⟨hg.nodup.filter _, ?_, fun e he => ?_, fun e he => ?_, fun e he => ?_⟩
  · intro key e
    show ((g.inEdges id ++ g.outEdges id).foldl (fun index e => index.erase e.key) g.index).get? key
      = some e ↔ e ∈ g.arcsApart id ∧ e.key = key
    rw [OrderedMap.get?_foldl_erase, mem_arcsApart]
    have hlost : key ∈ (g.inEdges id ++ g.outEdges id).map Edge.key ↔ _ := mem_lostKeys
    by_cases hl : key ∈ (g.inEdges id ++ g.outEdges id).map Edge.key
    · rw [if_pos hl]
      obtain ⟨a, ha, hk, htouch⟩ := hlost.1 hl
      constructor
      · intro he
        cases he
      · intro hx
        obtain ⟨⟨he, hs, ht⟩, hek⟩ := hx
        rw [hg.eq_of_key ha he (hk.trans hek.symm)] at htouch
        exact (htouch.elim ht hs).elim
    · rw [if_neg hl, hg.index_iff]
      constructor
      · intro hx
        obtain ⟨he, hk⟩ := hx
        exact ⟨⟨he, fun hs => hl (hlost.2 ⟨e, he, hk, .inr hs⟩),
          fun ht => hl (hlost.2 ⟨e, he, hk, .inl ht⟩)⟩, hk⟩
      · exact fun ⟨he, hk⟩ => ⟨he.1, hk⟩
  · obtain ⟨he, hs, _⟩ := mem_arcsApart.1 he
    exact hkeep (hg.source_mem e he) hs
  · obtain ⟨he, _, ht⟩ := mem_arcsApart.1 he
    exact hkeep (hg.target_mem e he) ht
  · exact hg.key_lt e (mem_arcsApart.1 he).1

end

/-! ## the edges by source -/

theorem edges_congr {g g' : Graph α} (hids : g.nodeIds = g'.nodeIds) (harcs : g.arcs = g'.arcs) :
    g.edges = g'.edges := by
  have hout : g.outEdges = g'.outEdges := by
    funext id
    rw [outEdges, outEdges, harcs]
  rw [edges, edges, hids, hout]

theorem Coherent.mem_edges {g : Graph α} (hg : g.Coherent) {e : Edge} :
    e ∈ g.edges ↔ e ∈ g.arcs := by
  simp only [edges, outEdges, List.mem_flatMap, List.mem_filter, decide_eq_true_eq]
  constructor
  · intro hx
    obtain ⟨_, _, he, _⟩ := hx
    exact he
  · exact fun he => ⟨e.source, hg.source_mem e he, he, rfl⟩

theorem Coherent.perm_edges {g : Graph α} (hg : g.Coherent) : g.edges.Perm g.arcs := by
  have hnodup : g.edges.Nodup := by
    rw [edges, List.nodup_flatMap]
    refine ⟨fun id _ => hg.nodup.filter _, g.nodup_nodeIds.imp fun {a b} hab => ?_⟩
    intro e ha hb
    have hsa : e.source = a := by simpa using (List.mem_filter.1 ha).2
    have hsb : e.source = b := by simpa using (List.mem_filter.1 hb).2
    exact hab (hsa.symm.trans hsb)
  exact (List.perm_ext_iff_of_nodup hnodup hg.nodup).2 fun e => hg.mem_edges

/-- graphs with the same edges register the same edges -/
theorem Coherent.edge_congr {g g' : Graph α} (hg : g.Coherent) (hg' : g'.Coherent)
    (h : ∀ e, e ∈ g.arcs ↔ e ∈ g'.arcs) (key : Int) : g.edge key = g'.edge key := by
  have hget : g.index.get? key = g'.index.get? key := by
    refine Option.ext fun e => ?_
    rw [hg.index_iff, hg'.index_iff, h]
  unfold edge
  rw [hget]

end Graph

end LayeredDrawing
