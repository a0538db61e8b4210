import LayeredDrawing.Proofs.Ledger.Basic
import LayeredDrawing.Proofs.Workspace.Sound

/-!
# Workspaces that keep a ledger

`Workspace.Keeps` says that the graph is coherent and registers the edges of the ledger, and that the
store of bends holds those of every edge that was made.  What can be asked of such a graph is settled
by the ledger, up to the order of the edges (`Keeps.shows`).

* `Workspace.Shows`    what the queries answer, in terms of the ledger alone;
* `Keeps.change`       nodes or edges change, but no edge comes in;
* `Keeps.withRecords`  bends change, or an edge is made outside the graph;
* `Keeps.attach`       an edge comes in.

An edge made outside the graph may carry a key that another one has, so keys do not tell the edges
apart that were made.  Their slots do.
-/

namespace LayeredDrawing

namespace Workspace

variable {α : Type}

/-- what a caller sees of the graph, in terms of the ledger -/
structure Shows (w : Workspace α) (l : Ledger α) : Prop where
  nodeIds : w.graph.nodeIds = l.nodes.keys
  node : ∀ id, w.graph.node id = l.nodes.entry id
  require : ∀ id, w.graph.require id = l.require id
  nextKey : w.graph.nextKey = l.nextKey
  bends : ∀ r ∈ l.records, w.bends.get r.edge.slot = r.bends
  edge : ∀ key e, w.graph.edge key = .ok e ↔ l.edges.get? key = some e
  key_eq : ∀ key e, l.edges.get? key = some e → e.key = key
  hasEdge : ∀ e, w.graph.hasEdge e = l.edges.contains e.key
  edges : w.graph.edges.Perm l.edges.values
  edges_nodup : w.graph.edges.Nodup
  keys_nodup : (w.graph.edges.map Edge.key).Nodup
  key_lt : ∀ e ∈ w.graph.edges, e.key < l.nextKey
  ends : ∀ e ∈ w.graph.edges, e.source ∈ l.nodes.keys ∧ e.target ∈ l.nodes.keys
  numberOfEdges : w.graph.arcs.length = l.edges.size
  outEdges : ∀ id, (w.graph.outEdges id).Perm (l.edges.values.filter fun e => e.source = id)
  inEdges : ∀ id, (w.graph.inEdges id).Perm (l.edges.values.filter fun e => e.target = id)
  outDegree : ∀ id, (w.graph.outEdges id).length = l.edges.values.countP fun e => e.source = id
  inDegree : ∀ id, (w.graph.inEdges id).length = l.edges.values.countP fun e => e.target = id
  successors : ∀ id, (w.graph.successors id).Perm
    ((l.edges.values.filter fun e => e.source = id).map Edge.target)
  predecessors : ∀ id, (w.graph.predecessors id).Perm
    ((l.edges.values.filter fun e => e.target = id).map Edge.source)

/-- every record has its place for a slot -/
def Numbered (records : List (Record α)) : Prop :=
  ∀ slot (r : Record α), records[slot]? = some r → r.edge.slot = slot

structure Keeps (w : Workspace α) (l : Ledger α) : Prop where
  coherent : w.graph.Coherent
  nodes : w.graph.nodes = l.nodes
  index : w.graph.index = l.edges
  nextKey : w.graph.nextKey = l.nextKey
  bends : w.bends.slots.toList = l.records.map Record.bends
  numbered : Numbered l.records
  known : ∀ e ∈ w.graph.arcs, e ∈ l.made

theorem keeps_empty : (default : Workspace α).Keeps .empty where
  coherent := Graph.coherent_empty
  nodes := rfl
  index := rfl
  nextKey := rfl
  bends := rfl
  numbered _ _ h := by cases h
  known _ he := by cases he

section
variable {w : Workspace α} {l : Ledger α} (h : w.Keeps l)
include h

/-! ## records -/

theorem Keeps.fresh : w.bends.fresh = l.records.length := by
  rw [Bends.fresh, ← Array.length_toList, h.bends, List.length_map]

theorem Keeps.get {slot : Nat} {r : Record α} (hr : l.records[slot]? = some r) :
    w.bends.get slot = r.bends := by
  rw [Bends.get, Array.getD_eq_getD_getElem?, ← Array.getElem?_toList, h.bends, List.getElem?_map, hr]
  rfl

theorem Keeps.exists_record {e : Edge} (he : e ∈ l.made) :
    ∃ bends, l.records[e.slot]? = some ⟨e, bends⟩ := by
  obtain ⟨r, hr, rfl⟩ := List.mem_map.1 he
  obtain ⟨slot, hslot, rfl⟩ := List.getElem_of_mem hr
  have hget := List.getElem?_eq_getElem hslot
  exact ⟨_, by rw [h.numbered slot _ hget, hget]⟩

theorem Keeps.slot_inj {a b : Edge} (ha : a ∈ l.made) (hb : b ∈ l.made) (hab : a.slot = b.slot) :
    a = b := by
  obtain ⟨_, hra⟩ := h.exists_record ha
  obtain ⟨_, hrb⟩ := h.exists_record hb
  rw [hab] at hra
  exact congrArg Record.edge (Option.some.inj (hra.symm.trans hrb))

theorem Keeps.sound : w.Sound w.graph.arcs where
  coherent := h.coherent
  known_of_mem _ he := he
  key_inj _ ha _ hb := h.coherent.eq_of_key ha hb
  slot_inj _ ha _ hb := h.slot_inj (h.known _ ha) (h.known _ hb)
  key_lt := h.coherent.key_lt
  slot_lt e he := by
    obtain ⟨_, hr⟩ := h.exists_record (h.known e he)
    rw [h.fresh]
    exact (List.getElem?_eq_some_iff.1 hr).1

/-! ## edges -/

theorem Keeps.get?_edges {key : Int} {e : Edge} :
    l.edges.get? key = some e ↔ e ∈ w.graph.arcs ∧ e.key = key := by
  rw [← h.index]
  exact h.coherent.index_iff key e

theorem Keeps.mem_values {e : Edge} : e ∈ l.edges.values ↔ e ∈ w.graph.arcs := by
  rw [OrderedMap.mem_values_iff]
  constructor
  · intro hx
    obtain ⟨key, hkey⟩ := hx
    exact (h.get?_edges.1 hkey).1
  · exact fun he => ⟨e.key, h.get?_edges.2 ⟨he, rfl⟩⟩

theorem Keeps.registered_iff {e : Edge} : l.registered e = true ↔ e ∈ w.graph.arcs := by
  rw [Ledger.registered, decide_eq_true_iff, h.get?_edges]
  exact ⟨fun hx => hx.1, fun he => ⟨he, rfl⟩⟩

/-- each edge of the index stands among the arcs once -/
theorem Keeps.perm_arcs : w.graph.arcs.Perm l.edges.values := by
  have hkey {p : Int × Edge} (hp : p ∈ l.edges.entries) : p.2.key = p.1 :=
    (h.get?_edges.1 (OrderedMap.get?_eq_some_iff.2 hp)).2
  have hmap : l.edges.values.map Edge.key = l.edges.keys := by
    rw [OrderedMap.values, OrderedMap.keys, List.map_map]
    exact List.map_congr_left fun p hp => hkey hp
  have hnodup : l.edges.values.Nodup := .of_map Edge.key (by rw [hmap]; exact l.edges.nodup_keys)
  exact (List.perm_ext_iff_of_nodup h.coherent.nodup hnodup).2 fun e => h.mem_values.symm

theorem Keeps.shows : w.Shows l where
  nodeIds := by rw [Graph.nodeIds, h.nodes]
  node id := by rw [Graph.node, h.nodes]
  require id := by rw [Graph.require, Graph.hasNode, h.nodes, Ledger.require]
  nextKey := h.nextKey
  bends r hr := by
    obtain ⟨slot, hslot, rfl⟩ := List.getElem_of_mem hr
    have hget := List.getElem?_eq_getElem hslot
    rw [h.numbered slot _ hget, h.get hget]
  edge key e := by
    rw [h.get?_edges, ← h.coherent.index_iff]
    unfold Graph.edge
    split <;> simp_all
  key_eq key e he := (h.get?_edges.1 he).2
  hasEdge e := by rw [Graph.hasEdge, h.index]
  edges := h.coherent.perm_edges.trans h.perm_arcs
  edges_nodup := h.coherent.perm_edges.nodup_iff.2 h.coherent.nodup
  keys_nodup := by
    refine (h.coherent.perm_edges.nodup_iff.2 h.coherent.nodup).map_on fun a ha b hb hab => ?_
    exact h.coherent.eq_of_key (h.coherent.mem_edges.1 ha) (h.coherent.mem_edges.1 hb) hab
  key_lt e he := h.nextKey ▸ h.coherent.key_lt e (h.coherent.mem_edges.1 he)
  ends e he := by
    have he := h.coherent.mem_edges.1 he
    rw [← h.nodes]
    exact ⟨h.coherent.source_mem e he, h.coherent.target_mem e he⟩
  numberOfEdges := by
    rw [h.perm_arcs.length_eq, OrderedMap.values, List.length_map, OrderedMap.size]
  outEdges id := h.perm_arcs.filter _
  inEdges id := h.perm_arcs.filter _
  outDegree id := by
    rw [List.countP_eq_length_filter]
    exact (h.perm_arcs.filter _).length_eq
  inDegree id := by
    rw [List.countP_eq_length_filter]
    exact (h.perm_arcs.filter _).length_eq
  successors id := (h.perm_arcs.filter _).map _
  predecessors id := (h.perm_arcs.filter _).map _

/-! ## changes -/

/-- a change of the graph that brings in no edge -/
theorem Keeps.change {g : Graph α} {l' : Ledger α} (hg : g.Coherent)
    (harcs : ∀ e ∈ g.arcs, e ∈ w.graph.arcs) (hnodes : g.nodes = l'.nodes)
    (hindex : g.index = l'.edges) (hnext : g.nextKey = l'.nextKey) (hrecords : l'.records = l.records) :
    ({ w with graph := g } : Workspace α).Keeps l' where
  coherent := hg
  nodes := hnodes
  index := hindex
  nextKey := hnext
  bends := by rw [hrecords, h.bends]
  numbered := by rw [hrecords]; exact h.numbered
  known e he := by rw [Ledger.made, hrecords]; exact h.known e (harcs e he)

/-- a change of the bends, or another edge outside the graph -/
theorem Keeps.withRecords {b : Bends α} {records : List (Record α)}
    (hbends : b.slots.toList = records.map Record.bends)
    (hnumbered : Numbered records)
    (hmade : ∀ a ∈ l.made, a ∈ records.map Record.edge) :
    (⟨w.graph, b⟩ : Workspace α).Keeps { l with records := records } where
  coherent := h.coherent
  nodes := h.nodes
  index := h.index
  nextKey := h.nextKey
  bends := hbends
  numbered := hnumbered
  known e he := hmade e (h.known e he)

/-- an edge put into the graph, whose record the ledger has -/
theorem Keeps.attach {e : Edge} {next : Int} {b : Bends α} {records : List (Record α)}
    (hkey : ∀ a ∈ w.graph.arcs, a.key ≠ e.key) (hs : e.source ∈ w.graph.nodeIds)
    (ht : e.target ∈ w.graph.nodeIds) (hle : w.graph.nextKey ≤ next) (hlt : e.key < next)
    (hbends : b.slots.toList = records.map Record.bends)
    (hnumbered : Numbered records)
    (hmade : ∀ a ∈ l.made, a ∈ records.map Record.edge) (he : e ∈ records.map Record.edge) :
    (⟨{ w.graph with nextKey := next }.attach e, b⟩ : Workspace α).Keeps
      ⟨l.nodes, l.edges.insert e.key e, next, records⟩ where
  coherent := h.coherent.attach hkey hs ht hle hlt
  nodes := h.nodes
  index := by rw [Graph.index_attach, h.index]
  nextKey := rfl
  bends := hbends
  numbered := hnumbered
  known a ha := by
    have hp : ({ w.graph with nextKey := next }.attach e).arcs.Perm (e :: w.graph.arcs) :=
      Graph.perm_attach hkey
    rcases List.mem_cons.1 (hp.mem_iff.1 ha) with rfl | ha
    · exact he
    · exact hmade a (h.known a ha)

theorem Keeps.snoc {r : Record α} (hr : r.edge.slot = l.records.length) :
    (w.bends.push r.bends).slots.toList = (l.records ++ [r]).map Record.bends ∧
      Numbered (l.records ++ [r]) := by
  refine ⟨?_, fun slot s hs => ?_⟩
  · rw [Bends.push, Array.toList_push, h.bends, List.map_append, List.map_singleton]
  · rcases Nat.lt_trichotomy slot l.records.length with hlt | rfl | hlt
    · rw [List.getElem?_append_left hlt] at hs
      exact h.numbered slot s hs
    · rw [List.getElem?_concat_length] at hs
      cases hs
      exact hr
    · rw [List.getElem?_eq_none (by rw [List.length_append, List.length_singleton]; omega)] at hs
      cases hs

theorem Keeps.bend {e : Edge} (he : e ∈ l.made) (f : List (Point α) → List (Point α)) :
    (w.bends.set e.slot (f (w.bends.get e.slot))).slots.toList = (l.bend e f).map Record.bends ∧
      Numbered (l.bend e f) ∧ (l.bend e f).map Record.edge = l.made := by
  obtain ⟨bends, hr⟩ := h.exists_record he
  refine ⟨List.ext_getElem? fun slot => ?_, fun slot r hget => ?_, List.ext_getElem? fun slot => ?_⟩
  · rw [Bends.set, Array.toList_setIfInBounds, h.bends, List.getElem?_set, List.length_map,
      List.getElem?_map, List.getElem?_map, Ledger.bend, List.getElem?_modify]
    by_cases hslot : e.slot = slot
    · subst hslot
      rw [if_pos rfl, if_pos (List.getElem?_eq_some_iff.1 hr).1, hr, h.get hr]
      simp
    · simp [hslot]
  · rw [Ledger.bend, List.getElem?_modify] at hget
    obtain ⟨r', hr', rfl⟩ := Option.map_eq_some_iff.1 hget
    rw [← h.numbered slot r' hr']
    split <;> rfl
  · rw [Ledger.made, List.getElem?_map, List.getElem?_map, Ledger.bend, List.getElem?_modify]
    cases l.records[slot]? with
    | none => rfl
    | some r =>
      simp only [Option.map_eq_map, Option.map_some]
      split <;> rfl

end

end Workspace

end LayeredDrawing
