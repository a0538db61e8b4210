import LayeredDrawing.Proofs.Ledger.Upkeep
import LayeredDrawing.Proofs.Workspace.Cleaned

/-!
# Graphs refine ledgers

A graph answers every call as its ledger does, and shows what the ledger says afterwards; a call that
is refused leaves it as it is (`performAll_refines`).

* `Workspace.Follows`  one action against what the ledger says of it.  There is one lemma for each
                       operation;
* `Keeps.after`        one call;
* `Keeps.performAll`   any number of calls.
-/

namespace LayeredDrawing

namespace Workspace

variable {α : Type}

/-! ## calls -/

/-- the action ends as the ledger says; refused, it leaves the workspace alone -/
def Follows (a : Action α (Answer α)) (w : Workspace α) : Except Fault (Answer α × Ledger α) → Prop
  | .ok (b, l) => ∃ v, a.perform w = (.ok b, v) ∧ v.Keeps l
  | .error fault => a.perform w = (.error fault, w)

section
variable {w : Workspace α} {b : Answer α} {f : Graph α → Except Fault (Graph α)}

theorem follows_edit_ok {g : Graph α} {l : Ledger α} (hf : f w.graph = .ok g)
    (hg : ({ w with graph := g } : Workspace α).Keeps l) :
    Follows (do Action.edit f; return b) w (.ok (b, l)) := by
  refine ⟨_, ?_, hg⟩
  rw [Action.perform_bind, Action.perform_edit, hf]
  rfl

theorem follows_edit_error {fault : Fault} (hf : f w.graph = .error fault) :
    Follows (do Action.edit f; return b) w (.error fault) := by
  show Action.perform _ _ = _
  rw [Action.perform_bind, Action.perform_edit, hf]

theorem follows_edge_ok {a : Action α Edge} {e : Edge} {v : Workspace α} {l : Ledger α}
    (ha : a.perform w = (.ok e, v)) (hv : v.Keeps l) :
    Follows (do return .edge (← a)) w (.ok (.edge e, l)) :=
  ⟨v, Action.perform_bind_ok ha _, hv⟩

theorem follows_edge_error {a : Action α Edge} {fault : Fault} (ha : a.perform w = (.error fault, w)) :
    Follows (do return .edge (← a)) w (.error fault) :=
  Action.perform_bind_error ha _

end

section
variable {w : Workspace α} {l : Ledger α} (h : w.Keeps l)
include h

theorem Keeps.mem_nodeIds {id : NodeId} : id ∈ w.graph.nodeIds ↔ l.nodes.contains id = true := by
  rw [OrderedMap.contains_iff, ← h.nodes]
  rfl

theorem Keeps.require (id : NodeId) : w.graph.require id = l.require id := h.shows.require id

theorem Keeps.mem_of_require {id : NodeId} {u : Unit} (hid : l.require id = .ok u) :
    id ∈ w.graph.nodeIds :=
  Graph.hasNode_iff.1 (Graph.require_eq_ok_iff.1 ((h.require id).trans hid))

theorem Keeps.addNode (id : NodeId) (n : Node α) :
    Follows (do Action.edit fun g => g.addNode id n; return .node id n) w (l.addNode id n) := by
  unfold Ledger.addNode
  split
  · rename_i hid
    exact follows_edit_error (if_pos (Graph.hasNode_iff.2 (h.mem_nodeIds.2 hid)))
  · rename_i hid
    have hid : id ∉ w.graph.nodeIds := fun hmem => hid (h.mem_nodeIds.1 hmem)
    split
    · rename_i hnull
      refine follows_edit_error ((if_neg fun hmem => hid (Graph.hasNode_iff.1 hmem)).trans ?_)
      exact if_pos hnull
    · rename_i hnull
      have hok := Graph.addNode_of_not_mem hid hnull n
      refine follows_edit_ok hok (h.change (h.coherent.addNode hok) (fun _ he => he) ?_ h.index
        h.nextKey rfl)
      rw [h.nodes]

theorem Keeps.setCoordinates (id : NodeId) (x y : α) :
    Follows (do Action.edit fun g => g.setPosition id x y; return .done) w
      (l.setCoordinates id x y) := by
  unfold Ledger.setCoordinates
  split
  · rename_i hid
    have hok : w.graph.setPosition id x y = .ok _ := Graph.modifyNode_of_mem (h.mem_nodeIds.2 hid) _
    refine follows_edit_ok hok (h.change (h.coherent.modifyNode hok) (fun _ he => he) ?_ h.index
      h.nextKey rfl)
    rw [h.nodes]
  · rename_i hid
    refine follows_edit_error ?_
    have hnone : w.graph.nodes.get? id = none :=
      OrderedMap.get?_eq_none_iff.2 fun hmem => hid (h.mem_nodeIds.1 hmem)
    have hnode : w.graph.node id = .error (.noEntry id) := by
      rw [Graph.node, OrderedMap.entry, hnone]
    unfold Graph.setPosition Graph.modifyNode
    rw [hnode]
    rfl

theorem Keeps.removeNode (id : NodeId) :
    Follows (do Action.edit fun g => g.removeNode id; return .done) w (l.removeNode id) := by
  unfold Ledger.removeNode
  cases hid : l.require id with
  | error fault =>
    refine follows_edit_error ?_
    unfold Graph.removeNode
    rw [h.require, hid]
    rfl
  | ok u =>
    obtain ⟨g, hok⟩ := Graph.removeNode_of_mem (h.mem_of_require hid)
    have hg := h.coherent.removeNode hok
    obtain ⟨_, rfl⟩ := Graph.removeNode_ok hok
    refine follows_edit_ok hok (h.change hg (fun e he => (Graph.mem_arcsApart.1 he).1) ?_ ?_
      h.nextKey rfl)
    · rw [h.nodes]
    · show (w.graph.inEdges id ++ w.graph.outEdges id).foldl (fun index e => index.erase e.key)
        w.graph.index = l.edges.filter fun key =>
          (l.edges.get? key).all fun e => decide (e.source ≠ id) && decide (e.target ≠ id)
      rw [OrderedMap.foldl_erase, h.index]
      refine OrderedMap.filter_congr fun key hkey => ?_
      obtain ⟨e, he⟩ := OrderedMap.exists_get?_of_mem hkey
      obtain ⟨harc, hek⟩ := h.get?_edges.1 he
      rw [he, Option.all_some, ← Bool.decide_and, decide_eq_decide, Graph.mem_lostKeys]
      constructor
      · intro hlost
        exact ⟨fun hs => hlost ⟨e, harc, hek, .inr hs⟩, fun ht => hlost ⟨e, harc, hek, .inl ht⟩⟩
      · rintro ⟨hs, ht⟩ ⟨a, ha, hak, htouch⟩
        rw [h.coherent.eq_of_key ha harc (hak.trans hek.symm)] at htouch
        exact htouch.elim ht hs

theorem Keeps.addEdge (source target : NodeId) (isDummy : Bool) :
    Follows (do return .edge (← Action.addEdge source target isDummy)) w
      (l.addEdge source target isDummy) := by
  have hadd : w.graph.addEdge w.bends.fresh source target isDummy = do
      l.require source
      l.require target
      let e : Edge := ⟨l.records.length, l.nextKey, source, target, isDummy⟩
      return (e, { w.graph with nextKey := l.nextKey + 1 }.attach e) := by
    unfold Graph.addEdge
    rw [h.require, h.require, h.fresh, h.nextKey]
  unfold Ledger.addEdge
  cases hs : l.require source with
  | error fault =>
    rw [hs] at hadd
    exact follows_edge_error (by rw [Action.perform_addEdge, hadd]; rfl)
  | ok u =>
    cases ht : l.require target with
    | error fault =>
      rw [hs, ht] at hadd
      exact follows_edge_error (by rw [Action.perform_addEdge, hadd]; rfl)
    | ok u =>
      rw [hs, ht] at hadd
      let r : Record α := ⟨⟨l.records.length, l.nextKey, source, target, isDummy⟩, []⟩
      obtain ⟨hbends, hnumbered⟩ := h.snoc (show r.edge.slot = l.records.length from rfl)
      refine follows_edge_ok (by rw [Action.perform_addEdge, hadd]; rfl) (h.attach (fun a ha => ?_)
        (h.mem_of_require hs) (h.mem_of_require ht) ?_ ?_ hbends hnumbered (fun a ha => ?_) ?_)
      · have hlt := h.coherent.key_lt a ha
        rw [h.nextKey] at hlt
        exact Int.ne_of_lt hlt
      · rw [h.nextKey]
        omega
      · exact Int.lt_succ l.nextKey
      · rw [List.map_append]
        exact List.mem_append_left _ ha
      · rw [List.map_append]
        exact List.mem_append_right _ (List.mem_singleton_self _)

theorem Keeps.any_parallel (e : Edge) :
    w.graph.arcs.any (Edge.parallel e) = l.edges.values.any fun a => a.parallel e := by
  rw [Bool.eq_iff_iff, List.any_eq_true, List.any_eq_true]
  constructor
  · rintro ⟨a, ha, hae⟩
    exact ⟨a, h.mem_values.2 ha, Edge.parallel_symm hae⟩
  · rintro ⟨a, ha, hae⟩
    exact ⟨a, h.mem_values.1 ha, Edge.parallel_symm hae⟩

/-- of the edges with given ends, only the one registered under the key can be meant -/
theorem Keeps.any_sameArc {e r : Edge} (hget : l.edges.get? e.key = some r) :
    w.graph.arcs.any (Edge.sameArc e) = r.parallel e := by
  obtain ⟨hr, hkey⟩ := h.get?_edges.1 hget
  rw [Bool.eq_iff_iff, List.any_eq_true]
  constructor
  · rintro ⟨a, ha, hae⟩
    obtain ⟨hends, hkey'⟩ := Edge.sameArc_iff.1 hae
    obtain rfl := h.coherent.eq_of_key ha hr (hkey'.symm.trans hkey.symm)
    exact Edge.parallel_symm (Edge.parallel_iff.2 hends)
  · intro hends
    exact ⟨r, hr, Edge.sameArc_iff.2 ⟨Edge.parallel_iff.1 (Edge.parallel_symm hends), hkey.symm⟩⟩

theorem Keeps.removeEdge (e : Edge) :
    Follows (do Action.edit fun g => g.detach e; return .done) w (l.removeEdge e) := by
  have hhas : w.graph.hasEdge e = l.edges.contains e.key := h.shows.hasEdge e
  unfold Ledger.removeEdge
  split
  · rename_i hget
    have hnot : w.graph.hasEdge e = false := by
      rw [hhas, ← Bool.not_eq_true, OrderedMap.contains_iff]
      exact OrderedMap.get?_eq_none_iff.1 hget
    refine follows_edit_error ?_
    rw [Graph.detach, hnot]
    rfl
  · rename_i r hget
    have hyes : w.graph.hasEdge e = true := by
      rw [hhas, OrderedMap.contains_iff]
      exact OrderedMap.mem_keys_of_get? hget
    have hsame := h.any_sameArc hget
    split
    · rename_i hends
      have hany : (l.edges.values.any fun a => a.parallel e) = true :=
        List.any_eq_true.2 ⟨r, h.mem_values.2 (h.get?_edges.1 hget).1, hends⟩
      have hok : w.graph.detach e = .ok { w.graph with
          arcs := w.graph.arcs.filter fun a => !a.sameArc e
          index := w.graph.index.erase e.key } := by
        rw [Graph.detach, hyes, h.any_parallel, hany, hsame, hends]
        rfl
      obtain ⟨hg, hnodes, hnext, harcs⟩ := h.coherent.detach_ok hok
      refine follows_edit_ok hok (h.change hg (fun a ha => ?_) h.nodes ?_ h.nextKey rfl)
      · rw [harcs] at ha
        exact (List.mem_filter.1 ha).1
      · rw [h.index]
    · -- the key is taken by an edge with other ends
      rename_i hends
      rw [Bool.not_eq_true] at hends
      split
      · rename_i hany
        refine follows_edit_error ?_
        rw [Graph.detach, hyes, h.any_parallel, hany, hsame, hends]
        rfl
      · rename_i hany
        refine follows_edit_error ?_
        rw [Graph.detach, hyes, h.any_parallel, Bool.eq_false_iff.2 hany]
        rfl

theorem Keeps.reinsert {e : Edge} (he : e ∈ l.made) (hlt : e.key < l.nextKey) :
    Follows (do return .edge (← Action.reattach e)) w (l.reinsert e) := by
  have hattach : w.graph.reattach e = do
      if l.edges.contains e.key then throw (.edgePresent e)
      l.require e.source
      l.require e.target
      return w.graph.attach e := by
    unfold Graph.reattach
    rw [h.shows.hasEdge, h.require, h.require]
  unfold Ledger.reinsert
  cases hnot : l.edges.contains e.key with
  | true =>
    rw [hnot] at hattach
    exact follows_edge_error (by rw [Action.perform_reattach, hattach]; rfl)
  | false =>
    cases hs : l.require e.source with
    | error fault =>
      rw [hnot, hs] at hattach
      exact follows_edge_error (by rw [Action.perform_reattach, hattach]; rfl)
    | ok u =>
      cases ht : l.require e.target with
      | error fault =>
        rw [hnot, hs, ht] at hattach
        exact follows_edge_error (by rw [Action.perform_reattach, hattach]; rfl)
      | ok u =>
        rw [hnot, hs, ht] at hattach
        obtain ⟨hbends, hnumbered, hmade⟩ := h.bend he fun _ => []
        rw [← h.nextKey] at hlt ⊢
        refine follows_edge_ok (by rw [Action.perform_reattach, hattach]; rfl)
          (h.attach (fun a ha hae => ?_) (h.mem_of_require hs) (h.mem_of_require ht) (Int.le_refl _)
            hlt hbends hnumbered (fun a ha => ?_) ?_)
        · have hin : l.edges.contains e.key = true := by
            rw [OrderedMap.contains_iff]
            exact OrderedMap.mem_keys_of_get? (h.get?_edges.2 ⟨ha, hae⟩)
          rw [hnot] at hin
          cases hin
        · rw [hmade]
          exact ha
        · rw [hmade]
          exact he

theorem Keeps.makeEdge [Metric α] (key : Int) (source target : NodeId) (isDummy : Bool)
    (bends : List (Point α)) :
    Follows (Call.makeEdge key source target isDummy bends).act w
      (l.makeEdge key source target isDummy bends) := by
  let r : Record α := ⟨⟨l.records.length, key, source, target, isDummy⟩, bends⟩
  obtain ⟨hbends, hnumbered⟩ := h.snoc (show r.edge.slot = l.records.length from rfl)
  refine ⟨⟨w.graph, w.bends.push bends⟩, ?_, h.withRecords hbends hnumbered fun a ha => ?_⟩
  · rw [← h.fresh]
    rfl
  · rw [List.map_append]
    exact List.mem_append_left _ ha

theorem Keeps.addBend {e : Edge} (he : e ∈ l.made) (p : Point α) :
    Follows (do Action.addBend e p; return .done) w (l.addBend e p) := by
  obtain ⟨hbends, hnumbered, hmade⟩ := h.bend he fun bends => bends ++ [p]
  refine ⟨_, by rw [Action.perform_bind, Action.perform_addBend]; rfl,
    h.withRecords hbends hnumbered fun a ha => ?_⟩
  rw [hmade]
  exact ha

end

/-! ## cleaning -/

theorem toList_slots_eq {b : Bends α} {bends : List (List (Point α))} (hlen : b.fresh = bends.length)
    (hget : ∀ slot x, bends[slot]? = some x → b.get slot = x) : b.slots.toList = bends := by
  have hsize : b.slots.toList.length = bends.length := hlen
  refine List.ext_getElem hsize fun slot hslot hslot' => ?_
  rw [← hget slot _ (List.getElem?_eq_getElem hslot'), Bends.get, Array.getD_eq_getD_getElem?,
    ← Array.getElem?_toList, List.getElem?_eq_getElem hslot, Option.getD_some]

section
variable {w v : Workspace Rat} {l : Ledger Rat} {tol : Rat} (h : w.Keeps l)
include h

theorem Keeps.nodup_made : l.made.Nodup := by
  refine List.nodup_iff_getElem?_ne_getElem?.2 fun i j hij hj heq => ?_
  obtain ⟨r, hr⟩ : ∃ r, l.records[j]? = some r := by
    rw [Ledger.made, List.length_map] at hj
    exact ⟨_, List.getElem?_eq_getElem hj⟩
  obtain ⟨s, hs, hsr⟩ : ∃ s, l.records[i]? = some s ∧ s.edge = r.edge := by
    rw [Ledger.made, List.getElem?_map, List.getElem?_map, hr] at heq
    exact Option.map_eq_some_iff.1 heq
  have hi := h.numbered i s hs
  have hj := h.numbered j r hr
  rw [hsr, hj] at hi
  exact absurd hi (Nat.ne_of_gt hij)

/-- the edges of the graph are the registered ones of those that were made -/
theorem Keeps.perm_registered :
    ((l.records.filter fun r => l.registered r.edge = true).map Record.edge).Perm w.graph.edges := by
  have hnodup : ((l.records.filter fun r => l.registered r.edge = true).map Record.edge).Nodup :=
    h.nodup_made.sublist (List.filter_sublist.map Record.edge)
  refine (List.perm_ext_iff_of_nodup hnodup (h.coherent.perm_edges.nodup_iff.2 h.coherent.nodup)).2
    fun e => ?_
  rw [h.coherent.mem_edges, List.mem_map]
  constructor
  · rintro ⟨r, hr, rfl⟩
    exact h.registered_iff.1 (of_decide_eq_true (List.mem_filter.1 hr).2)
  · intro he
    obtain ⟨r, hr, rfl⟩ := List.mem_map.1 (h.known e he)
    exact ⟨r, List.mem_filter.2 ⟨hr, decide_eq_true (h.registered_iff.2 he)⟩, rfl⟩

/-- after cleaning, the store holds the bends of the cleaned records -/
theorem Keeps.get_clean (hv : Cleaned tol w w.graph.edges v) {slot : Nat} {r : Record Rat}
    (hr : l.records[slot]? = some r) : v.bends.get slot = (l.clean tol r).bends := by
  have hslot := h.numbered slot r hr
  have hold := h.get hr
  by_cases hreg : l.registered r.edge = true
  · have harc := h.registered_iff.1 hreg
    obtain ⟨p, q, hp, hq, hclean⟩ := hv.cleaned r.edge (h.coherent.mem_edges.2 harc)
    rw [Graph.position?, h.nodes] at hp hq
    obtain ⟨start, hstart, rfl⟩ := Option.map_eq_some_iff.1 hp
    obtain ⟨finish, hfinish, rfl⟩ := Option.map_eq_some_iff.1 hq
    rw [hslot, hold] at hclean
    rw [Ledger.clean, if_pos hreg, Ledger.cleaned, hstart, hfinish]
    dsimp only
    rw [hclean]
    rfl
  · rw [Ledger.clean, if_neg hreg, ← hold]
    refine hv.others slot fun hmem => hreg ?_
    obtain ⟨e, he, hes⟩ := List.mem_map.1 hmem
    have harc := h.coherent.mem_edges.1 he
    rw [← h.slot_inj (h.known e harc) (List.mem_map_of_mem (List.mem_of_getElem? hr))
      (hes.trans hslot.symm)]
    exact h.registered_iff.2 harc

theorem Keeps.bendsLost_clean (hv : Cleaned tol w w.graph.edges v) :
    bendsLost w v w.graph.edges
      = (l.records.map fun r => r.bends.length - (l.clean tol r).bends.length).sum := by
  have hlost : (l.records.map fun r => r.bends.length - (l.clean tol r).bends.length)
      = l.records.map fun r => if l.registered r.edge = true then
          (w.bends.get r.edge.slot).length - (v.bends.get r.edge.slot).length else 0 := by
    refine List.map_congr_left fun r hr => ?_
    obtain ⟨slot, hslot⟩ := List.getElem?_of_mem hr
    rw [h.numbered slot r hslot, h.get hslot, h.get_clean hv hslot]
    split
    · rfl
    · rename_i hreg
      rw [Ledger.clean, if_neg hreg, Nat.sub_self]
  have hperm := (h.perm_registered.map fun e =>
    (w.bends.get e.slot).length - (v.bends.get e.slot).length).sum_nat
  rw [List.map_map] at hperm
  rw [hlost, List.sum_map_ite, List.map_const', List.sum_replicate_nat, Nat.mul_zero, Nat.add_zero]
  exact hperm.symm

theorem Keeps.cleanBends (htol : 0 ≤ tol) :
    Follows (do return .removed (← Action.cleanRoutes tol)) w (l.cleanBends tol) := by
  obtain ⟨removed, v, hperform, hv, hremoved⟩ :=
    ((Action.leads_cleanRoutes_cleaned h.sound).mono (fun _ _ hv => hv) fun _ _ ⟨_, e, _, hunclean⟩ =>
      not_uncleanAt htol w e hunclean).exists_ok
  have hedge (r : Record Rat) : (l.clean tol r).edge = r.edge := by
    rw [Ledger.clean]
    split <;> rfl
  refine ⟨⟨w.graph, v.bends⟩, ?_, h.withRecords ?_ (fun slot r hr => ?_) fun a ha => ?_⟩
  · rw [Action.perform_bind_ok hperform, hremoved, h.bendsLost_clean hv, ← hv.graph]
    rfl
  · refine toList_slots_eq ?_ fun slot x hx => ?_
    · rw [hv.fresh, h.fresh, List.length_map, List.length_map]
    · rw [List.getElem?_map, List.getElem?_map] at hx
      obtain ⟨r, hr, rfl⟩ := Option.map_eq_some_iff.1 hx
      obtain ⟨s, hs, rfl⟩ := Option.map_eq_some_iff.1 hr
      exact h.get_clean hv hs
  · rw [List.getElem?_map] at hr
    obtain ⟨s, hs, rfl⟩ := Option.map_eq_some_iff.1 hr
    rw [hedge]
    exact h.numbered slot s hs
  · rw [List.map_map]
    exact (List.map_congr_left fun r _ => hedge r).symm ▸ ha

/-! ## whole runs -/

theorem Keeps.act (c : Call Rat) (hc : l.Allowed c) : Follows c.act w (l.act c) := by
  cases c with
  | addNode id label size => exact h.addNode id (.unplaced label size)
  | createDummyNode id layer x y => exact h.addNode id (.dummy layer x y)
  | removeNode id => exact h.removeNode id
  | setCoordinates id x y => exact h.setCoordinates id x y
  | addEdge source target isDummy => exact h.addEdge source target isDummy
  | makeEdge key source target isDummy bends => exact h.makeEdge key source target isDummy bends
  | removeEdge e => exact h.removeEdge e
  | reinsert e => exact h.reinsert hc.1 hc.2
  | addBend e p => exact h.addBend hc p
  | cleanBends tol => exact h.cleanBends hc

theorem Keeps.after (c : Call Rat) (hc : l.Allowed c) :
    ∃ v, c.act.perform w = ((l.act c).map Prod.fst, v) ∧ v.Keeps (l.after c) := by
  have hact := h.act c hc
  unfold Ledger.after
  cases hr : l.act c with
  | ok p =>
    rw [hr] at hact
    obtain ⟨v, hperform, hv⟩ := hact
    exact ⟨v, hperform, hv⟩
  | error fault =>
    rw [hr] at hact
    exact ⟨w, hact, h⟩

end

theorem Keeps.performAll {calls : List (Call Rat)} {w : Workspace Rat} {l : Ledger Rat}
    (h : w.Keeps l) (hcalls : l.AllAllowed calls) :
    ∃ v, Call.performAll calls w = ((l.actAll calls).1, v) ∧ v.Keeps (l.actAll calls).2 := by
  induction calls generalizing w l with
  | nil => exact ⟨w, rfl, h⟩
  | cons c rest ih =>
    obtain ⟨v, hperform, hv⟩ := h.after c hcalls.1
    obtain ⟨u, hrest, hu⟩ := ih hv hcalls.2
    refine ⟨u, ?_, hu⟩
    rw [Call.performAll, hperform]
    dsimp only
    rw [hrest]
    rfl

end Workspace

/-- whatever calls are made on an empty graph, it answers as its ledger does and shows what its ledger
says; a call that is refused then leaves everything as it is -/
theorem performAll_refines {calls : List (Call Rat)} (hcalls : Ledger.empty.AllAllowed calls) :
    ∃ answers w l, Call.performAll calls default = (answers, w) ∧
      Ledger.empty.actAll calls = (answers, l) ∧ w.Shows l ∧
      ∀ c fault, l.Allowed c → l.act c = .error fault → c.act.perform w = (.error fault, w) := by
  obtain ⟨w, hperform, hw⟩ := Workspace.keeps_empty.performAll hcalls
  refine ⟨_, w, _, hperform, rfl, hw.shows, fun c fault hc hrefused => ?_⟩
  have hact := hw.act c hc
  rw [hrefused] at hact
  exact hact

/-- an edge made outside the graph under a key that is taken: the graph refuses to let go of it, takes it
in once the key is free, and cleans the bend that it gets -/
def forgery : List (Call Rat) :=
  let edge : Edge := ⟨0, 0, .int 1, .int 2, false⟩
  let forged : Edge := ⟨1, 0, .int 2, .int 2, true⟩
  [.addNode (.int 1) "" none, .createDummyNode (.int 2) 1 3 4, .addEdge (.int 1) (.int 2) false,
    .makeEdge 0 (.int 2) (.int 2) true [⟨1, 1⟩], .removeEdge forged, .reinsert forged,
    .removeEdge edge, .reinsert forged, .addBend forged ⟨3, 4⟩, .cleanBends 0, .removeNode (.int 2)]

theorem performAll_refines_forgery : Ledger.empty.AllAllowed forgery ∧
    ∃ answers w l, Call.performAll forgery default = (answers, w) ∧
      answers.drop 4 = [.error (.notAdjacent (.int 2) (.int 2)),
        .error (.edgePresent ⟨1, 0, .int 2, .int 2, true⟩), .ok .done,
        .ok (.edge ⟨1, 0, .int 2, .int 2, true⟩), .ok .done, .ok (.removed 1), .ok .done] ∧
      w.Shows l ∧ l.nodes.keys = [.int 1] ∧ l.edges.keys = [] := by
  have hallowed : Ledger.empty.AllAllowed forgery := by
    refine ⟨trivial, trivial, trivial, trivial, trivial, ?_, trivial, ?_, ?_, ?_, trivial, trivial⟩
    · exact ⟨by decide +kernel, by decide +kernel⟩
    · exact ⟨by decide +kernel, by decide +kernel⟩
    · show _ ∈ _
      decide +kernel
    · exact le_refl (0 : Rat)
  obtain ⟨answers, w, l, hperform, hledger, hshows, _⟩ := performAll_refines hallowed
  have hrun : (Ledger.empty.actAll forgery).1.drop 4 = [.error (.notAdjacent (.int 2) (.int 2)),
        .error (.edgePresent ⟨1, 0, .int 2, .int 2, true⟩), .ok .done,
        .ok (.edge ⟨1, 0, .int 2, .int 2, true⟩), .ok .done, .ok (.removed 1), .ok .done] := by
    decide +kernel
  have hkeys : (Ledger.empty.actAll forgery).2.nodes.keys = [.int 1] ∧
      (Ledger.empty.actAll forgery).2.edges.keys = [] := ⟨rfl, rfl⟩
  rw [hledger] at hrun hkeys
  exact ⟨hallowed, answers, w, l, hperform, hrun, hshows, hkeys⟩

end LayeredDrawing
