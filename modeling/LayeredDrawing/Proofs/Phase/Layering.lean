import LayeredDrawing.Proofs.Arrangement.Filed
import LayeredDrawing.Proofs.Workspace.Redrawn

/-!
# What layering does

Layering gives every node a layer, writes the layers into the graph and changes nothing else
(`leads_putInLayers`).  It is refused only if the graph has a cycle.
-/

namespace LayeredDrawing

/-- the tables after layering, and the graph that they have been written into -/
structure Layered {α : Type} [Scalar α] (c : Config α) (w : Workspace α) (s : Snapshot)
    (v : Workspace α) : Prop where
  stage : s.stage = .layered
  layering : w.graph.layering = .ok s.layers
  mem_keys_iff : ∀ id, id ∈ s.layers.keys ↔ id ∈ w.graph.nodeIds
  arrangement : s.arrangement = arrange w.graph.nodeIds s.layers
  chains : s.chains = ∅
  redrawn : Redrawn w v
  placed : Placed c s.layers v.graph

theorem Layered.ascending {α : Type} [Scalar α] {c : Config α} {w v : Workspace α} {s : Snapshot}
    (h : Layered c w s v) : Ascending w.graph.arcs s.layers :=
  (Graph.layering_ok h.layering).2.toAscending

theorem Layered.filed {α : Type} [Scalar α] {c : Config α} {w v : Workspace α} {s : Snapshot}
    (h : Layered c w s v) : Filed s.layers s.arrangement := by
  rw [h.arrangement]
  exact filed_arrange w.graph.nodup_nodeIds h.mem_keys_iff h.ascending.nonneg

/-- the tables do not depend on the configuration -/
theorem Layered.snapshot_eq {α : Type} [Scalar α] {c c' : Config α} {w v v' : Workspace α}
    {s s' : Snapshot} (h : Layered c w s v) (h' : Layered c' w s' v') : s = s' := by
  have hlayers : s.layers = s'.layers := Except.ok.inj (h.layering.symm.trans h'.layering)
  have harrangement : s.arrangement = s'.arrangement := by
    rw [h.arrangement, h'.arrangement, hlayers]
  cases s
  cases s'
  exact Snapshot.mk.injEq .. ▸ ⟨h.stage.trans h'.stage.symm, hlayers, harrangement,
    h.chains.trans h'.chains.symm⟩

namespace Action

variable {α : Type} [Scalar α]

/-- the nodes done so far stand in their layers -/
structure Seated (c : Config α) (layers : OrderedMap NodeId Int) (w : Workspace α)
    (done : List NodeId) (v : Workspace α) : Prop where
  written : Written (fun _ _ => True) (InPlace c layers) w done v
  keys : ∀ id ∈ done, id ∈ layers.keys

theorem Seated.leads_writeLayer {c : Config α} {layers : OrderedMap NodeId Int} {w v : Workspace α}
    {done : List NodeId} (h : Seated c layers w done v) {id : NodeId} (hid : id ∈ w.graph.nodeIds) :
    (writeLayer c layers id).Leads v (fun _ v' => Seated c layers w (done ++ [id]) v')
      fun _ _ => id ∉ layers.keys := by
  unfold writeLayer
  refine leads_bind (leads_check (fun layer hlayer => ?_) fun fault hfault hkey => ?_)
  · have hget := OrderedMap.entry_eq_ok_iff.1 hlayer
    have hnode : id ∈ v.graph.nodeIds := by rwa [h.written.redrawn.nodeIds]
    refine leads_modifyNode hnode ⟨?_, fun j hj => ?_⟩
    · exact h.written.modify (fun _ => rfl) (fun _ _ => trivial) fun _ => ⟨hget, rfl⟩
    · rcases List.mem_append.1 hj with hj | hj
      · exact h.keys j hj
      · rw [List.mem_singleton.1 hj]
        exact OrderedMap.mem_keys_of_get? hget
  · obtain ⟨layer, hlayer⟩ := OrderedMap.entry_of_mem hkey
    rw [hlayer] at hfault
    cases hfault

theorem leads_putInLayers (c : Config α) {w : Workspace α} (hg : w.graph.Joined) :
    (putInLayers c .initial).Leads w (Layered c w) fun _ _ => ¬ w.graph.Acyclic := by
  unfold putInLayers
  refine leads_bind (leads_check_ok (Snapshot.requireStage_eq_ok_iff.2 rfl) ?_)
  refine leads_bind (leads_ask (fun layers hlayers => ?_) fun fault hfault hacyclic => ?_)
  · refine leads_bind (leads_of_perform_ok (b := w) rfl ?_)
    have hstart : Seated c layers w [] w :=
      ⟨⟨Redrawn.refl w, fun _ _ _ => trivial, fun _ hid => (List.not_mem_nil hid).elim⟩,
        fun _ hid => (List.not_mem_nil hid).elim⟩
    refine leads_bind (Leads.imp (leads_forM w.graph.nodeIds (fun done _ v => Seated c layers w done v)
      hstart fun done id left v hall hv => ?_) fun _ v hv => leads_pure ?_)
    · have hid : id ∈ w.graph.nodeIds := by
        rw [← hall]
        exact List.mem_append_right _ List.mem_cons_self
      exact (hv.leads_writeLayer hid).mono (fun _ _ hv' => hv') fun _ _ hkey hacyclic =>
        hkey ((Graph.mem_layers_iff hg hacyclic hlayers id).2 hid)
    · refine ⟨rfl, hlayers, fun id => ⟨fun hid => ?_, hv.keys id⟩, rfl, rfl, hv.written.redrawn, ?_⟩
      · rw [(Graph.layering_ok hlayers).1] at hid
        exact Graph.mem_nodeIds_of_mem_topologicalOrder hg hid
      · intro id n hn
        refine hv.written.done id ?_ n hn
        rw [← hv.written.redrawn.nodeIds]
        exact OrderedMap.mem_keys_of_get? hn
  · obtain ⟨layers, hlayers⟩ := Graph.layering_of_acyclic hacyclic
    rw [hlayers] at hfault
    cases hfault

end Action

end LayeredDrawing
