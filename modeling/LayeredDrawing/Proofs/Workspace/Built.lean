import LayeredDrawing.Proofs.Graph.CycleSearch
import LayeredDrawing.Proofs.Workspace.Reached

/-!
# Built workspaces

`Built w` says that public operations lead to the workspace `w`, with any arguments at all: an edge
that is put back need never have been in the graph.  What no change destroys (`Graph.Lasting`) holds
of all of them.  So every edge joins nodes of the graph (`Built.joined`), because attaching asks for
both ends, and a node takes its edges along.
-/

namespace LayeredDrawing

namespace Graph

variable {α : Type} {g g' : Graph α}

theorem mem_of_mem_placeArc {e a : Edge} {arcs : List Edge} (h : a ∈ placeArc e arcs) :
    a = e ∨ a ∈ arcs := by
  unfold placeArc at h
  split at h
  · obtain ⟨b, hb, rfl⟩ := List.mem_map.1 h
    split
    · exact .inl rfl
    · exact .inr hb
  · exact List.mem_cons.1 ((insertArc_perm e arcs).mem_iff.1 h)

theorem joined_empty : (empty : Graph α).Joined := fun e he => by cases he

/-- fewer edges and more nodes -/
theorem Joined.mono (h : g.Joined) (harcs : ∀ e ∈ g'.arcs, e ∈ g.arcs)
    (hids : ∀ id ∈ g.nodeIds, id ∈ g'.nodeIds) : g'.Joined := fun e he =>
  ⟨hids _ (h e (harcs e he)).1, hids _ (h e (harcs e he)).2⟩

theorem Joined.attach (h : g.Joined) {e : Edge} (hs : e.source ∈ g.nodeIds)
    (ht : e.target ∈ g.nodeIds) : (g.attach e).Joined := by
  intro a ha
  rcases mem_of_mem_placeArc ha with rfl | ha
  · exact ⟨hs, ht⟩
  · exact h a ha

theorem Joined.addNode (h : g.Joined) {id : NodeId} {n : Node α} (hok : g.addNode id n = .ok g') :
    g'.Joined := by
  obtain ⟨_, rfl⟩ := addNode_ok hok
  exact h.mono (fun _ he => he) fun j hj => OrderedMap.mem_keys_insert.2 (.inl hj)

theorem Joined.modifyNode (h : g.Joined) {id : NodeId} {f : Node α → Node α}
    (hok : g.modifyNode id f = .ok g') : g'.Joined := by
  obtain rfl := modifyNode_ok hok
  exact h.mono (fun _ he => he) fun j hj => by
    show j ∈ (g.nodes.modify id f).keys
    rwa [OrderedMap.keys_modify]

theorem Joined.removeNode (h : g.Joined) {id : NodeId} (hok : g.removeNode id = .ok g') :
    g'.Joined := by
  obtain ⟨_, rfl⟩ := removeNode_ok hok
  have hkeep {j : NodeId} (hj : j ∈ g.nodeIds) (hne : j ≠ id) : j ∈ (g.nodes.erase id).keys := by
    rw [OrderedMap.keys_erase, List.mem_filter]
    exact ⟨hj, by simpa using hne⟩
  intro e he
  obtain ⟨he, hs, ht⟩ := mem_arcsApart.1 he
  exact ⟨hkeep (h e he).1 hs, hkeep (h e he).2 ht⟩

theorem Joined.addEdge (h : g.Joined) {slot : Nat} {source target : NodeId} {isDummy : Bool}
    {e : Edge} (hok : g.addEdge slot source target isDummy = .ok (e, g')) : g'.Joined := by
  obtain ⟨hs, ht, rfl, rfl⟩ := addEdge_ok hok
  have hnext : ({ g with nextKey := g.nextKey + 1 } : Graph α).Joined := h
  exact hnext.attach hs ht

/-- what `detach` leaves, if it is not refused -/
theorem eq_of_detach {e : Edge} (hok : g.detach e = .ok g') :
    g' = { g with arcs := g.arcs.filter fun a => !a.sameArc e, index := g.index.erase e.key } := by
  unfold Graph.detach at hok
  split at hok
  · cases hok
  · split at hok
    · cases hok
    · split at hok
      · cases hok
      · exact (Except.ok.inj hok).symm

theorem Joined.detach (h : g.Joined) {e : Edge} (hok : g.detach e = .ok g') : g'.Joined := by
  rw [eq_of_detach hok]
  exact h.mono (fun a ha => (List.mem_filter.1 ha).1) fun _ hid => hid

theorem Joined.reattach (h : g.Joined) {e : Edge} (hok : g.reattach e = .ok g') : g'.Joined := by
  obtain ⟨_, hs, ht, rfl⟩ := reattach_ok hok
  exact h.attach hs ht

theorem Joined.mapSlots (h : g.Joined) (f : Nat → Nat) : (g.mapSlots f).Joined := by
  intro e he
  obtain ⟨a, ha, rfl⟩ := List.mem_map.1 he
  exact h a ha

/-- a property that no change of a graph destroys -/
structure Lasting (P : Graph α → Prop) : Prop where
  empty : P empty
  addNode : ∀ {g g' : Graph α} {id : NodeId} {n : Node α}, P g → g.addNode id n = .ok g' → P g'
  removeNode : ∀ {g g' : Graph α} {id : NodeId}, P g → g.removeNode id = .ok g' → P g'
  modifyNode : ∀ {g g' : Graph α} {id : NodeId} {f : Node α → Node α}, P g →
    g.modifyNode id f = .ok g' → P g'
  addEdge : ∀ {g g' : Graph α} {slot : Nat} {source target : NodeId} {isDummy : Bool} {e : Edge},
    P g → g.addEdge slot source target isDummy = .ok (e, g') → P g'
  detach : ∀ {g g' : Graph α} {e : Edge}, P g → g.detach e = .ok g' → P g'
  reattach : ∀ {g g' : Graph α} {e : Edge}, P g → g.reattach e = .ok g' → P g'
  mapSlots : ∀ {g : Graph α}, P g → ∀ f, P (g.mapSlots f)

theorem lasting_joined : Lasting (Joined (α := α)) where
  empty := joined_empty
  addNode h hok := h.addNode hok
  removeNode h hok := h.removeNode hok
  modifyNode h hok := h.modifyNode hok
  addEdge h hok := h.addEdge hok
  detach h hok := h.detach hok
  reattach h hok := h.reattach hok
  mapSlots h f := h.mapSlots f

end Graph

section
variable {α : Type} [Metric α]

open LayeredDrawing.Action

theorem Graph.Lasting.after {P : Graph α → Prop} (hP : Graph.Lasting P) {w : Workspace α}
    (h : P w.graph) (c : Change α) : P (c.after w).graph := by
  have hleads : c.act.Leads w (fun _ v => P v.graph) fun _ v => P v.graph := by
    cases c with
    | addNode id n => exact leads_edit (fun _ hok => hP.addNode h hok) fun _ _ => h
    | removeNode id => exact leads_edit (fun _ hok => hP.removeNode h hok) fun _ _ => h
    | modifyNode id f => exact leads_edit (fun _ hok => hP.modifyNode h hok) fun _ _ => h
    | addEdge source target isDummy =>
      exact leads_bind (leads_addEdge (fun _ _ hok => leads_pure (hP.addEdge h hok)) fun _ _ => h)
    | detach e => exact leads_edit (fun _ hok => hP.detach h hok) fun _ _ => h
    | reattach e =>
      exact leads_bind (leads_reattach (fun _ hok => leads_pure (hP.reattach h hok)) fun _ _ => h)
    | addBend e p => exact leads_of_perform_ok (perform_addBend e p w) h
    | cleanRoutes tol =>
      have hkeep (v : Workspace α) (hv : v.graph = w.graph ∧ v.bends.fresh = w.bends.fresh) :
          P v.graph := hv.1 ▸ h
      exact leads_bind ((leads_cleanRoutes w tol).mono (fun _ v hv => leads_pure (hkeep v hv))
        fun _ v hv => hkeep v hv)
  exact leads_iff.1 hleads

inductive Built : Workspace α → Prop where
  | start (b : Bends α) : Built ⟨.empty, b⟩
  | change {w : Workspace α} (h : Built w) (c : Change α) : Built (c.after w)
  /-- whoever holds an edge may change its bends -/
  | others {w : Workspace α} (h : Built w) (b : Bends α) : Built ⟨w.graph, b⟩
  | copy {w : Workspace α} (h : Built w) : Built w.copyGraph

theorem Built.foldl {w : Workspace α} (h : Built w) (changes : List (Change α)) :
    Built (changes.foldl (fun w c => c.after w) w) := by
  induction changes generalizing w with
  | nil => exact h
  | cons c changes ih => exact ih (h.change c)

theorem Reached.built {w : Workspace α} {past : List Edge} (h : Reached w past) : Built w := by
  induction h with
  | start b => exact .start b
  | change _ c _ ih => exact ih.change c
  | others _ b _ ih => exact ih.others b
  | copy _ ih => exact ih.copy

theorem Built.of_lasting {P : Graph α → Prop} (hP : Graph.Lasting P) {w : Workspace α}
    (h : Built w) : P w.graph := by
  induction h with
  | start b => exact hP.empty
  | change _ c ih => exact hP.after ih c
  | others _ _ ih => exact ih
  | @copy w _ ih => exact hP.mapSlots ih fun slot => w.bends.fresh + w.graph.slots.idxOf slot

theorem Built.joined {w : Workspace α} (h : Built w) : w.graph.Joined :=
  h.of_lasting Graph.lasting_joined

end

end LayeredDrawing
