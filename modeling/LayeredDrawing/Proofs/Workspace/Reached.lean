import LayeredDrawing.Graph.Copy
import LayeredDrawing.Proofs.Workspace.Outcome
import LayeredDrawing.Proofs.Workspace.Sound

/-!
# Reached workspaces

`Reached w past` says that public operations lead to the workspace `w` from one with an empty graph;
`past` lists the edges that have been in the graph on the way.  An operation may be refused, and
what it did before stays done.  Only edges of the past are put back.

* `Change`          the operations that change a graph, with any arguments;
* `Reached.others`  other graphs share the store of bends, and whoever holds an edge may change its
                    bends, so the store may change in any way in which it does not shrink;
* `Reached.sound`   a reached workspace is sound, and knows the edges of its past.
-/

namespace LayeredDrawing

inductive Change (α : Type) where
  | addNode (id : NodeId) (n : Node α)
  | removeNode (id : NodeId)
  | modifyNode (id : NodeId) (f : Node α → Node α)
  | addEdge (source target : NodeId) (isDummy : Bool)
  | detach (e : Edge)
  | reattach (e : Edge)
  | addBend (e : Edge) (p : Point α)
  | cleanRoutes (tol : α)

namespace Change

variable {α : Type}

def act [Metric α] : Change α → Action α Unit
  | addNode id n => Action.edit fun g => g.addNode id n
  | removeNode id => Action.edit fun g => g.removeNode id
  | modifyNode id f => Action.edit fun g => g.modifyNode id f
  | addEdge source target isDummy => do let _ ← Action.addEdge source target isDummy
  | detach e => Action.edit fun g => g.detach e
  | reattach e => do let _ ← Action.reattach e
  | addBend e p => Action.addBend e p
  | cleanRoutes tol => do let _ ← Action.cleanRoutes tol

/-- only an edge that has been in the graph is put back -/
def Allowed (past : List Edge) : Change α → Prop
  | reattach e => e ∈ past
  | _ => True

/-- the workspace after the change, or after the part of it that came before a refusal -/
def after [Metric α] (c : Change α) (w : Workspace α) : Workspace α := (c.act.perform w).2

end Change

variable {α : Type} [Metric α]

inductive Reached : Workspace α → List Edge → Prop where
  | start (b : Bends α) : Reached ⟨.empty, b⟩ []
  | change {w : Workspace α} {past : List Edge} (h : Reached w past) (c : Change α)
      (hc : c.Allowed past) : Reached (c.after w) (past ++ (c.after w).graph.arcs)
  | others {w : Workspace α} {past : List Edge} (h : Reached w past) (b : Bends α)
      (hb : w.bends.fresh ≤ b.fresh) : Reached ⟨w.graph, b⟩ past
  | copy {w : Workspace α} {past : List Edge} (h : Reached w past) :
      Reached w.copyGraph w.copyGraph.graph.arcs

namespace Action

/-- cleaning changes bends and nothing else, even if it is refused on the way -/
theorem leads_cleanRoute {w w₀ : Workspace α} {tol : α} {e : Edge}
    (h : w.graph = w₀.graph ∧ w.bends.fresh = w₀.bends.fresh) :
    (cleanRoute tol e).Leads w
      (fun _ v => v.graph = w₀.graph ∧ v.bends.fresh = w₀.bends.fresh)
      (fun _ v => v.graph = w₀.graph ∧ v.bends.fresh = w₀.bends.fresh) := by
  unfold cleanRoute
  refine leads_bind (leads_of_perform_ok (perform_bendsOf e w) ?_)
  split
  · exact leads_pure h
  · refine leads_bind (leads_ask (fun _ _ => ?_) fun _ _ => h)
    refine leads_bind (leads_ask (fun _ _ => ?_) fun _ _ => h)
    refine leads_bind (leads_check (fun _ _ => ?_) fun _ _ => h)
    refine leads_bind (leads_of_perform_ok (perform_setBends e _ w) (leads_pure ?_))
    exact ⟨h.1, (Bends.fresh_set ..).trans h.2⟩

theorem leads_cleanRoutes (w : Workspace α) (tol : α) :
    (cleanRoutes tol).Leads w
      (fun _ v => v.graph = w.graph ∧ v.bends.fresh = w.bends.fresh)
      (fun _ v => v.graph = w.graph ∧ v.bends.fresh = w.bends.fresh) := by
  unfold cleanRoutes
  refine leads_bind (leads_ask (fun edges _ => ?_) fun _ _ => ⟨rfl, rfl⟩)
  refine leads_foldlM edges (fun _ _ _ v => v.graph = w.graph ∧ v.bends.fresh = w.bends.fresh)
    ⟨rfl, rfl⟩ fun _ e _ removed v _ hv => ?_
  exact leads_bind ((leads_cleanRoute hv).imp fun _ _ hu => leads_pure hu)

end Action

namespace Change

open LayeredDrawing.Action LayeredDrawing.Workspace

/-- the workspace is sound, with some known edges beside those of the past -/
def Knows (past : List Edge) (w : Workspace α) : Prop :=
  ∃ known, w.Sound known ∧ ∀ e ∈ past, e ∈ known

theorem leads_act {w : Workspace α} {past : List Edge} (h : w.Sound past) (c : Change α)
    (hc : c.Allowed past) : c.act.Leads w (fun _ v => Knows past v) (fun _ v => Knows past v) := by
  have hsame : Knows past w := ⟨past, h, fun _ he => he⟩
  cases c with
  | addNode id n =>
    exact leads_edit (fun _ hok => ⟨past, h.addNode hok, fun _ he => he⟩) fun _ _ => hsame
  | removeNode id =>
    exact leads_edit (fun _ hok => ⟨past, h.removeNode hok, fun _ he => he⟩) fun _ _ => hsame
  | modifyNode id f =>
    exact leads_edit (fun _ hok => ⟨past, h.modifyNode hok, fun _ he => he⟩) fun _ _ => hsame
  | addEdge source target isDummy =>
    refine leads_bind (leads_addEdge (fun e g hok => leads_pure ?_) fun _ _ => hsame)
    exact ⟨past ++ [e], (h.addEdge hok).1, fun a ha => List.mem_append_left _ ha⟩
  | detach e =>
    exact leads_edit (fun _ hok => ⟨past, h.detach hok, fun _ he => he⟩) fun _ _ => hsame
  | reattach e =>
    refine leads_bind (leads_reattach (fun g hok => leads_pure ?_) fun _ _ => hsame)
    exact ⟨past, (h.reattach hc hok).1, fun _ he => he⟩
  | addBend e p =>
    exact leads_of_perform_ok (perform_addBend e p w) ⟨past, h.setBends _ _, fun _ he => he⟩
  | cleanRoutes tol =>
    have hkeep (v : Workspace α) (hv : v.graph = w.graph ∧ v.bends.fresh = w.bends.fresh) :
        Knows past v := by
      refine ⟨past, ?_, fun _ he => he⟩
      obtain ⟨g, b⟩ := v
      obtain ⟨rfl, hb⟩ := hv
      exact h.withBends (Nat.le_of_eq hb.symm)
    exact leads_bind ((leads_cleanRoutes w tol).mono (fun _ v hv => leads_pure (hkeep v hv))
      fun _ v hv => hkeep v hv)

theorem sound_after {w : Workspace α} {past : List Edge} (h : w.Sound past) (c : Change α)
    (hc : c.Allowed past) : (c.after w).Sound (past ++ (c.after w).graph.arcs) := by
  obtain ⟨known, hk, hsub⟩ : Knows past (c.after w) := leads_iff.1 (leads_act h c hc)
  refine hk.forget (fun e he => ?_) fun e he => List.mem_append_right _ he
  rcases List.mem_append.1 he with he | he
  · exact hsub e he
  · exact hk.known_of_mem e he

end Change

/-! ## copies -/

theorem idxOf_lt_of_mem_slots {α : Type} {g : Graph α} {e : Edge} (he : e ∈ g.arcs) :
    g.slots.idxOf e.slot < g.slots.length := by
  refine List.idxOf_lt_length_iff.2 ?_
  rw [Graph.slots, List.mem_eraseDups]
  exact List.mem_map.2 ⟨e, List.mem_append_left _ he, rfl⟩

theorem Graph.Coherent.mapSlots {α : Type} {g : Graph α} (h : g.Coherent) (f : Nat → Nat) :
    (g.mapSlots f).Coherent := by
  have hmem {e : Edge} : e ∈ (g.mapSlots f).arcs ↔ ∃ a ∈ g.arcs, a.atSlot (f a.slot) = e :=
    List.mem_map
  refine ⟨?_, ?_, ?_, ?_, ?_⟩
  · refine h.nodup.map_on fun a ha b hb hab => h.eq_of_key ha hb ?_
    have hk := congrArg Edge.key hab
    exact hk
  · intro key e
    show ((g.index.mapValues fun _ e => e.atSlot (f e.slot)).get? key) = some e ↔ _
    rw [OrderedMap.get?_mapValues, Option.map_eq_some_iff, hmem]
    constructor
    · intro hx
      obtain ⟨a, ha, rfl⟩ := hx
      obtain ⟨ham, hk⟩ := (h.index_iff key a).1 ha
      exact ⟨⟨a, ham, rfl⟩, hk⟩
    · intro hx
      obtain ⟨⟨a, ha, rfl⟩, hk⟩ := hx
      exact ⟨a, (h.index_iff key a).2 ⟨ha, hk⟩, rfl⟩
  · intro e he
    obtain ⟨a, ha, rfl⟩ := hmem.1 he
    exact h.source_mem a ha
  · intro e he
    obtain ⟨a, ha, rfl⟩ := hmem.1 he
    exact h.target_mem a ha
  · intro e he
    obtain ⟨a, ha, rfl⟩ := hmem.1 he
    exact h.key_lt a ha

theorem Workspace.Sound.copyGraph {α : Type} {w : Workspace α} {known : List Edge}
    (h : w.Sound known) : w.copyGraph.Sound w.copyGraph.graph.arcs := by
  have hmem {e : Edge} : e ∈ w.copyGraph.graph.arcs ↔
      ∃ a ∈ w.graph.arcs, a.atSlot (w.bends.fresh + w.graph.slots.idxOf a.slot) = e :=
    List.mem_map
  have hc : w.copyGraph.graph.Coherent :=
    h.coherent.mapSlots fun slot => w.bends.fresh + w.graph.slots.idxOf slot
  refine ⟨hc, fun _ he => he, fun a ha b hb hab => hc.eq_of_key ha hb hab, ?_, hc.key_lt, ?_⟩
  · intro a' ha' b' hb' hab
    obtain ⟨a, ha, rfl⟩ := hmem.1 ha'
    obtain ⟨b, hb, rfl⟩ := hmem.1 hb'
    have hidx : w.bends.fresh + w.graph.slots.idxOf a.slot
        = w.bends.fresh + w.graph.slots.idxOf b.slot := hab
    have hslot : a.slot = b.slot := by
      refine (List.idxOf_inj ?_).1 (Nat.add_left_cancel hidx)
      exact List.idxOf_lt_length_iff.1 (idxOf_lt_of_mem_slots ha)
    rw [h.slot_inj a (h.known_of_mem a ha) b (h.known_of_mem b hb) hslot]
  · intro e he
    obtain ⟨a, ha, rfl⟩ := hmem.1 he
    show w.bends.fresh + w.graph.slots.idxOf a.slot < (w.bends.copySlots w.graph.slots).fresh
    rw [Bends.fresh_copySlots]
    have := idxOf_lt_of_mem_slots ha
    omega

theorem Reached.sound {w : Workspace α} {past : List Edge} (h : Reached w past) : w.Sound past := by
  induction h with
  | start b => exact Workspace.sound_empty b
  | change _ c hc ih => exact c.sound_after ih hc
  | others _ b hb ih => exact ih.withBends hb
  | copy _ ih => exact ih.copyGraph

end LayeredDrawing
