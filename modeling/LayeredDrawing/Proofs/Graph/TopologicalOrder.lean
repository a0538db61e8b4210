import LayeredDrawing.Graph.Layers
import LayeredDrawing.Proofs.Graph.Coherent
import LayeredDrawing.Proofs.Graph.Cycle
import Mathlib.Data.Set.Finite.List
import Mathlib.Order.WellFoundedSet

/-!
# The topological order

`InOrder arcs done order` says that the nodes of `order` can be listed one after the other when
those of `done` have been listed: none has been listed before, and every edge into it starts at one
that has.

* `inOrder_topologicalOrder`   the topological order of any graph is such an order;
* `mem_topologicalOrder`       in an acyclic graph every node is in it.
-/

namespace LayeredDrawing

def InOrder (arcs : List Edge) : (done : List NodeId) → List NodeId → Prop
  | _, [] => True
  | done, id :: rest =>
    id ∉ done ∧ (∀ e ∈ arcs, e.target = id → e.source ∈ done) ∧ InOrder arcs (id :: done) rest

/-- what has been listed is not listed again -/
theorem InOrder.disjoint {arcs : List Edge} {done order : List NodeId} (h : InOrder arcs done order) :
    ∀ id ∈ order, id ∉ done := by
  induction order generalizing done with
  | nil => exact List.forall_mem_nil _
  | cons node order ih =>
    obtain ⟨hnode, _, hrest⟩ := h
    refine List.forall_mem_cons.2 ⟨hnode, fun id hid hdone => ?_⟩
    exact ih hrest id hid (List.mem_cons_of_mem _ hdone)

theorem InOrder.nodup {arcs : List Edge} {done order : List NodeId} (h : InOrder arcs done order) :
    order.Nodup := by
  induction order generalizing done with
  | nil => exact List.nodup_nil
  | cons node order ih =>
    obtain ⟨_, _, hrest⟩ := h
    exact List.nodup_cons.2 ⟨fun hid => hrest.disjoint node hid List.mem_cons_self, ih hrest⟩

theorem nodup_eraseDups {β : Type} [BEq β] [LawfulBEq β] (l : List β) : l.eraseDups.Nodup := by
  generalize hn : l.length = n
  induction n using Nat.strongRecOn generalizing l with
  | ind n ih =>
    cases l with
    | nil => exact List.nodup_nil
    | cons a l =>
      rw [List.eraseDups_cons, List.nodup_cons, List.mem_eraseDups]
      have hf : (l.filter fun b => !b == a).length ≤ l.length := List.length_filter_le _ _
      have hl : l.length + 1 = n := by simpa using hn
      exact ⟨by simp, ih _ (by omega) _ rfl⟩

/-! ## releasing nodes -/

theorem mem_arcsLeft {node : NodeId} {arcs : List Edge} {e : Edge} :
    e ∈ arcsLeft node arcs ↔ e ∈ arcs ∧ e.source ≠ node := by
  simp [arcsLeft]

theorem mem_released {node id : NodeId} {arcs : List Edge} :
    id ∈ released node arcs ↔ (∃ e ∈ arcs, e.source = node ∧ e.target = id) ∧
      ∀ e ∈ arcs, e.source ≠ node → e.target ≠ id := by
  simp only [released, List.mem_filter, List.mem_eraseDups, List.mem_map, List.all_eq_true,
    mem_arcsLeft, decide_eq_true_eq]
  constructor
  · intro hx
    obtain ⟨⟨e, ⟨he, hs⟩, ht⟩, hrest⟩ := hx
    exact ⟨⟨e, he, hs, ht⟩, fun a ha hne => hrest a ⟨ha, hne⟩⟩
  · intro hx
    obtain ⟨⟨e, he, hs, ht⟩, hrest⟩ := hx
    exact ⟨⟨e, ⟨he, hs⟩, ht⟩, fun a ha => hrest a ha.1 ha.2⟩

theorem nodup_released (node : NodeId) (arcs : List Edge) : (released node arcs).Nodup :=
  (nodup_eraseDups _).filter _

/-- the edges that start at a node not listed yet -/
def pending (done : List NodeId) (arcs : List Edge) : List Edge :=
  arcs.filter fun e => decide (e.source ∉ done)

theorem mem_pending {done : List NodeId} {arcs : List Edge} {e : Edge} :
    e ∈ pending done arcs ↔ e ∈ arcs ∧ e.source ∉ done := by
  simp [pending]

theorem pending_nil (arcs : List Edge) : pending [] arcs = arcs :=
  List.filter_eq_self.2 fun _ _ => decide_eq_true List.not_mem_nil

theorem arcsLeft_pending (node : NodeId) (done : List NodeId) (arcs : List Edge) :
    arcsLeft node (pending done arcs) = pending (node :: done) arcs := by
  rw [arcsLeft, pending, pending, List.filter_filter]
  refine List.filter_congr fun e _ => ?_
  by_cases h : e.source = node <;> simp [h]

/-- the queue can be listed next, in any order, and nothing listed has a predecessor that is not -/
structure Listable (arcs : List Edge) (done queue : List NodeId) : Prop where
  nodup : queue.Nodup
  not_done : ∀ id ∈ queue, id ∉ done
  ready : ∀ id ∈ queue, ∀ e ∈ arcs, e.target = id → e.source ∈ done
  closed : ∀ e ∈ arcs, e.target ∈ done → e.source ∈ done

theorem Listable.next {arcs : List Edge} {done rest : List NodeId} {node : NodeId}
    (h : Listable arcs done (node :: rest)) :
    Listable arcs (node :: done) (rest ++ released node (pending done arcs)) := by
  have hnode : node ∉ done := h.not_done node List.mem_cons_self
  obtain ⟨hrest, hnodup⟩ := List.nodup_cons.1 h.nodup
  -- a released node has an edge from `node`, so it was neither listed nor in the queue
  have hreleased {id : NodeId} (hid : id ∈ released node (pending done arcs)) :
      ∃ e ∈ arcs, e.source = node ∧ e.target = id := by
    obtain ⟨⟨e, he, hs, ht⟩, _⟩ := mem_released.1 hid
    exact ⟨e, (mem_pending.1 he).1, hs, ht⟩
  refine ⟨?_, ?_, ?_, ?_⟩
  · rw [List.nodup_append]
    refine ⟨hnodup, nodup_released _ _, fun a ha b hb hab => ?_⟩
    obtain ⟨e, he, hs, ht⟩ := hreleased hb
    have hdone := h.ready a (List.mem_cons_of_mem _ ha) e he (ht.trans hab.symm)
    rw [hs] at hdone
    exact hnode hdone
  · intro id hid
    rw [List.mem_cons, not_or]
    rcases List.mem_append.1 hid with hid | hid
    · refine ⟨fun heq => hrest (heq ▸ hid), h.not_done id (List.mem_cons_of_mem _ hid)⟩
    · obtain ⟨e, he, hs, ht⟩ := hreleased hid
      refine ⟨fun heq => ?_, fun hdone => ?_⟩
      · have := h.ready node List.mem_cons_self e he (ht.trans heq)
        rw [hs] at this
        exact hnode this
      · have := h.closed e he (ht ▸ hdone)
        rw [hs] at this
        exact hnode this
  · intro id hid e he ht
    rw [List.mem_cons]
    rcases List.mem_append.1 hid with hid | hid
    · exact .inr (h.ready id (List.mem_cons_of_mem _ hid) e he ht)
    · by_cases hs : e.source = node
      · exact .inl hs
      · refine .inr (Classical.byContradiction fun hn => ?_)
        exact (mem_released.1 hid).2 e (mem_pending.2 ⟨he, hn⟩) hs ht
  · intro e he ht
    rw [List.mem_cons] at ht ⊢
    rcases ht with ht | ht
    · exact .inr (h.ready node List.mem_cons_self e he ht)
    · exact .inr (h.closed e he ht)

theorem inOrder_releaseAll {arcs : List Edge} {done queue : List NodeId}
    (h : Listable arcs done queue) : InOrder arcs done (releaseAll queue (pending done arcs)) := by
  generalize hleft : pending done arcs = left
  fun_induction releaseAll queue left generalizing done with
  | case1 left => exact trivial
  | case2 left node rest ih =>
    refine ⟨h.not_done node List.mem_cons_self, h.ready node List.mem_cons_self, ?_⟩
    have hnext := h.next
    rw [hleft] at hnext
    refine ih hnext ?_
    rw [← hleft, arcsLeft_pending]

theorem mem_releaseAll_of_mem {queue : List NodeId} {arcs : List Edge} {id : NodeId}
    (h : id ∈ queue) : id ∈ releaseAll queue arcs := by
  fun_induction releaseAll queue arcs with
  | case1 arcs => cases h
  | case2 arcs node rest ih =>
    rcases List.mem_cons.1 h with rfl | h
    · exact List.mem_cons_self
    · exact List.mem_cons_of_mem _ (ih (List.mem_append_left _ h))

/-- a node is listed once all edges into it start at listed nodes -/
theorem mem_releaseAll_of_edge {queue : List NodeId} {arcs : List Edge} {id : NodeId}
    (hedge : ∃ e ∈ arcs, e.target = id)
    (hall : ∀ e ∈ arcs, e.target = id → e.source ∈ releaseAll queue arcs) :
    id ∈ releaseAll queue arcs := by
  fun_induction releaseAll queue arcs with
  | case1 arcs =>
    obtain ⟨e, he, ht⟩ := hedge
    exact absurd (hall e he ht) List.not_mem_nil
  | case2 arcs node rest ih =>
    refine List.mem_cons_of_mem _ ?_
    by_cases hleft : ∃ e ∈ arcsLeft node arcs, e.target = id
    · refine ih hleft fun e he ht => ?_
      obtain ⟨he, hs⟩ := mem_arcsLeft.1 he
      exact (List.mem_cons.1 (hall e he ht)).resolve_left hs
    · have hnone : ∀ e ∈ arcs, e.source ≠ node → e.target ≠ id := fun e he hs ht =>
        hleft ⟨e, mem_arcsLeft.2 ⟨he, hs⟩, ht⟩
      obtain ⟨e, he, ht⟩ := hedge
      have hs : e.source = node := Classical.byContradiction fun hs => hnone e he hs ht
      exact mem_releaseAll_of_mem (List.mem_append_right _ (mem_released.2 ⟨⟨e, he, hs, ht⟩, hnone⟩))

theorem subset_releaseAll {queue : List NodeId} {arcs : List Edge} {id : NodeId}
    (h : id ∈ releaseAll queue arcs) : id ∈ queue ∨ ∃ e ∈ arcs, e.target = id := by
  fun_induction releaseAll queue arcs with
  | case1 arcs => cases h
  | case2 arcs node rest ih =>
    rcases List.mem_cons.1 h with rfl | h
    · exact .inl List.mem_cons_self
    · rcases ih h with h | ⟨e, he, ht⟩
      · rcases List.mem_append.1 h with h | h
        · exact .inl (List.mem_cons_of_mem _ h)
        · obtain ⟨⟨e, he, _, ht⟩, _⟩ := mem_released.1 h
          exact .inr ⟨e, he, ht⟩
      · exact .inr ⟨e, (mem_arcsLeft.1 he).1, ht⟩

/-! ## the order of a graph -/

namespace Graph

variable {α : Type} {g : Graph α}

theorem mem_sources {id : NodeId} :
    id ∈ g.nodeIds.filter (fun id => (g.inEdges id).isEmpty) ↔
      id ∈ g.nodeIds ∧ ∀ e ∈ g.arcs, e.target ≠ id := by
  simp [inEdges, List.filter_eq_nil_iff]

theorem listable_sources (g : Graph α) :
    Listable g.arcs [] (g.nodeIds.filter fun id => (g.inEdges id).isEmpty) := by
  refine ⟨g.nodup_nodeIds.filter _, fun _ _ => List.not_mem_nil, fun id hid e he ht => ?_,
    fun e _ ht => ?_⟩
  · exact absurd ht ((mem_sources.1 hid).2 e he)
  · cases ht

theorem inOrder_topologicalOrder (g : Graph α) : InOrder g.arcs [] g.topologicalOrder := by
  have := inOrder_releaseAll g.listable_sources
  rwa [pending_nil] at this

theorem mem_nodeIds_of_mem_topologicalOrder (hg : g.Joined) {id : NodeId}
    (h : id ∈ g.topologicalOrder) : id ∈ g.nodeIds := by
  rcases subset_releaseAll h with h | ⟨e, he, rfl⟩
  · exact (mem_sources.1 h).1
  · exact (hg e he).2

theorem mem_topologicalOrder (hg : g.Joined) (hacyclic : g.Acyclic) {id : NodeId}
    (h : id ∈ g.nodeIds) : id ∈ g.topologicalOrder := by
  have : IsStrictOrder NodeId (Relation.TransGen (Adjacent g.arcs)) :=
    { irrefl := hacyclic, trans := fun _ _ _ => Relation.TransGen.trans }
  have hwf : {id | id ∈ g.nodeIds}.WellFoundedOn (Relation.TransGen (Adjacent g.arcs)) :=
    (List.finite_toSet g.nodeIds).wellFoundedOn
  -- induction along the edges: the predecessors of a node are listed
  refine hwf.induction h fun id hid ih => ?_
  by_cases hedge : ∃ e ∈ g.arcs, e.target = id
  · refine mem_releaseAll_of_edge hedge fun e he ht => ?_
    exact ih e.source (hg e he).1 (.single ⟨e, he, rfl, ht⟩)
  · exact mem_releaseAll_of_mem (mem_sources.2 ⟨hid, fun e he ht => hedge ⟨e, he, ht⟩⟩)

end Graph

end LayeredDrawing
