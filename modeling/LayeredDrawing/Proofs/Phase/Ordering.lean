import LayeredDrawing.Phase.Ordering
import LayeredDrawing.Proofs.Ordering.Reordered
import LayeredDrawing.Proofs.Phase.Expansion
import LayeredDrawing.Proofs.Placement.Heights

/-!
# What ordering does

After expansion, ordering is never refused.  It reorders each layer and moves nodes along their
layers, so the chains stand in for their edges as before (`leads_reorder`).
-/

namespace LayeredDrawing

variable {α : Type} [Scalar α]

section
variable {c : Config α} {w v u : Workspace α} {table : OrderedMap NodeId Int} {s : Snapshot}
  (h : Expanded c w table s v)
include h

theorem Expanded.requireUnitSpans : LayeredDrawing.requireUnitSpans v.graph s = .ok () := by
  obtain ⟨known, hexp⟩ := h.expanding
  refine forM_of_forall fun e he => ?_
  obtain ⟨layer, hs, ht⟩ := h.nextLayer (hexp.replaced.sound.coherent.mem_edges.1 he)
  have hspan : ¬ layer + 1 - layer ≠ 1 := by omega
  simp only [span?_of_get? hs ht, bind, Except.bind, if_neg hspan]
  rfl

theorem Expanded.partition : Partition v.graph s.arrangement := by
  obtain ⟨known, hexp⟩ := h.expanding
  refine ⟨hexp.filed.nodup_flatten, fun id => ?_⟩
  rw [hexp.filed.mem_flatten, hexp.mem_keys_iff]

/-- a new drawing with the layers in another order -/
theorem Expanded.redrawn (hr : Redrawn v u) (hp : Placed c s.layers u.graph) {lists : Arrangement}
    (hl : Reordered lists s.arrangement) (stage : Stage) :
    Expanded c w table { s with stage, arrangement := lists } u := by
  obtain ⟨known, hexp⟩ := h.expanding
  exact ⟨⟨⟨known, (hexp.redrawn hr hp).reordered hl⟩, h.bridges, h.chain_key⟩, h.hidden_eq⟩

end

namespace Action

theorem leads_stackLayer {c : Config α} {v u : Workspace α} {layers : OrderedMap NodeId Int}
    {layer : List NodeId} (hmem : ∀ id ∈ layer, id ∈ v.graph.nodeIds)
    (h : Redrawn v u ∧ Placed c layers u.graph) {E : Fault → Workspace α → Prop} :
    (stackLayer layer).Leads u (fun _ u' => Redrawn v u' ∧ Placed c layers u'.graph) E := by
  have hstart : ∃ done, Written (InPlace c layers) (fun _ _ => True) v done u :=
    ⟨[], h.1, h.2, fun _ hid => (List.not_mem_nil hid).elim⟩
  refine Leads.imp (leads_forM_of_mem
    (P := fun u' => ∃ done, Written (InPlace c layers) (fun _ _ => True) v done u') hstart
    fun p hp u' hu' => ?_) fun _ u' hu' => ?_
  · obtain ⟨done, hwritten⟩ := hu'
    have hlisted : p.1 ∈ layer := by
      have hfst := List.mem_map_of_mem (f := Prod.fst) hp
      rwa [List.zipIdx_map_fst] at hfst
    have hid : p.1 ∈ u'.graph.nodeIds := by
      rw [hwritten.redrawn.nodeIds]
      exact hmem p.1 hlisted
    exact leads_modifyNode hid ⟨_, hwritten.modify (fun _ => rfl) (fun _ hn => hn) fun _ => trivial⟩
  · obtain ⟨done, hwritten⟩ := hu'
    exact ⟨hwritten.redrawn, hwritten.all⟩

/-- the third phase, after the second -/
theorem leads_reorder {c : Config α} {w v : Workspace α} {table : OrderedMap NodeId Int}
    {s : Snapshot} (hstage : s.stage = .expanded) (h : Expanded c w table s v) :
    (reorder c s).Leads v
      (fun s' u => Redrawn v u ∧ (∃ lists, bestArrangement v.graph c s.arrangement = .ok lists ∧
        s' = { s with stage := .ordered, arrangement := lists }) ∧ Expanded c w table s' u)
      fun _ _ => False := by
  have hpartition := h.partition
  have hplaced : Placed c s.layers v.graph := by
    obtain ⟨known, hexp⟩ := h.expanding
    exact hexp.placed
  obtain ⟨lists, hlists⟩ :=
    bestArrangement_of_mem (c := c) (g := v.graph) fun id hid => (hpartition.mem_iff id).1 hid
  have hreordered := bestArrangement_ok hlists
  unfold reorder
  refine leads_bind (leads_check_ok (Snapshot.requireStage_eq_ok_iff.2 hstage) ?_)
  refine leads_bind (leads_ask_ok h.requireUnitSpans ?_)
  refine leads_bind (leads_ask_ok hlists ?_)
  refine leads_bind (Leads.imp (leads_forM_of_mem
    (P := fun u => Redrawn v u ∧ Placed c s.layers u.graph) ⟨Redrawn.refl v, hplaced⟩
    fun l hl u hdrawn => ?_) fun _ u hdrawn => leads_pure ?_)
  · have hmem : ∀ id ∈ l, id ∈ v.graph.nodeIds := by
      intro id hid
      have hflat := List.mem_flatten.2 ⟨l, hl, hid⟩
      exact (hpartition.mem_iff id).1 (hreordered.perm_flatten.mem_iff.1 hflat)
    exact leads_stackLayer hmem hdrawn
  · exact ⟨hdrawn.1, ⟨lists, hlists, rfl⟩, h.redrawn hdrawn.1 hdrawn.2 hreordered _⟩

end Action

end LayeredDrawing
