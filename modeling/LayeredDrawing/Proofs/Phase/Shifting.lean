import LayeredDrawing.Proofs.Phase.Layering
import LayeredDrawing.Proofs.Workspace.Shifted

/-!
# Expansion does not look at positions

Layering puts the nodes somewhere, depending on the configuration, and expansion gives each dummy node
a place of its own.  What else expansion does is the same wherever the nodes stand
(`endAlike_subdivide`), so the two phases may even be configured differently.
-/

namespace LayeredDrawing

/-- with any two configurations, the nodes get the same layers -/
theorem Layered.shifted {α : Type} [Scalar α] {c c' : Config α} {w v v' : Workspace α} {s : Snapshot}
    (h : Layered c w s v) (h' : Layered c' w s v') : Shifted v v' := by
  refine ⟨h'.redrawn.bends.trans h.redrawn.bends.symm, ?_, ?_⟩
  · rw [h.redrawn.graph, h'.redrawn.graph]
  · have hids : v'.graph.nodes.keys = v.graph.nodes.keys :=
      h'.redrawn.nodeIds.trans h.redrawn.nodeIds.symm
    have hkeys : v'.graph.seats.keys = v.graph.seats.keys := by
      rw [Graph.seats, Graph.seats, OrderedMap.keys_mapValues, OrderedMap.keys_mapValues, hids]
    refine OrderedMap.ext_get? hkeys fun id => ?_
    rw [Graph.seats, Graph.seats, OrderedMap.get?_mapValues, OrderedMap.get?_mapValues]
    by_cases hid : id ∈ v'.graph.nodes.keys
    · obtain ⟨m, hm⟩ := OrderedMap.exists_get?_of_mem hid
      obtain ⟨n, hn⟩ := OrderedMap.exists_get?_of_mem (hids ▸ hid)
      have houtline : m.outline = n.outline := by
        have hget := congrArg (fun o => o.get? id) (h'.redrawn.outline.trans h.redrawn.outline.symm)
        simp only [Graph.outline, OrderedMap.get?_mapValues, hm, hn, Option.map_some] at hget
        exact Option.some.inj hget
      have hlayer : m.layer = n.layer :=
        Option.some.inj ((h'.placed id m hm).1.symm.trans (h.placed id n hn).1)
      rw [hm, hn, Option.map_some, Option.map_some, Node.seat, Node.seat, houtline, hlayer]
    · rw [OrderedMap.get?_eq_none_iff.2 hid, OrderedMap.get?_eq_none_iff.2 (hids ▸ hid)]

namespace Action

section
variable {α : Type} [Scalar α] {w v : Workspace α} (h : Shifted w v) (c : Config α)
include h

theorem endAlike_extendStrand (e : Edge) (start : Int) (i : Nat) (st : Strand) :
    EndAlike Alike ((extendStrand c e start i st).perform w) ((extendStrand c e start i st).perform v) := by
  unfold extendStrand
  refine (endAlike_check h _).bind fun x w₁ x' v₁ h₁ => ?_
  obtain ⟨rfl, h₁⟩ := h₁
  refine (endAlike_node h₁ st.last).bind fun prev w₂ prev' v₂ h₂ => ?_
  have hseat : (Node.dummy (start + i) x' prev'.y).seat = (Node.dummy (start + i) x' prev.y).seat := rfl
  refine (endAlike_addNode h₂ _ hseat).bind fun _ w₃ _ v₃ h₃ => ?_
  refine (endAlike_check h₃.2 _).bind fun lists w₄ lists' v₄ h₄ => ?_
  obtain ⟨rfl, h₄⟩ := h₄
  refine (endAlike_addEdge h₄ _ _ _).bind fun d w₅ d' v₅ h₅ => ?_
  obtain ⟨rfl, h₅⟩ := h₅
  exact endAlike_pure h₅ _

theorem endAlike_extendStrandBy (e : Edge) (start : Int) (count i : Nat) (st : Strand) :
    EndAlike Alike ((extendStrandBy c e start count i st).perform w)
      ((extendStrandBy c e start count i st).perform v) := by
  induction count generalizing i st w v with
  | zero => exact endAlike_pure h st
  | succ count ih =>
    rw [extendStrandBy]
    refine (endAlike_extendStrand h c e start i st).bind fun st₁ w₁ st₂ v₁ h₁ => ?_
    obtain ⟨rfl, h₁⟩ := h₁
    exact ih h₁ _ _

theorem endAlike_hideEdge (s : Snapshot) (e : Edge) :
    EndAlike Alike ((hideEdge c s e).perform w) ((hideEdge c s e).perform v) := by
  unfold hideEdge
  refine (endAlike_check h _).bind fun start w₁ start' v₁ h₁ => ?_
  obtain ⟨rfl, h₁⟩ := h₁
  refine (endAlike_check h₁ _).bind fun span w₂ span' v₂ h₂ => ?_
  obtain ⟨rfl, h₂⟩ := h₂
  refine (endAlike_extendStrandBy h₂ c e _ _ _ _).bind fun st w₃ st' v₃ h₃ => ?_
  obtain ⟨rfl, h₃⟩ := h₃
  refine (endAlike_addEdge h₃ _ _ _).bind fun d w₄ d' v₄ h₄ => ?_
  obtain ⟨rfl, h₄⟩ := h₄
  exact (endAlike_detach h₄ e).bind fun _ w₅ _ v₅ h₅ => endAlike_pure h₅.2 _

/-- expansion does the same wherever the nodes stand -/
theorem endAlike_subdivide (s : Snapshot) :
    EndAlike Alike ((subdivide c s).perform w) ((subdivide c s).perform v) := by
  unfold subdivide
  refine (endAlike_check h _).bind fun _ w₁ _ v₁ h₁ => ?_
  refine (endAlike_ask h₁.2 (by rw [h₁.2.edges])).bind fun long w₂ long' v₂ h₂ => ?_
  obtain ⟨rfl, h₂⟩ := h₂
  refine (endAlike_foldlM long' (fun s e w v hv => endAlike_hideEdge hv c s e) h₂ _).bind
    fun t w₃ t' v₃ h₃ => ?_
  obtain ⟨rfl, h₃⟩ := h₃
  exact endAlike_pure h₃ _

end

end Action

end LayeredDrawing
