import LayeredDrawing.Proofs.Drawing.Conservation
import LayeredDrawing.Proofs.Drawing.Reached

/-!
# How many bends an edge has

A long edge comes out of a drawing with one bend in each layer between its ends.  An edge to the next
layer should have none, but bends are only cleared when an edge is put back, and that edge never
leaves the graph: it keeps whatever bends it had.

* `oneBendPerLayer_iff`   which edges come out right;
* `shortcut`              a graph drawn twice, with an edge that does not.
-/

namespace LayeredDrawing

section
variable {α : Type} [Scalar α] {c : Config α} {w u v : Workspace α} {table : OrderedMap NodeId Int}
  {t : Snapshot} {e : Edge} {a b : Int}

/-- the bends of an edge from layer `a` to layer `b`, one in each layer between -/
structure OneBendPerLayer (c : Config α) (a b : Int) (bends : List (Point α)) : Prop where
  length : (bends.length : Int) = b - a - 1
  x : ∀ (i : Nat) p, bends[i]? = some p → p.x = layerPosition c (a + i + 1)

theorem Prepared.getElem?_bends (h : Prepared c w table t u) (hr : Restored w u t v)
    (he : e ∈ w.graph.arcs) (ha : table.get? e.source = some a) (hb : table.get? e.target = some b)
    (hlong : 1 < b - a) {i : Nat} {p : Point α} (hp : (v.bends.get e.slot)[i]? = some p) :
    a + i + 1 < b ∧ u.graph.position? (.dummy e.key ((i + 1 : Nat) : Int)) = some p := by
  have hbends := congrArg (fun l => l[i]?) (h.bends_of_long hr he ha hb hlong)
  simp only [List.getElem?_map, hp, Option.map_some] at hbends
  by_cases hi : i < (b - a - 1).toNat
  · rw [getElem?_dummies hi, Option.map_some] at hbends
    exact ⟨by omega, (Option.some.inj hbends).symm⟩
  · have hnone : (dummies e.key (b - a - 1).toNat)[i]? = none := by
      rw [List.getElem?_eq_none_iff, length_dummies]
      omega
    rw [hnone] at hbends
    cases hbends

theorem Prepared.oneBendPerLayer_of_long (h : Prepared c w table t u) (hr : Restored w u t v)
    (he : e ∈ w.graph.arcs) (ha : table.get? e.source = some a) (hb : table.get? e.target = some b)
    (hlong : 1 < b - a) : OneBendPerLayer c a b (v.bends.get e.slot) := by
  refine ⟨?_, fun i p hp => ?_⟩
  · have hlen := congrArg List.length (h.bends_of_long hr he ha hb hlong)
    rw [List.length_map, List.length_map, length_dummies] at hlen
    omega
  · obtain ⟨hi, hposition⟩ := h.getElem?_bends hr he ha hb hlong hp
    obtain ⟨_, _, n, hn, hx⟩ := h.exists_dummy he ha hb hi
    rw [Graph.position?, hn] at hposition
    rw [← Option.some.inj hposition]
    exact hx

/-- bends have no place on an edge to the next layer -/
theorem oneBendPerLayer_succ_iff {bends : List (Point α)} :
    OneBendPerLayer c a (a + 1) bends ↔ bends = [] := by
  constructor
  · intro h
    have hlen := h.length
    exact List.eq_nil_of_length_eq_zero (by omega)
  · rintro rfl
    refine ⟨?_, fun i p hp => by cases hp⟩
    show ((0 : Nat) : Int) = a + 1 - a - 1
    omega

end

/-- exactly the long edges, and those that had no bends, come out with one bend per layer -/
theorem oneBendPerLayer_iff {α : Type} [Metric α] {c : Config α} {w v : Workspace α}
    {past : List Edge} {s : Snapshot} (hw : Reached w past) (hclean : c.cleanBends = false)
    (h : (draw c).perform w = (.ok s, v)) :
    ∀ e ∈ v.graph.edges, ∃ a b, s.layers.get? e.source = some a ∧ s.layers.get? e.target = some b ∧
      (OneBendPerLayer c a b (v.bends.get e.slot) ↔ 1 < b - a ∨ w.bends.get e.slot = []) := by
  obtain ⟨table, t, u, _, hprepared, rfl, hreconstructed⟩ := draw_spec hw.sound h
  have hr := hreconstructed.uncleaned hclean
  have hlayers : t.withoutChains.layers = table := hprepared.layers_withoutChains
  rw [hlayers]
  intro e he
  have harc : e ∈ w.graph.arcs := hr.perm_arcs.mem_iff.1 (hr.coherent.mem_edges.1 he)
  obtain ⟨a, b, ha, hb, hab⟩ := hprepared.ends hw.sound.coherent harc
  refine ⟨a, b, ha, hb, ?_⟩
  by_cases hlong : 1 < b - a
  · exact iff_of_true (hprepared.oneBendPerLayer_of_long hr harc ha hb hlong) (.inl hlong)
  · obtain rfl : b = a + 1 := by omega
    rw [oneBendPerLayer_succ_iff, or_iff_right hlong, hprepared.bends_of_short hr harc ha hb]

theorem oneBendPerLayer_iff_triangle : (∃ past, Reached triangle past) ∧
    wideConfig.cleanBends = false ∧
    ∃ s v, (draw wideConfig).perform triangle = (.ok s, v) ∧
      ∀ e ∈ v.graph.edges, ∃ a b, s.layers.get? e.source = some a ∧
        s.layers.get? e.target = some b ∧
        (OneBendPerLayer wideConfig a b (v.bends.get e.slot) ↔
          1 < b - a ∨ triangle.bends.get e.slot = []) := by
  obtain ⟨past, hreached⟩ := reached_triangle
  obtain ⟨s, v, hdraw⟩ := exists_draw_triangle
  exact ⟨⟨past, hreached⟩, rfl, s, v, hdraw, oneBendPerLayer_iff hreached rfl hdraw⟩

/-! ## a bend left over -/

/-- the triangle drawn, and its second node removed afterwards -/
def shortcut : Workspace Rat :=
  (Change.removeNode (.int 2)).after ((draw wideConfig).perform triangle).2

theorem reached_shortcut : ∃ past, Reached shortcut past := by
  obtain ⟨past, hreached⟩ := reached_triangle
  obtain ⟨past', _, hdrawn⟩ := hreached.drawn wideConfig
  exact ⟨_, hdrawn.change (.removeNode _) trivial⟩

theorem acyclic_shortcut : shortcut.graph.Acyclic := by
  refine Graph.acyclic_of_rank (fun id => if id = .int 1 then 0 else 1) fun e he => ?_
  have harcs : shortcut.graph.arcs = [⟨2, 2, .int 1, .int 3, false⟩] := by decide +kernel
  rw [harcs] at he
  rw [List.mem_singleton.1 he]
  decide

/-- the edge from the first node to the last now leads to the next layer, and has a bend on it -/
theorem not_oneBendPerLayer_shortcut : (∃ past, Reached shortcut past) ∧ shortcut.graph.Acyclic ∧
    wideConfig.cleanBends = false ∧
    ∃ s v, (draw wideConfig).perform shortcut = (.ok s, v) ∧
      ∃ e ∈ v.graph.edges, ∃ a b, s.layers.get? e.source = some a ∧
        s.layers.get? e.target = some b ∧
        ¬ OneBendPerLayer wideConfig a b (v.bends.get e.slot) := by
  refine ⟨reached_shortcut, acyclic_shortcut, rfl, ?_⟩
  have hrun : (match (draw wideConfig).perform shortcut with
      | (.ok s, v) => decide (⟨2, 2, .int 1, .int 3, false⟩ ∈ v.graph.edges ∧
          s.layers.get? (.int 1) = some 0 ∧ s.layers.get? (.int 3) = some 1 ∧
          v.bends.get 2 = [⟨3, 0⟩])
      | (.error _, _) => false) = true := by decide +kernel
  rcases hdraw : (draw wideConfig).perform shortcut with ⟨fault | s, v⟩
  · rw [hdraw] at hrun
    cases hrun
  · rw [hdraw] at hrun
    obtain ⟨he, hsource, htarget, hbends⟩ := of_decide_eq_true hrun
    refine ⟨s, v, rfl, _, he, 0, 1, hsource, htarget, fun hone => ?_⟩
    have hnone : v.bends.get 2 = [] := (oneBendPerLayer_succ_iff (a := 0)).1 hone
    rw [hnone] at hbends
    cases hbends

end LayeredDrawing
