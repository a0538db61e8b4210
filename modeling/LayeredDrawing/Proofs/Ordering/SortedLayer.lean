import LayeredDrawing.Ordering.Sweep
import LayeredDrawing.Proofs.Arrangement.Precedence
import LayeredDrawing.Scalar.Exact
import Mathlib.Algebra.Order.Field.Rat
import Mathlib.Tactic.Linarith

/-!
# Where a sort puts the nodes of a layer

A layer is sorted by the keys of its nodes, and by their old positions where keys are equal.  So
a node moves by as many places as there are nodes behind it with smaller keys, less the nodes in front
of it with larger ones.  A node without neighbours in the fixed layer has its position for a key, and
stays exactly if these two are equal in number, which nothing in the sort provides for.

* `Ahead`                    the order by key and old position;
* `sortedPlaces`             the sorted layer with the old positions;
* `countP_of_pairwise`       a position in a sorted list counts what comes before;
* `Stays`                    nodes without neighbours keep their positions;
* `sortLayer_stays_iff`      where a sort puts the nodes, and when one without neighbours stays.
-/

namespace LayeredDrawing

/-- in a list sorted by an order, the position of an element is the number of those before it -/
theorem countP_of_pairwise {β : Type} {R : β → β → Prop} [DecidableRel R]
    (hasymm : ∀ a b, R a b → ¬ R b a) {l : List β} (h : l.Pairwise R) {k : Nat} {x : β}
    (hx : l[k]? = some x) : l.countP (fun y => decide (R y x)) = k := by
  induction l generalizing k with
  | nil => cases hx
  | cons a l ih =>
    obtain ⟨ha, hl⟩ := List.pairwise_cons.1 h
    cases k with
    | zero =>
      obtain rfl : a = x := Option.some.inj hx
      refine List.countP_eq_zero.2 fun y hy => ?_
      rw [decide_eq_true_iff]
      rcases List.mem_cons.1 hy with rfl | hy
      · exact fun hyy => hasymm y y hyy hyy
      · exact hasymm a y (ha y hy)
    | succ k =>
      rw [List.countP_cons, ih hl hx, if_pos (decide_eq_true (ha x (List.mem_of_getElem? hx)))]

section
variable {α : Type} [Scalar α] (g : Graph α) (h : Heuristic) (side : Side) (fixed : List NodeId)

/-- the key of a node at its old position -/
def keyAt (p : NodeId × Nat) : Rat := sortKey g h side fixed p.1 p.2

/-- the one comes before the other by key, or by position if the keys are equal -/
def Ahead (p q : NodeId × Nat) : Prop :=
  keyAt g h side fixed p < keyAt g h side fixed q ∨
    keyAt g h side fixed p = keyAt g h side fixed q ∧ p.2 < q.2

instance : DecidableRel (Ahead g h side fixed) := fun _ _ => inferInstanceAs (Decidable (_ ∨ _))

/-- the nodes of a layer with their old positions, sorted -/
def sortedPlaces (layer : List NodeId) : List (NodeId × Nat) :=
  stableSort (fun p q => decide (keyAt g h side fixed p < keyAt g h side fixed q)) layer.zipIdx

/-- how many nodes in front of position `i` have keys larger than `c` -/
def largerInFront (layer : List NodeId) (i : Nat) (c : Rat) : Nat :=
  (layer.zipIdx.take i).countP fun q => decide (c < keyAt g h side fixed q)

/-- how many nodes behind position `i` have keys smaller than `c` -/
def smallerBehind (layer : List NodeId) (i : Nat) (c : Rat) : Nat :=
  (layer.zipIdx.drop (i + 1)).countP fun q => decide (keyAt g h side fixed q < c)

/-- nodes without neighbours in the fixed layer keep their positions -/
def Stays (layer : List NodeId) : Prop :=
  ∀ (i : Nat) (id : NodeId), layer[i]? = some id → neighbourPositions g side fixed id = [] →
    (sortLayer g h side fixed layer)[i]? = some id

end

section
variable {α : Type} [Scalar α] {g : Graph α} {h : Heuristic} {side : Side} {fixed layer : List NodeId}

theorem Ahead.asymm {p q : NodeId × Nat} (hpq : Ahead g h side fixed p q) :
    ¬ Ahead g h side fixed q p := by
  rcases hpq with hpq | ⟨hpq, hlt⟩
  · rintro (hqp | ⟨hqp, _⟩)
    · exact lt_asymm hpq hqp
    · exact hpq.ne hqp.symm
  · rintro (hqp | ⟨_, hlt'⟩)
    · exact hqp.ne hpq.symm
    · omega

theorem sortLayer_eq_map :
    sortLayer g h side fixed layer = (sortedPlaces g h side fixed layer).map Prod.fst := by
  have hmap : stableSort (fun a b : Rat × NodeId => decide (a.1 < b.1))
      (layer.zipIdx.map fun p => (sortKey g h side fixed p.1 p.2, p.1))
        = (sortedPlaces g h side fixed layer).map fun p => (sortKey g h side fixed p.1 p.2, p.1) :=
    stableSort_map (fun _ _ => rfl) _
  rw [sortLayer, hmap, List.map_map]
  rfl

theorem sortedPlaces_perm : (sortedPlaces g h side fixed layer).Perm layer.zipIdx :=
  stableSort_perm _ _

/-- a layer around one of its nodes -/
theorem zipIdx_around {p : NodeId × Nat} (hp : p ∈ layer.zipIdx) :
    layer.zipIdx = layer.zipIdx.take p.2 ++ p :: layer.zipIdx.drop (p.2 + 1) ∧
      (layer.zipIdx.take p.2).length = p.2 ∧ (∀ q ∈ layer.zipIdx.take p.2, q.2 < p.2) ∧
        ∀ q ∈ layer.zipIdx.drop (p.2 + 1), p.2 < q.2 := by
  have hget : layer.zipIdx[p.2]? = some p := by
    rw [List.getElem?_zipIdx, List.mem_zipIdx_iff_getElem?.1 hp, Option.map_some, Nat.zero_add]
  obtain ⟨hlt, hpeq⟩ := List.getElem?_eq_some_iff.1 hget
  have hsplit : layer.zipIdx = layer.zipIdx.take p.2 ++ p :: layer.zipIdx.drop (p.2 + 1) := by
    conv_lhs => rw [← List.take_append_drop p.2 layer.zipIdx, List.drop_eq_getElem_cons hlt, hpeq]
  have hplaces := pairwise_zipIdx layer
  rw [hsplit] at hplaces
  obtain ⟨_, hback, hfront⟩ := List.pairwise_append.1 hplaces
  exact ⟨hsplit, List.length_take_of_le hlt.le, fun q hq => hfront q hq p List.mem_cons_self,
    fun q hq => List.rel_of_pairwise_cons hback hq⟩

theorem pairwise_ahead : (sortedPlaces g h side fixed layer).Pairwise (Ahead g h side fixed) := by
  refine (pairwise_stableSort ?_ ?_ (pairwise_zipIdx layer)).imp fun {p q} hpq => ?_
  · intro a b c hab hbc
    rw [decide_eq_false_iff_not, not_lt] at hab hbc ⊢
    exact hab.trans hbc
  · intro a b hab
    rw [decide_eq_true_iff] at hab
    rw [decide_eq_false_iff_not, not_lt]
    exact hab.le
  · rw [decide_eq_true_iff, decide_eq_false_iff_not, not_lt] at hpq
    rcases hpq with hlt | ⟨hle, hlt⟩
    · exact .inl hlt
    · rcases lt_or_eq_of_le hle with hkey | hkey
      · exact .inl hkey
      · exact .inr ⟨hkey, hlt⟩

/-- a node moves back by one for each node behind it with a smaller key, and forward by one for each in
front of it with a larger key -/
theorem position_sortedPlaces {k : Nat} {p : NodeId × Nat}
    (hk : (sortedPlaces g h side fixed layer)[k]? = some p) :
    k + largerInFront g h side fixed layer p.2 (keyAt g h side fixed p)
      = p.2 + smallerBehind g h side fixed layer p.2 (keyAt g h side fixed p) := by
  have hmem : p ∈ layer.zipIdx := sortedPlaces_perm.mem_iff.1 (List.mem_of_getElem? hk)
  obtain ⟨hsplit, hlen, hless, hmore⟩ := zipIdx_around hmem
  -- what comes before `p` in the sorted list, counted in the old order
  have hcount := countP_of_pairwise (fun _ _ => Ahead.asymm) pairwise_ahead hk
  have hself : ¬ Ahead g h side fixed p p := fun hpp => hpp.asymm hpp
  rw [sortedPlaces_perm.countP_eq, hsplit, List.countP_append,
    List.countP_cons_of_neg (by rwa [decide_eq_true_iff])] at hcount
  have hfront : (layer.zipIdx.take p.2).countP (fun q => decide (Ahead g h side fixed q p))
      + largerInFront g h side fixed layer p.2 (keyAt g h side fixed p) = p.2 := by
    conv_rhs => rw [← hlen, List.length_eq_countP_add_countP
      fun q => decide (Ahead g h side fixed q p)]
    refine congrArg (_ + ·) (List.countP_congr fun q hq => ?_)
    have hq' := hless q hq
    rw [decide_eq_true_iff, decide_eq_true_iff, decide_eq_true_iff, Ahead, not_or, not_and, not_lt]
    refine ⟨fun hlt => ⟨hlt.le, fun heq => absurd heq hlt.ne'⟩, fun hnot => ?_⟩
    exact lt_of_le_of_ne hnot.1 fun heq => hnot.2 heq.symm hq'
  have hback : (layer.zipIdx.drop (p.2 + 1)).countP (fun q => decide (Ahead g h side fixed q p))
      = smallerBehind g h side fixed layer p.2 (keyAt g h side fixed p) := by
    refine List.countP_congr fun q hq => ?_
    have hq' := hmore q hq
    rw [decide_eq_true_iff, decide_eq_true_iff]
    exact or_iff_left fun hnot => by omega
  omega

theorem keyAt_of_nil {id : NodeId} (hid : neighbourPositions g side fixed id = []) (i : Nat) :
    keyAt g h side fixed (id, i) = i := by
  rw [keyAt, sortKey, hid]

theorem keyAt_of_ne_nil {id : NodeId} (hid : neighbourPositions g side fixed id ≠ []) (i : Nat) :
    keyAt g h side fixed (id, i) = h.average α (neighbourPositions g side fixed id) := by
  unfold keyAt sortKey
  split
  · rename_i hnil
    exact absurd hnil hid
  · rfl

/-- a node of the layer is found again -/
theorem exists_sortedPlaces {i : Nat} {id : NodeId} (hi : layer[i]? = some id) :
    ∃ k : Nat, (sortedPlaces g h side fixed layer)[k]? = some (id, i) ∧
      (sortLayer g h side fixed layer)[k]? = some id := by
  have hmem : (id, i) ∈ sortedPlaces g h side fixed layer :=
    sortedPlaces_perm.mem_iff.2 (List.mem_zipIdx_iff_getElem?.2 hi)
  obtain ⟨k, hk⟩ := List.getElem?_of_mem hmem
  refine ⟨k, hk, ?_⟩
  rw [sortLayer_eq_map, List.getElem?_map, hk, Option.map_some]

/-- in the sorted layer, nodes stand by key and old position -/
theorem precedes_sortLayer_iff (hl : layer.Nodup) {i j : Nat} {a b : NodeId}
    (ha : layer[i]? = some a) (hb : layer[j]? = some b) (hne : a ≠ b) :
    Precedes (sortLayer g h side fixed layer) a b ↔ Ahead g h side fixed (a, i) (b, j) := by
  have hnodup : ((sortedPlaces g h side fixed layer).map Prod.fst).Nodup := by
    rw [← sortLayer_eq_map]
    exact (sortLayer_perm g h side fixed layer).nodup_iff.2 hl
  have hmem {i : Nat} {a : NodeId} (ha : layer[i]? = some a) :
      (a, i) ∈ sortedPlaces g h side fixed layer :=
    sortedPlaces_perm.mem_iff.2 (List.mem_zipIdx_iff_getElem?.2 ha)
  have hne' : (a, i) ≠ (b, j) := fun heq => hne (congrArg Prod.fst heq)
  rw [sortLayer_eq_map, precedes_map_iff hnodup (hmem ha) (hmem hb),
    precedes_iff_of_pairwise pairwise_ahead (fun _ _ => Ahead.asymm) (hmem ha) (hmem hb) hne']

/-- a sorted layer holds the same nodes; those with neighbours in the fixed layer stand by the mean or
the median of their neighbours, and in their old order where these are equal; one without neighbours
keeps its position if as many nodes from in front of it go behind as come forward from behind it, and
not otherwise -/
theorem sortLayer_stays_iff (hl : layer.Nodup) :
    (sortLayer g h side fixed layer).Perm layer ∧
      (∀ a ∈ layer, ∀ b ∈ layer, neighbourPositions g side fixed a ≠ [] →
        neighbourPositions g side fixed b ≠ [] →
          (Precedes (sortLayer g h side fixed layer) a b ↔
            h.average α (neighbourPositions g side fixed a) < h.average α (neighbourPositions g side fixed b) ∨
              h.average α (neighbourPositions g side fixed a) = h.average α (neighbourPositions g side fixed b) ∧
                Precedes layer a b)) ∧
      ∀ (i : Nat) (id : NodeId), layer[i]? = some id → neighbourPositions g side fixed id = [] →
        ((sortLayer g h side fixed layer)[i]? = some id ↔
          largerInFront g h side fixed layer i i = smallerBehind g h side fixed layer i i) := by
  have hperm := sortLayer_perm g h side fixed layer
  have hnodup := hperm.nodup_iff.2 hl
  refine ⟨hperm, fun a ha b hb hna hnb => ?_, fun i id hi hfree => ?_⟩
  · obtain ⟨i, hi⟩ := List.getElem?_of_mem ha
    obtain ⟨j, hj⟩ := List.getElem?_of_mem hb
    by_cases heq : a = b
    · subst heq
      refine ⟨fun hp => absurd rfl (hp.ne hnodup), ?_⟩
      rintro (hlt | ⟨_, hp⟩)
      · exact absurd hlt (lt_irrefl _)
      · exact absurd rfl (hp.ne hl)
    · rw [precedes_sortLayer_iff hl hi hj heq, Ahead, keyAt_of_ne_nil hna, keyAt_of_ne_nil hnb,
        precedes_iff_lt hl hi hj]
  · obtain ⟨k, hk, hresult⟩ : ∃ k : Nat, (sortedPlaces g h side fixed layer)[k]? = some (id, i) ∧
        (sortLayer g h side fixed layer)[k]? = some id := exists_sortedPlaces hi
    have hposition := position_sortedPlaces hk
    rw [keyAt_of_nil hfree] at hposition
    have hsame : (sortLayer g h side fixed layer)[i]? = some id ↔ k = i := by
      refine ⟨fun hi' => ?_, fun hki => hki ▸ hresult⟩
      exact (List.getElem?_inj (List.getElem?_eq_some_iff.1 hresult).1 hnodup).1 (hresult.trans hi'.symm)
    rw [hsame]
    dsimp only at hposition
    omega

/-- one edge, to the first of two nodes, from the last of three -/
def loneEdge : Graph Rat where
  nodes := .ofList ((List.range 5).map fun i => (.int i, ⟨"", none, 0, 0, 0, false⟩))
  arcs := [⟨0, 0, .int 2, .int 3, false⟩]
  index := .ofList [(0, ⟨0, 0, .int 2, .int 3, false⟩)]
  nextKey := 1

theorem sortLayer_stays_loneEdge : ([.int 3, .int 4] : List NodeId).Nodup ∧
    largerInFront loneEdge .median .incoming [.int 0, .int 1, .int 2] [.int 3, .int 4] 1 1 = 1 ∧
    smallerBehind loneEdge .median .incoming [.int 0, .int 1, .int 2] [.int 3, .int 4] 1 1 = 0 ∧
    (sortLayer loneEdge .median .incoming [.int 0, .int 1, .int 2] [.int 3, .int 4])[1]?
      ≠ some (.int 4) := by
  have hlarger : largerInFront loneEdge .median .incoming [.int 0, .int 1, .int 2]
      [.int 3, .int 4] 1 1 = 1 := by decide +kernel
  have hsmaller : smallerBehind loneEdge .median .incoming [.int 0, .int 1, .int 2]
      [.int 3, .int 4] 1 1 = 0 := by decide +kernel
  refine ⟨by decide, hlarger, hsmaller, fun hstays => ?_⟩
  have hequal := ((sortLayer_stays_iff (by decide)).2.2 1 (.int 4) (by decide) (by decide)).1 hstays
  exact absurd (hlarger.symm.trans (hequal.trans hsmaller)) (by decide)

/-- the node with a neighbour goes behind the one without, because the neighbour stands further along
than there are nodes in the layer -/
theorem not_stays_loneEdge :
    ([.int 0, .int 1, .int 2] : List NodeId).Nodup ∧ ([.int 3, .int 4] : List NodeId).Nodup ∧
    (∀ id ∈ ([.int 0, .int 1, .int 2, .int 3, .int 4] : List NodeId), id ∈ loneEdge.nodeIds) ∧
      ¬ Stays loneEdge .barycenter .incoming [.int 0, .int 1, .int 2] [.int 3, .int 4] := by
  have hsorted : sortLayer loneEdge .barycenter .incoming [.int 0, .int 1, .int 2] [.int 3, .int 4]
      = [.int 4, .int 3] := by decide +kernel
  refine ⟨by decide, by decide, by decide, fun hstays => ?_⟩
  have hfour := hstays 1 (.int 4) (by decide) (by decide)
  rw [hsorted] at hfour
  revert hfour
  decide

end

end LayeredDrawing
