import LayeredDrawing.Proofs.Binary64.Ratio
import LayeredDrawing.Proofs.Ordering.Average
import LayeredDrawing.Proofs.Ordering.CrossingPairs
import LayeredDrawing.Proofs.Ordering.SortedLayer
import LayeredDrawing.Scalar.Binary64
import Mathlib.Algebra.Order.BigOperators.Group.List

/-!
# Sorting finds an order without crossings

Nothing crosses between a layer and the fixed layer beside it exactly if, of any two nodes of the
layer, the first has no neighbour behind a neighbour of the second.  Then its mean is not behind that
of the second either, and the means are equal only if all neighbours of both are one node, which
leaves nothing to cross.  So if some order has no crossings, then neither has the sorted one.

Medians are good for this too, as long as there are no parallel edges.

Rounded averages do as well, as long as no two different ones become equal.  With doubles that takes more
than a hundred thousand nodes and edges.

* `crossingsBeside?`            the crossings between a layer and the fixed one;
* `crossingsBeside?_eq_zero_iff`  when there are none;
* `Graph.SimpleBeside`          there are no parallel edges;
* `Heuristic.KeepsApart`        rounding makes no two different averages equal;
* `sortLayer_uncrossed`         sorting finds an order without crossings if there is one;
* `sortLayer_uncrossed_doubles`  so it does with doubles.
-/

namespace LayeredDrawing

/-! ## counting none -/

theorem inversions_eq_zero_iff {seen : List Nat} (hseen : seen.Pairwise (· ≤ ·)) (l : List (List Nat)) :
    inversions seen l = 0 ↔ (∀ ts ∈ l, AllLe seen ts) ∧ l.Pairwise AllLe := by
  induction l generalizing seen with
  | nil => exact ⟨fun _ => ⟨fun _ hts => absurd hts List.not_mem_nil, List.Pairwise.nil⟩, fun _ => rfl⟩
  | cons ts rest ih =>
    obtain ⟨later, hlater, hperm, hcount⟩ := inversions_cons hseen ts rest
    have hfirst : across (fun t n => decide (t < n)) ts seen = 0 ↔ AllLe seen ts := by
      simp only [across_eq_zero_iff, decide_eq_false_iff_not, not_lt]
      exact ⟨fun h n hn t ht => h t ht n hn, fun h t ht n hn => h n hn t ht⟩
    have hrest (us : List Nat) : AllLe later us ↔ AllLe seen us ∧ AllLe ts us := by
      simp only [AllLe, hperm.mem_iff, List.mem_append, or_imp, forall_and]
    rw [hcount, Nat.add_eq_zero_iff, hfirst, ih hlater, List.forall_mem_cons, List.pairwise_cons]
    simp only [hrest, forall_and]
    tauto

/-! ## neighbours on one side -/

namespace Edge

/-- the end of an edge at the node looked at -/
def near : Side → Edge → NodeId
  | .incoming, e => e.target
  | .outgoing, e => e.source

/-- the end of an edge at the neighbour -/
def far : Side → Edge → NodeId
  | .incoming, e => e.source
  | .outgoing, e => e.target

end Edge

section
variable {α : Type} {g : Graph α} {side : Side} {fixed layer : List NodeId}

theorem lastPosition?_of_nodup {l : List NodeId} (hl : l.Nodup) {i : Nat} {id : NodeId}
    (hi : l[i]? = some id) : lastPosition? l id = some i := by
  cases hp : lastPosition? l id with
  | none => exact absurd (List.mem_of_getElem? hi) (lastPosition?_eq_none_iff.1 hp)
  | some j =>
    have hj := getElem?_lastPosition? hp
    exact congrArg some ((List.getElem?_inj (List.getElem?_eq_some_iff.1 hj).1 hl).1 (hj.trans hi.symm))

theorem neighbours_eq_far (g : Graph α) (side : Side) (id : NodeId) :
    g.neighbours side id = (g.arcs.filter fun e => e.near side = id).map (Edge.far side) := by
  cases side <;> rfl

theorem mem_neighbourPositions {id : NodeId} {n : Nat} : n ∈ neighbourPositions g side fixed id ↔
    ∃ e ∈ g.arcs, e.near side = id ∧ lastPosition? fixed (e.far side) = some n := by
  simp only [neighbourPositions, neighbours_eq_far, List.mem_filterMap, List.mem_map, List.mem_filter,
    decide_eq_true_eq]
  constructor
  · rintro ⟨_, ⟨e, ⟨he, hnear⟩, rfl⟩, hn⟩
    exact ⟨e, he, hnear, hn⟩
  · rintro ⟨e, he, hnear, hn⟩
    exact ⟨_, ⟨e, ⟨he, hnear⟩, rfl⟩, hn⟩

theorem lt_of_mem_neighbourPositions {id : NodeId} {n : Nat} (hn : n ∈ neighbourPositions g side fixed id) :
    n < fixed.length := by
  obtain ⟨e, _, _, hpos⟩ := mem_neighbourPositions.1 hn
  exact (List.getElem?_eq_some_iff.1 (getElem?_lastPosition? hpos)).1

theorem length_neighbourPositions_le (g : Graph α) (side : Side) (fixed : List NodeId) (id : NodeId) :
    (neighbourPositions g side fixed id).length ≤ g.arcs.length := by
  rw [neighbourPositions, neighbours_eq_far, List.filterMap_map]
  exact (List.length_filterMap_le _ _).trans (List.length_filter_le _ _)

/-- of any two edges, those that start at the nodes of the layer in order end in order -/
theorem pairwise_allLe_iff (hf : fixed.Nodup) :
    (layer.Pairwise fun a b =>
      AllLe (neighbourPositions g side fixed a) (neighbourPositions g side fixed b)) ↔
      ∀ d ∈ g.arcs, ∀ e ∈ g.arcs, Precedes layer (d.near side) (e.near side) →
        ¬ Precedes fixed (e.far side) (d.far side) := by
  rw [pairwise_iff_precedes]
  constructor
  · intro h d hd e he hnear hfar
    obtain ⟨i, j, hij, hi, hj⟩ := precedes_iff_getElem?.1 hfar
    have hle := h _ _ hnear j (mem_neighbourPositions.2 ⟨d, hd, rfl, lastPosition?_of_nodup hf hj⟩)
      i (mem_neighbourPositions.2 ⟨e, he, rfl, lastPosition?_of_nodup hf hi⟩)
    omega
  · intro h a b hab m hm n hn
    obtain ⟨d, hd, rfl, hposd⟩ := mem_neighbourPositions.1 hm
    obtain ⟨e, he, rfl, hpose⟩ := mem_neighbourPositions.1 hn
    refine not_lt.1 fun hlt => h d hd e he hab (precedes_iff_getElem?.2 ⟨n, m, hlt, ?_, ?_⟩)
    · exact getElem?_lastPosition? hpose
    · exact getElem?_lastPosition? hposd

/-! ## crossings with the layer beside -/

/-- the crossings between a layer and the fixed one, which stands on the side looked at -/
def crossingsBeside? (g : Graph α) : Side → (fixed layer : List NodeId) → Except Fault Nat
  | .incoming, fixed, layer => crossingsBetween? g fixed layer
  | .outgoing, fixed, layer => crossingsBetween? g layer fixed

/-- no two edges between a layer and the fixed one have both ends in common -/
def Graph.SimpleBeside (g : Graph α) (side : Side) (fixed layer : List NodeId) : Prop :=
  (g.arcs.filter fun e => decide (e.near side ∈ layer ∧ e.far side ∈ fixed)).Pairwise fun d e =>
    d.parallel e = false

theorem crossingsBetween?_of_mem {upper lower : List NodeId} (hmem : ∀ id ∈ upper, id ∈ g.nodeIds) :
    crossingsBetween? g upper lower = .ok (crossingsBetween g upper lower) := by
  have hr : g.requireAll upper = .ok () :=
    Graph.requireAll_eq_ok_iff.2 fun id hid => Graph.hasNode_iff.2 (hmem id hid)
  rw [crossingsBetween?, hr]
  rfl

/-- nothing crosses the edges of a layer if its nodes have their neighbours in order -/
theorem crossingsBeside?_eq_zero_iff (hf : fixed.Nodup) (hl : layer.Nodup)
    (hfixed : ∀ id ∈ fixed, id ∈ g.nodeIds) (hlayer : ∀ id ∈ layer, id ∈ g.nodeIds) :
    crossingsBeside? g side fixed layer = .ok 0 ↔ layer.Pairwise fun a b =>
      AllLe (neighbourPositions g side fixed a) (neighbourPositions g side fixed b) := by
  -- the count goes by the positions of targets, so it speaks of the lower list as the fixed one
  have hcount (upper lower : List NodeId) :
      crossingsBetween g upper lower = 0 ↔ upper.Pairwise fun a b =>
        AllLe (neighbourPositions g .outgoing lower a) (neighbourPositions g .outgoing lower b) := by
    rw [crossingsBetween, inversions_eq_zero_iff List.Pairwise.nil, List.pairwise_map]
    exact and_iff_right fun _ _ n hn => absurd hn List.not_mem_nil
  cases side with
  | outgoing => rw [crossingsBeside?, crossingsBetween?_of_mem hlayer, Except.ok.injEq, hcount]
  | incoming =>
    rw [crossingsBeside?, crossingsBetween?_of_mem hfixed, Except.ok.injEq, hcount,
      pairwise_allLe_iff hl, pairwise_allLe_iff hf]
    constructor
    · exact fun h d hd e he hnear hfar => h e he d hd hfar hnear
    · exact fun h d hd e he hnear hfar => h e he d hd hfar hnear

/-- without parallel edges no position occurs twice among those of a node's neighbours -/
theorem nodup_neighbourPositions (hsimple : g.SimpleBeside side fixed layer) {id : NodeId}
    (hid : id ∈ layer) : (neighbourPositions g side fixed id).Nodup := by
  rw [neighbourPositions, neighbours_eq_far, List.filterMap_map, List.Nodup, List.pairwise_filterMap,
    List.pairwise_filter]
  refine (List.pairwise_filter.1 hsimple).imp fun {d e} hde hd he m hm n hn hmn => ?_
  subst hmn
  rw [decide_eq_true_iff] at hd he
  have hfar : e.far side = d.far side := Option.some.inj
    ((getElem?_lastPosition? hn).symm.trans (getElem?_lastPosition? hm))
  have hin : d.far side ∈ fixed := List.mem_of_getElem? (getElem?_lastPosition? hm)
  have hapart := hde (decide_eq_true ⟨hd ▸ hid, hin⟩) (decide_eq_true ⟨he ▸ hid, hfar ▸ hin⟩)
  have hnear : d.near side = e.near side := hd.trans he.symm
  have hparallel : d.parallel e = true := by
    cases side with
    | incoming => exact decide_eq_true ⟨hfar.symm, hnear⟩
    | outgoing => exact decide_eq_true ⟨hnear, hfar.symm⟩
  rw [hparallel] at hapart
  cases hapart

end

/-! ## sorting -/

section
variable {α : Type} [Scalar α] {g : Graph α} {h : Heuristic} {side : Side} {fixed layer : List NodeId}

/-- where two nodes of the layer have different averages, the rounded ones differ in the same way -/
def Heuristic.KeepsApart (h : Heuristic) (g : Graph α) (side : Side) (fixed layer : List NodeId) : Prop :=
  ∀ a ∈ layer, ∀ b ∈ layer,
    neighbourPositions g side fixed a ≠ [] → neighbourPositions g side fixed b ≠ [] →
      h.average Rat (neighbourPositions g side fixed a) < h.average Rat (neighbourPositions g side fixed b) →
        h.average α (neighbourPositions g side fixed a) < h.average α (neighbourPositions g side fixed b)

theorem keepsApart_of_exact (hexact : ∀ n d : Nat, Scalar.ratio α n d = n / d) :
    h.KeepsApart g side fixed layer := by
  have haverage {l : List Nat} (hne : l ≠ []) : h.average α l = h.average Rat l := by
    cases h with
    | barycenter => exact hexact _ _
    | median => exact median_eq_of_exact hne fun _ _ _ _ => hexact _ _
  intro a _ b _ hna hnb hlt
  rwa [haverage hna, haverage hnb]

/-- nodes with neighbours stand in order of their averages -/
theorem average_le_of_precedes (hl : layer.Nodup) {a b : NodeId}
    (hab : Precedes (sortLayer g h side fixed layer) a b)
    (hna : neighbourPositions g side fixed a ≠ []) (hnb : neighbourPositions g side fixed b ≠ []) :
    h.average α (neighbourPositions g side fixed a) ≤ h.average α (neighbourPositions g side fixed b) := by
  have hperm := sortLayer_perm g h side fixed layer
  obtain ⟨i, hi⟩ := List.getElem?_of_mem (hperm.mem_iff.1 hab.mem_left)
  obtain ⟨j, hj⟩ := List.getElem?_of_mem (hperm.mem_iff.1 hab.mem_right)
  have hahead := (precedes_sortLayer_iff hl hi hj (hab.ne (hperm.nodup_iff.2 hl))).1 hab
  rw [Ahead, keyAt_of_ne_nil hna, keyAt_of_ne_nil hnb] at hahead
  rcases hahead with hlt | ⟨heq, _⟩
  · exact hlt.le
  · exact heq.le

/-- sorting by averages that rounding keeps apart leaves no crossings if some order has none -/
theorem uncrossed_of_keepsApart (hf : fixed.Nodup) (hl : layer.Nodup)
    (hfixed : ∀ id ∈ fixed, id ∈ g.nodeIds) (hlayer : ∀ id ∈ layer, id ∈ g.nodeIds)
    (hkeep : h.KeepsApart g side fixed layer)
    (hmedian : h = .median → g.SimpleBeside side fixed layer)
    (hsome : ∃ order : List NodeId, order.Perm layer ∧ crossingsBeside? g side fixed order = .ok 0) :
    crossingsBeside? g side fixed (sortLayer g h side fixed layer) = .ok 0 := by
  obtain ⟨order, hperm, hzero⟩ := hsome
  rw [crossingsBeside?_eq_zero_iff hf (hperm.nodup_iff.2 hl) hfixed
    fun id hid => hlayer id (hperm.mem_iff.1 hid), pairwise_iff_precedes] at hzero
  have hsorted := sortLayer_perm g h side fixed layer
  rw [crossingsBeside?_eq_zero_iff hf (hsorted.nodup_iff.2 hl) hfixed
    fun id hid => hlayer id (hsorted.mem_iff.1 hid), pairwise_iff_precedes]
  intro a b hab
  by_cases hna : neighbourPositions g side fixed a = []
  · rw [hna]
    exact fun m hm => absurd hm List.not_mem_nil
  by_cases hnb : neighbourPositions g side fixed b = []
  · rw [hnb]
    exact fun _ _ n hn => absurd hn List.not_mem_nil
  have ha : a ∈ layer := hsorted.mem_iff.1 hab.mem_left
  have hb : b ∈ layer := hsorted.mem_iff.1 hab.mem_right
  rcases precedes_or_precedes (hperm.mem_iff.2 ha) (hperm.mem_iff.2 hb)
    (hab.ne (hsorted.nodup_iff.2 hl)) with hfirst | hlast
  · exact hzero a b hfirst
  · have hle : h.average Rat (neighbourPositions g side fixed a)
        ≤ h.average Rat (neighbourPositions g side fixed b) :=
      not_lt.1 fun hlt => (average_le_of_precedes hl hab hna hnb).not_gt (hkeep b hb a ha hnb hna hlt)
    exact allLe_of_centred
      (centred_average h (fun hm => nodup_neighbourPositions (hmedian hm) ha) hna)
      (centred_average h (fun hm => nodup_neighbourPositions (hmedian hm) hb) hnb)
      (hzero b a hlast) hle

/-- if some order of a layer has no crossings with the fixed one, then neither has the layer sorted by exact
averages; with medians this needs that no edges between the two are parallel -/
theorem sortLayer_uncrossed (g : Graph α) (hexact : ∀ n d : Nat, Scalar.ratio α n d = n / d)
    (h : Heuristic) (side : Side) {fixed layer : List NodeId}
    (hf : fixed.Nodup) (hl : layer.Nodup) (hfixed : ∀ id ∈ fixed, id ∈ g.nodeIds)
    (hlayer : ∀ id ∈ layer, id ∈ g.nodeIds)
    (hmedian : h = .median → g.SimpleBeside side fixed layer)
    (hsome : ∃ order : List NodeId, order.Perm layer ∧ crossingsBeside? g side fixed order = .ok 0) :
    crossingsBeside? g side fixed (sortLayer g h side fixed layer) = .ok 0 :=
  uncrossed_of_keepsApart hf hl hfixed hlayer (keepsApart_of_exact hexact) hmedian hsome

end

/-- two nodes with two edges each, to neighbouring nodes of three -/
def staircase : Graph Rat where
  nodes := .ofList ((List.range 5).map fun i => (.int i, ⟨"", none, 0, 0, 0, false⟩))
  arcs := [⟨0, 0, .int 0, .int 4, false⟩, ⟨1, 1, .int 0, .int 3, false⟩, ⟨2, 2, .int 1, .int 3, false⟩,
    ⟨3, 3, .int 1, .int 2, false⟩]
  index := .ofList [(0, ⟨0, 0, .int 0, .int 4, false⟩), (1, ⟨1, 1, .int 0, .int 3, false⟩),
    (2, ⟨2, 2, .int 1, .int 3, false⟩), (3, ⟨3, 3, .int 1, .int 2, false⟩)]
  nextKey := 4

/-- medians on a graph without parallel edges, means on one with some -/
theorem sortLayer_uncrossed_staircase :
    (staircase.SimpleBeside .incoming [.int 0, .int 1] [.int 2, .int 3, .int 4] ∧
      crossingsBeside? staircase .incoming [.int 0, .int 1] [.int 2, .int 3, .int 4] = .ok 3 ∧
      crossingsBeside? staircase .incoming [.int 0, .int 1] [.int 4, .int 3, .int 2] = .ok 0 ∧
      crossingsBeside? staircase .incoming [.int 0, .int 1]
        (sortLayer staircase .median .incoming [.int 0, .int 1] [.int 2, .int 3, .int 4]) = .ok 0) ∧
    crossingsBeside? crossedTwice .outgoing [.int 3, .int 2] [.int 1, .int 0] = .ok 2 ∧
    crossingsBeside? crossedTwice .outgoing [.int 3, .int 2] [.int 0, .int 1] = .ok 0 ∧
      crossingsBeside? crossedTwice .outgoing [.int 3, .int 2]
        (sortLayer crossedTwice .barycenter .outgoing [.int 3, .int 2] [.int 1, .int 0]) = .ok 0 := by
  have hsimple : staircase.SimpleBeside .incoming [.int 0, .int 1] [.int 2, .int 3, .int 4] := by
    unfold Graph.SimpleBeside
    decide
  have hstairs : crossingsBeside? staircase .incoming [.int 0, .int 1] [.int 4, .int 3, .int 2]
      = .ok 0 := by decide +kernel
  have htwice : crossingsBeside? crossedTwice .outgoing [.int 3, .int 2] [.int 0, .int 1] = .ok 0 := by
    decide +kernel
  exact ⟨⟨hsimple, by decide +kernel, hstairs, sortLayer_uncrossed staircase Scalar.ratio_rat .median
      .incoming (by decide) (by decide) (by decide) (by decide) (fun _ => hsimple)
      ⟨[.int 4, .int 3, .int 2], by decide, hstairs⟩⟩,
    by decide +kernel, htwice, sortLayer_uncrossed crossedTwice Scalar.ratio_rat .barycenter .outgoing
      (by decide) (by decide) (by decide) (by decide) (fun hm => by cases hm)
      ⟨[.int 0, .int 1], by decide, htwice⟩⟩

/-! ## doubles -/

section
variable {g : Graph Float} {h : Heuristic} {side : Side} {fixed layer : List NodeId}

/-- means of short lists of small numbers differ by more than rounding takes -/
theorem keepsApart_barycenter (hsize : fixed.length * g.arcs.length ^ 2 < 2 ^ 52) :
    Heuristic.barycenter.KeepsApart g side fixed layer := by
  intro a _ b _ hna hnb hlt
  have hterm (a b : NodeId) : (neighbourPositions g side fixed a).foldr (· + ·) 0
      * (neighbourPositions g side fixed b).length ≤ fixed.length * g.arcs.length ^ 2 := by
    have hsum : (neighbourPositions g side fixed a).foldr (· + ·) 0
        ≤ (neighbourPositions g side fixed a).length * fixed.length :=
      List.sum_le_card_nsmul _ _ fun n hn => (lt_of_mem_neighbourPositions hn).le
    calc _ ≤ (g.arcs.length * fixed.length) * g.arcs.length :=
          Nat.mul_le_mul (hsum.trans (Nat.mul_le_mul_right _ (length_neighbourPositions_le g side fixed a)))
            (length_neighbourPositions_le g side fixed b)
      _ = fixed.length * g.arcs.length ^ 2 := by ring
  have hposa := List.length_pos_iff.2 hna
  have hposb := List.length_pos_iff.2 hnb
  refine Binary64.ratio_lt_ratio hposa.ne' hposb.ne' ?_ ?_
  · have hcross := (div_lt_div_iff₀ (Nat.cast_pos.2 hposa) (Nat.cast_pos.2 hposb)).1 hlt
    exact_mod_cast hcross
  · have hab := hterm a b
    have hba := hterm b a
    omega

/-- medians are whole numbers or halves -/
theorem keepsApart_median (hsize : fixed.length * g.arcs.length ^ 2 < 2 ^ 52) :
    Heuristic.median.KeepsApart g side fixed layer := by
  have hexact {id : NodeId} (hid : neighbourPositions g side fixed id ≠ []) :
      median Float (neighbourPositions g side fixed id) = median Rat (neighbourPositions g side fixed id) := by
    refine median_eq_of_exact hid fun m hm n hn => Binary64.ratio_of_isDouble _ two_ne_zero ?_
    have harcs : 0 < g.arcs.length :=
      (List.length_pos_iff.2 hid).trans_le (length_neighbourPositions_le g side fixed id)
    have hfixed : fixed.length ≤ fixed.length * g.arcs.length ^ 2 :=
      Nat.le_mul_of_pos_right _ (pow_pos harcs 2)
    have hm' := lt_of_mem_neighbourPositions hm
    have hn' := lt_of_mem_neighbourPositions hn
    refine ⟨(m + n : Nat), -1, ?_, ?_⟩
    · rw [Nat.abs_cast]
      exact_mod_cast (by omega : m + n ≤ 2 ^ 53)
    · rw [zpow_neg_one, Int.cast_natCast, Nat.cast_ofNat, div_eq_mul_inv]
  intro a _ b _ hna hnb hlt
  change median Float _ < median Float _
  rw [hexact hna, hexact hnb]
  exact hlt

/-- if some order of a layer has no crossings with the fixed one, then neither has the layer sorted by
averages that are rounded to doubles, unless it is very large -/
theorem sortLayer_uncrossed_doubles (hsize : fixed.length * g.arcs.length ^ 2 < 2 ^ 52)
    (hf : fixed.Nodup) (hl : layer.Nodup) (hfixed : ∀ id ∈ fixed, id ∈ g.nodeIds)
    (hlayer : ∀ id ∈ layer, id ∈ g.nodeIds)
    (hmedian : h = .median → g.SimpleBeside side fixed layer)
    (hsome : ∃ order : List NodeId, order.Perm layer ∧ crossingsBeside? g side fixed order = .ok 0) :
    crossingsBeside? g side fixed (sortLayer g h side fixed layer) = .ok 0 := by
  refine uncrossed_of_keepsApart hf hl hfixed hlayer ?_ hmedian hsome
  cases h with
  | barycenter => exact keepsApart_barycenter hsize
  | median => exact keepsApart_median hsize

end

end LayeredDrawing
