import LayeredDrawing.Proofs.Ordering.FirstLeast
import LayeredDrawing.Proofs.Placement.Heights

/-!
# Heights from zero

In the end all heights are shifted together, so the distances along a layer stay and the topmost of
all nodes stands at zero.

* `least?_eq_some_iff`   the least of a list of rationals;
* `fromZero_get?`        shifted heights are not negative, and one of them is zero;
* `heights_grow`         what the heights of any closed arrangement are like.
-/

namespace LayeredDrawing

open Scalar

theorem least?_eq_some_iff {l : List Rat} {y : Rat} :
    least? l = some y ↔ y ∈ l ∧ ∀ z ∈ l, y ≤ z := by
  have hmin : least? l = l.min? := by
    cases l with
    | nil => rfl
    | cons a l =>
      have hsmaller : (smaller : Rat → Rat → Rat) = min := funext fun a => funext fun b => smaller_rat a b
      rw [least?_cons, List.min?_cons', hsmaller]
  rw [hmin, List.min?_eq_some_iff]

theorem eq_nil_of_least? {l : List Rat} (h : least? l = none) : l = [] := by
  cases l with
  | nil => rfl
  | cons a l => cases h

section
variable {spacing : Rat} {lists : Arrangement} {hs : Heights Rat}

theorem Spread.isChain (h : Spread spacing lists hs) {layer : List NodeId} (hl : layer ∈ lists) :
    layer.IsChain fun a b =>
      ∃ y z, hs.get? a = some y ∧ hs.get? b = some z ∧ y + spacing ≤ z := by
  have hget {id : NodeId} (hid : id ∈ layer) : ∃ y, hs.get? id = some y :=
    OrderedMap.exists_get?_of_mem (h.mem_keys (List.mem_flatten.2 ⟨layer, hl, hid⟩))
  refine List.Pairwise.isChain ((h.apart layer hl).imp_of_mem fun {a b} ha hb hab => ?_)
  obtain ⟨y, hy⟩ := hget ha
  obtain ⟨z, hz⟩ := hget hb
  exact ⟨y, z, hy, hz, hab y z hy hz⟩

/-- no shifted height is negative, and one of them is zero unless there are none -/
theorem fromZero_get? (hs : Heights Rat) :
    (∀ id y, (fromZero hs).get? id = some y → 0 ≤ y) ∧
      (hs.keys ≠ [] → ∃ id ∈ hs.keys, (fromZero hs).get? id = some 0) := by
  unfold fromZero
  cases hleast : least? hs.values with
  | none =>
    have hvalues : hs.values = [] := eq_nil_of_least? hleast
    have hentries : hs.entries = [] := List.map_eq_nil_iff.1 hvalues
    have hkeys : hs.keys = [] := List.map_eq_nil_iff.2 hentries
    refine ⟨fun id y hy => ?_, fun hne => absurd hkeys hne⟩
    have hin := OrderedMap.mem_keys_of_get? hy
    rw [hkeys] at hin
    cases hin
  | some low =>
    obtain ⟨hlow, hle⟩ := least?_eq_some_iff.1 hleast
    refine ⟨fun id y hy => ?_, fun _ => ?_⟩
    · rw [OrderedMap.get?_mapValues, Option.map_eq_some_iff] at hy
      obtain ⟨z, hz, rfl⟩ := hy
      exact sub_nonneg.2 (hle z (OrderedMap.mem_values_iff.2 ⟨id, hz⟩))
    · obtain ⟨id, hid⟩ := OrderedMap.mem_values_iff.1 hlow
      refine ⟨id, OrderedMap.mem_keys_of_get? hid, ?_⟩
      rw [OrderedMap.get?_mapValues, hid]
      exact congrArg some (sub_self low)

end

/-- with any number of passes, nodes listed get one height each, these grow along every layer by the
spacing at least, the least of all is zero, and the check for swapped nodes accepts them -/
theorem heights_grow {g : Graph Rat} {lists : Arrangement} (hc : Closed g lists) (c : Config Rat) :
    ∃ hs, heights g c lists = .ok hs ∧ hs.keys = lists.flatten ∧
      (∀ layer ∈ lists, layer.IsChain fun a b =>
        ∃ y z, hs.get? a = some y ∧ hs.get? b = some z ∧ y + c.nodeSpacing ≤ z) ∧
      (∀ id y, hs.get? id = some y → 0 ≤ y) ∧
      (lists.flatten ≠ [] → ∃ id ∈ lists.flatten, hs.get? id = some 0) ∧
      requireOrdered hs lists = .ok () := by
  obtain ⟨hs, hok, hspread⟩ := heights_spread (c := c) hc
  have hshifted := hspread.fromZero
  obtain ⟨hnonneg, hzero⟩ := fromZero_get? hs
  rw [hspread.keys_eq] at hzero
  exact ⟨fromZero hs, hok, hshifted.keys_eq, fun layer hl => hshifted.isChain hl, hnonneg, hzero,
    requireOrdered_of_spread (not_le.1 c.nodeSpacing_pos) hshifted⟩

/-- an edge along a layer, one that leads back, one from a node to itself, and a node that is not
listed -/
def crookedRows : Graph Rat where
  nodes := .ofList [(.int 0, ⟨"", none, 0, 0, 0, false⟩), (.int 1, ⟨"", none, 0, 0, 0, false⟩),
    (.int 2, ⟨"", none, 0, 0, 0, true⟩), (.int 3, ⟨"", none, 0, 0, 0, false⟩),
    (.int 4, ⟨"", none, 0, 0, 0, false⟩)]
  arcs := [⟨0, 0, .int 1, .int 0, false⟩, ⟨1, 1, .int 2, .int 0, false⟩, ⟨2, 2, .int 3, .int 3, false⟩,
    ⟨3, 3, .int 0, .int 3, false⟩]
  index := .ofList [(0, ⟨0, 0, .int 1, .int 0, false⟩), (1, ⟨1, 1, .int 2, .int 0, false⟩),
    (2, ⟨2, 2, .int 3, .int 3, false⟩), (3, ⟨3, 3, .int 0, .int 3, false⟩)]
  nextKey := 4

theorem closed_crookedRows : Closed crookedRows [[.int 0, .int 1], [], [.int 3, .int 2]] where
  nodup := by decide
  mem_nodeIds := by decide
  mem_neighbours id hid side := by
    cases side
    · revert id
      decide
    · revert id
      decide

theorem heights_grow_crookedRows :
    Closed crookedRows [[.int 0, .int 1], [], [.int 3, .int 2]] ∧
    ∃ hs, heights crookedRows { shuffledConfig with coordinatePasses := 3 }
        [[.int 0, .int 1], [], [.int 3, .int 2]] = .ok hs ∧
      hs.keys = [.int 0, .int 1, .int 3, .int 2] ∧
      (∃ y z, hs.get? (.int 0) = some y ∧ hs.get? (.int 1) = some z ∧ y + 1 ≤ z) ∧
      (∃ y z, hs.get? (.int 3) = some y ∧ hs.get? (.int 2) = some z ∧ y + 1 ≤ z) ∧
      ∃ id, hs.get? id = some 0 := by
  obtain ⟨hs, hok, hkeys, hchain, _, hzero, _⟩ :=
    heights_grow closed_crookedRows { shuffledConfig with coordinatePasses := 3 }
  obtain ⟨id, _, hid⟩ := hzero (by decide)
  have hfirst := hchain [.int 0, .int 1] (by decide)
  have hlast := hchain [.int 3, .int 2] (by decide)
  exact ⟨closed_crookedRows, hs, hok, hkeys, (List.isChain_cons_cons.1 hfirst).1,
    (List.isChain_cons_cons.1 hlast).1, id, hid⟩

end LayeredDrawing
