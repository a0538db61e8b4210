import LayeredDrawing.Placement.Row
import LayeredDrawing.Proofs.Fault.Carried

/-!
# Rows on another scale

A map of the scalars that keeps sums, differences, fractions and the order, and that takes one spacing
to another, takes the row placed with the one spacing to the row placed with the other: every
comparison comes out the same, so every slot is moved, pushed and stopped as before.

* `Scaling`            such a map;
* `Scaling.mean?`, `Scaling.least?`   numbers on the other scale;
* `Scaling.placeSlot`  one slot is placed;
* `Scaling.placeRow`   a row is placed.
-/

namespace LayeredDrawing

open Scalar

structure Scaling {α : Type} [Scalar α] (k : α → α) (spacing spacing' : α) : Prop where
  lt_iff : ∀ a b, k a < k b ↔ a < b
  add : ∀ a b, k (a + b) = k a + k b
  sub : ∀ a b, k (a - b) = k a - k b
  zero : k zero = zero
  fraction : ∀ a n, k (a / ofNat n) = k a / ofNat n
  gap : k spacing = spacing'
  multiple : ∀ n, k (ofNat n * spacing) = ofNat n * spacing'

/-- nothing changes -/
theorem scaling_id {α : Type} [Scalar α] (spacing : α) : Scaling id spacing spacing where
  lt_iff _ _ := Iff.rfl
  add _ _ := rfl
  sub _ _ := rfl
  zero := rfl
  fraction _ _ := rfl
  gap := rfl
  multiple _ := rfl

/-- the slot on another scale -/
def Slot.scale {α : Type} (k : α → α) (s : Slot α) : Slot α :=
  ⟨k s.height, s.target.map k, s.placed⟩

section
variable {α : Type} {k : α → α}

theorem Slot.scale_moveTo (s : Slot α) (y : α) :
    (s.moveTo y).scale k = (s.scale k).moveTo (k y) := rfl

theorem loose_scale (l : List (Slot α)) :
    loose (l.map (Slot.scale k)) = (loose l).map (Slot.scale k) := List.takeWhile_map ..

theorem behindLoose_scale (l : List (Slot α)) :
    behindLoose (l.map (Slot.scale k)) = (behindLoose l).map (Slot.scale k) := List.dropWhile_map ..

theorem unplacedRow_scale (heights : List α) (targets : List (Option α)) :
    unplacedRow (heights.map k) (targets.map (Option.map k))
      = (unplacedRow heights targets).map (Slot.scale k) := by
  rw [unplacedRow, unplacedRow, List.zipWith_map, List.map_zipWith]
  rfl

end

section
variable {α : Type} [Scalar α] {k : α → α} {spacing spacing' : α} (h : Scaling k spacing spacing')
include h

/-! ## numbers -/

theorem Scaling.smaller (a b : α) : Scalar.smaller (k a) (k b) = k (Scalar.smaller a b) := by
  unfold Scalar.smaller
  by_cases hlt : b < a
  · rw [if_pos hlt, if_pos ((h.lt_iff b a).2 hlt)]
  · rw [if_neg hlt, if_neg fun hk => hlt ((h.lt_iff b a).1 hk)]

theorem Scaling.larger (a b : α) : Scalar.larger (k a) (k b) = k (Scalar.larger a b) := by
  unfold Scalar.larger
  by_cases hlt : a < b
  · rw [if_pos hlt, if_pos ((h.lt_iff a b).2 hlt)]
  · rw [if_neg hlt, if_neg fun hk => hlt ((h.lt_iff a b).1 hk)]

theorem Scaling.sum (l : List α) : Scalar.sum (l.map k) = k (Scalar.sum l) := by
  have hfold (a : α) : (l.map k).foldl (· + ·) (k a) = k (l.foldl (· + ·) a) := by
    induction l generalizing a with
    | nil => rfl
    | cons b l ih => rw [List.map_cons, List.foldl_cons, List.foldl_cons, ← h.add, ih]
  have hzero := hfold Scalar.zero
  rwa [h.zero] at hzero

theorem Scaling.mean? (l : List α) : Scalar.mean? (l.map k) = (Scalar.mean? l).map k := by
  cases l with
  | nil => rfl
  | cons a l =>
    have hsum := h.sum (a :: l)
    rw [List.map_cons] at hsum
    rw [List.map_cons, mean?_cons, mean?_cons, hsum, List.length_map, Option.map_some, h.fraction]

theorem Scaling.least? (l : List α) : Scalar.least? (l.map k) = (Scalar.least? l).map k := by
  cases l with
  | nil => rfl
  | cons a l =>
    have hfold (a : α) : (l.map k).foldl Scalar.smaller (k a) = k (l.foldl Scalar.smaller a) := by
      induction l generalizing a with
      | nil => rfl
      | cons b l ih => rw [List.map_cons, List.foldl_cons, List.foldl_cons, h.smaller, ih]
    rw [List.map_cons, least?_cons, least?_cons, hfold, Option.map_some]

/-! ## slots -/

theorem Scaling.pushUp (y : α) (l : List (Slot α)) : pushUp spacing' (k y) (l.map (Slot.scale k))
    = (LayeredDrawing.pushUp spacing y l).map (Slot.scale k) := by
  induction l generalizing y with
  | nil => rfl
  | cons s l ih =>
    have hmoved : Scalar.smaller (k s.height) (k y - spacing')
        = k (Scalar.smaller s.height (y - spacing)) := by
      rw [← h.gap, ← h.sub, h.smaller]
    rw [List.map_cons, LayeredDrawing.pushUp, LayeredDrawing.pushUp]
    simp only [Slot.scale, hmoved, List.map_cons]
    exact congrArg _ (ih _)

theorem Scaling.pushDown (y : α) (l : List (Slot α)) :
    pushDown spacing' (k y) (l.map (Slot.scale k))
      = (LayeredDrawing.pushDown spacing y l).map (Slot.scale k) := by
  induction l generalizing y with
  | nil => rfl
  | cons s l ih =>
    have hmoved : Scalar.larger (k s.height) (k y + spacing')
        = k (Scalar.larger s.height (y + spacing)) := by
      rw [← h.gap, ← h.add, h.larger]
    rw [List.map_cons, LayeredDrawing.pushDown, LayeredDrawing.pushDown]
    simp only [Slot.scale, hmoved, List.map_cons]
    exact congrArg _ (ih _)

theorem Scaling.heightUp (above : List (Slot α)) (t : α) :
    heightUp spacing' (above.map (Slot.scale k)) (k t)
      = k (LayeredDrawing.heightUp spacing above t) := by
  unfold LayeredDrawing.heightUp
  rw [behindLoose_scale, loose_scale, List.length_map]
  cases behindLoose above with
  | nil => rfl
  | cons s rest =>
    show Scalar.larger (k t) (k s.height + ofNat _ * spacing') = _
    rw [← h.multiple, ← h.add, h.larger]

theorem Scaling.heightDown (below : List (Slot α)) (t : α) :
    heightDown spacing' (below.map (Slot.scale k)) (k t)
      = k (LayeredDrawing.heightDown spacing below t) := by
  unfold LayeredDrawing.heightDown
  rw [behindLoose_scale, loose_scale, List.length_map]
  cases behindLoose below with
  | nil => rfl
  | cons s rest =>
    show Scalar.smaller (k t) (k s.height - ofNat _ * spacing') = _
    rw [← h.multiple, ← h.sub, h.smaller]

theorem Scaling.placeSlot (row : List (Slot α)) (i : Nat) :
    placeSlot spacing' (row.map (Slot.scale k)) i
      = (LayeredDrawing.placeSlot spacing row i).map (Slot.scale k) := by
  have habove : ((row.map (Slot.scale k)).take i).reverse
      = (row.take i).reverse.map (Slot.scale k) := by
    rw [← List.map_take, List.map_reverse]
  have hset (s : Slot α) : (row.map (Slot.scale k)).set i (s.scale k) = (row.set i s).map (Slot.scale k) :=
    List.map_set.symm
  unfold LayeredDrawing.placeSlot
  rw [← List.map_drop]
  cases row.drop i with
  | nil => rfl
  | cons s below =>
    obtain ⟨y, target, placed⟩ := s
    cases target with
    | none => exact hset (Slot.moveTo ⟨y, none, placed⟩ y)
    | some t =>
      show (if k t < k y then _ else if k y < k t then _ else _) = _
      simp only [h.lt_iff, habove, h.heightUp, h.heightDown, loose_scale, behindLoose_scale, h.pushUp,
        h.pushDown]
      split
      · simp only [List.map_append, List.map_cons, List.map_reverse, Slot.scale_moveTo]
      · split
        · simp only [List.map_append, List.map_cons, List.map_take, Slot.scale_moveTo]
        · exact hset (Slot.moveTo ⟨y, some t, placed⟩ y)

theorem Scaling.placeSlots (heights : List α) (targets : List (Option α))
    (priorities : List (Priority α)) :
    placeSlots spacing' (heights.map k) (targets.map (Option.map k)) priorities
      = (LayeredDrawing.placeSlots spacing heights targets priorities).map k := by
  have hfold (order : List Nat) (row : List (Slot α)) :
      order.foldl (LayeredDrawing.placeSlot spacing') (row.map (Slot.scale k))
        = (order.foldl (LayeredDrawing.placeSlot spacing) row).map (Slot.scale k) := by
    induction order generalizing row with
    | nil => rfl
    | cons i order ih => rw [List.foldl_cons, List.foldl_cons, h.placeSlot, ih]
  rw [LayeredDrawing.placeSlots, LayeredDrawing.placeSlots, unplacedRow_scale, hfold, List.map_map,
    List.map_map]
  rfl

theorem Scaling.placeRow (heights : List α) (targets : List (Option α))
    (priorities : List (Priority α)) :
    Carried (List.map k) (placeRow spacing heights targets priorities)
      (LayeredDrawing.placeRow spacing' (heights.map k) (targets.map (Option.map k)) priorities) := by
  unfold LayeredDrawing.placeRow
  rw [List.length_map, List.length_map]
  split
  · exact carried_error rfl
  · exact carried_ok (h.placeSlots ..)

end

end LayeredDrawing
