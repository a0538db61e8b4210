import LayeredDrawing.Fault
import LayeredDrawing.RunSort.Basic
import LayeredDrawing.Scalar.Basic
import LayeredDrawing.StableSort

/-!
# Placing a row

A row is a layer seen from the side: slots in their order, each at a height, at least `spacing`
apart.  `placeRow` moves the slots one by one, those of the highest priority first, towards the
heights that they want.  A slot that moves pushes the slots in its way along, but stops where it
would have to push one that was placed before it.

* `placingOrder`     the positions by priority;
* `Slot`             a height, the height wanted, and whether the slot has been placed;
* `pushUp`, `pushDown`   keep the distance to a slot that has moved;
* `placeSlot`        moves one slot.

Heights grow downwards along the row: up is towards the start of the row, down towards its end.
-/

namespace LayeredDrawing

variable {α : Type}

open Scalar

/-! ## slots -/

structure Slot (α : Type) where
  height : α
  target : Option α
  placed : Bool
deriving DecidableEq

def Slot.moveTo (s : Slot α) (y : α) : Slot α := { s with height := y, placed := true }

/-- the slots that can be pushed: those up to the first one placed -/
def loose (l : List (Slot α)) : List (Slot α) := l.takeWhile fun s => !s.placed

def behindLoose (l : List (Slot α)) : List (Slot α) := l.dropWhile fun s => !s.placed

theorem loose_append_behindLoose (l : List (Slot α)) : loose l ++ behindLoose l = l :=
  List.takeWhile_append_dropWhile

/-- a row at the given heights before anything is placed -/
def unplacedRow (heights : List α) (targets : List (Option α)) : List (Slot α) :=
  List.zipWith (fun y t => ⟨y, t, false⟩) heights targets

section
variable [Scalar α]

/-! ## priorities -/

/-- how early a slot is placed; `top` comes before every number -/
inductive Priority (α : Type) where
  | value (a : α)
  | top
deriving DecidableEq

/-- the first priority is the higher one -/
def Priority.above : Priority α → Priority α → Bool
  | .value a, .value b => decide (b < a)
  | .top, .value _ => true
  | _, .top => false

/-- neither priority is the higher one -/
def Priority.same : Priority α → Priority α → Bool
  | .value a, .value b => decide (a ≤ b) && decide (b ≤ a)
  | .top, .top => true
  | _, _ => false

/-- every priority but NaN is the same as itself -/
def Priority.comparable (p : Priority α) : Bool := p.same p

/-- a position comes before another if its priority is above, or the same and it is the smaller
one -/
def earlier (p q : Priority α × Nat) : Bool :=
  if p.1.same q.1 then decide (p.2 < q.2) else p.1.above q.1

/-- the positions in a list of priorities, the highest first, equal ones in their order; with a NaN
among them there is no such order, and the comparisons of `runSort` decide -/
def placingOrder (l : List (Priority α)) : List Nat :=
  if l.all Priority.comparable then
    (stableSort (fun p q => p.1.above q.1) l.zipIdx).map Prod.snd
  else (RunSort.runSort earlier l.zipIdx).map Prod.snd

theorem placingOrder_perm (l : List (Priority α)) :
    (placingOrder l).Perm (List.range l.length) := by
  have hl : (l.zipIdx.map Prod.snd).Perm (List.range l.length) := by
    rw [List.zipIdx_map_snd, List.range_eq_range']
  unfold placingOrder
  split
  · exact ((stableSort_perm _ _).map Prod.snd).trans hl
  · exact ((RunSort.runSort_perm _ _).map Prod.snd).trans hl

theorem placingOrder_of_comparable {l : List (Priority α)} (h : ∀ p ∈ l, p.comparable) :
    placingOrder l = (stableSort (fun p q => p.1.above q.1) l.zipIdx).map Prod.snd := by
  rw [placingOrder, if_pos (List.all_eq_true.2 h)]

/-! ## moving slots -/

/-- the slots above one at height `y`, the nearest first, moved up as far as needed -/
def pushUp (spacing : α) : (y : α) → List (Slot α) → List (Slot α)
  | _, [] => []
  | y, s :: rest =>
    let z := smaller s.height (y - spacing)
    { s with height := z } :: pushUp spacing z rest

/-- the slots below one at height `y`, the nearest first, moved down as far as needed -/
def pushDown (spacing : α) : (y : α) → List (Slot α) → List (Slot α)
  | _, [] => []
  | y, s :: rest =>
    let z := larger s.height (y + spacing)
    { s with height := z } :: pushDown spacing z rest

/-- the height nearest to `t` that leaves room to the first placed slot above -/
def heightUp (spacing : α) (above : List (Slot α)) (t : α) : α :=
  match behindLoose above with
  | [] => t
  | s :: _ => larger t (s.height + ofNat ((loose above).length + 1) * spacing)

/-- the height nearest to `t` that leaves room to the first placed slot below -/
def heightDown (spacing : α) (below : List (Slot α)) (t : α) : α :=
  match behindLoose below with
  | [] => t
  | s :: _ => smaller t (s.height - ofNat ((loose below).length + 1) * spacing)

/-- places the slot at position `i` -/
def placeSlot (spacing : α) (row : List (Slot α)) (i : Nat) : List (Slot α) :=
  match row.drop i with
  | [] => row
  | s :: below =>
    -- the slots above, the nearest first
    let above := (row.take i).reverse
    match s.target with
    | none => row.set i (s.moveTo s.height)
    | some t =>
      if t < s.height then
        let y := heightUp spacing above t
        let above := pushUp spacing y (loose above) ++ behindLoose above
        above.reverse ++ s.moveTo y :: below
      else if s.height < t then
        let y := heightDown spacing below t
        row.take i ++ s.moveTo y :: (pushDown spacing y (loose below) ++ behindLoose below)
      else row.set i (s.moveTo s.height)

/-- the heights of the slots after each has been placed in order of priority -/
def placeSlots (spacing : α) (heights : List α) (targets : List (Option α))
    (priorities : List (Priority α)) : List α :=
  ((placingOrder priorities).foldl (placeSlot spacing) (unplacedRow heights targets)).map
    Slot.height

/-- places a row; every height needs a target and a priority, and more of those are ignored -/
def placeRow (spacing : α) (heights : List α) (targets : List (Option α))
    (priorities : List (Priority α)) : Except Fault (List α) :=
  if targets.length < heights.length ∨ priorities.length < heights.length then .error .outOfRange
  else .ok (placeSlots spacing heights targets (priorities.take heights.length))

theorem length_pushUp (spacing y : α) (l : List (Slot α)) :
    (pushUp spacing y l).length = l.length := by
  induction l generalizing y with
  | nil => rfl
  | cons s l ih => simp [pushUp, ih]

theorem length_pushDown (spacing y : α) (l : List (Slot α)) :
    (pushDown spacing y l).length = l.length := by
  induction l generalizing y with
  | nil => rfl
  | cons s l ih => simp [pushDown, ih]

theorem length_placeSlot (spacing : α) (row : List (Slot α)) (i : Nat) :
    (placeSlot spacing row i).length = row.length := by
  unfold placeSlot
  split
  · rfl
  · rename_i s below hd
    have hlen : row.length = (row.take i).length + (s :: below).length := by
      rw [← hd, ← List.length_append, List.take_append_drop]
    have hsplit (l : List (Slot α)) : (loose l).length + (behindLoose l).length = l.length := by
      rw [← List.length_append, loose_append_behindLoose]
    split
    · simp
    · split
      · have h := hsplit (row.take i).reverse
        simp only [List.length_append, List.length_reverse, List.length_cons, length_pushUp] at *
        omega
      · split
        · have h := hsplit below
          simp only [List.length_append, List.length_cons, length_pushDown] at *
          omega
        · simp

end

end LayeredDrawing
