import LayeredDrawing.Proofs.Route.Polyline
import Mathlib.Algebra.Order.Group.Abs
import Mathlib.Tactic.LinearCombination

/-!
# Cleaning over the rationals

Over the rationals it can be decided without a square root whether a point is on a segment
(`onSegment_eq`), so a route can always be cleaned, unless the tolerance is negative
(`clean_of_nonneg`).  With tolerance zero a point is near another only if they are equal
(`near_zero_iff`), and on a segment between two points if it lies there (`onSegment_zero_iff`).
-/

namespace LayeredDrawing

open Scalar

theorem abs_rat (a : Rat) : Scalar.abs a = |a| := by
  show (if a < 0 then -a else a) = |a|
  split
  · rename_i h
    rw [abs_of_neg h]
  · rename_i h
    rw [abs_of_nonneg (not_lt.1 h)]

section
variable (a b p : Point Rat)

/-- the square of the length of a segment -/
def Point.squareTo : Rat := square (b.x - a.x) (b.y - a.y)

/-- how far a point is to the side of a segment, times the length of the segment -/
def Point.aside : Rat := (b.x - a.x) * (p.y - a.y) - (b.y - a.y) * (p.x - a.x)

/-- how far a point is along a segment, times the length of the segment -/
def Point.ahead : Rat := (b.x - a.x) * (p.x - a.x) + (b.y - a.y) * (p.y - a.y)

theorem squareTo_nonneg : 0 ≤ a.squareTo b := add_nonneg (mul_self_nonneg _) (mul_self_nonneg _)

theorem squareTo_eq_zero_iff : a.squareTo b = 0 ↔ a = b := by
  rw [Point.squareTo, square, add_eq_zero_iff_of_nonneg (mul_self_nonneg _) (mul_self_nonneg _),
    mul_self_eq_zero, mul_self_eq_zero, sub_eq_zero, sub_eq_zero, Point.ext_iff']
  exact and_congr eq_comm eq_comm

/-- a point is on a segment that is longer than the tolerance, not further to the side than the
tolerance and with its foot on the segment -/
theorem onSegment_eq {tol : Rat} (htol : 0 ≤ tol) :
    Point.onSegment tol a p b = .ok (decide (tol * tol < a.squareTo b ∧
      a.aside b p * a.aside b p ≤ tol * tol * a.squareTo b ∧
      -tol ≤ a.ahead b p / a.squareTo b ∧ a.ahead b p / a.squareTo b ≤ 1 + tol)) := by
  unfold Point.onSegment
  dsimp only
  split
  · rename_i hshort
    have hle : a.squareTo b ≤ tol * tol := (of_decide_eq_true hshort).2
    exact congrArg Except.ok (decide_eq_false fun h => absurd h.1 (not_lt.2 hle)).symm
  · rename_i hlong
    have hlt : tol * tol < a.squareTo b :=
      not_le.1 fun hle => hlong (decide_eq_true (p := 0 ≤ tol ∧ _) ⟨htol, hle⟩)
    have hne : a.squareTo b ≠ 0 := ((mul_self_nonneg tol).trans_lt hlt).ne'
    have hratio : Metric.ratioExceeds? (a.aside b p) (b.x - a.x) (b.y - a.y) tol
        = some (decide (tol < 0 ∨ tol * tol * a.squareTo b < a.aside b p * a.aside b p)) := if_neg hne
    have hover : Metric.overSquare? (a.ahead b p) (b.x - a.x) (b.y - a.y)
        = some (a.ahead b p / a.squareTo b) := if_neg hne
    rw [← Point.aside, ← Point.ahead, hratio, hover]
    by_cases haside : tol * tol * a.squareTo b < a.aside b p * a.aside b p
    · rw [decide_eq_true (p := tol < 0 ∨ _) (.inr haside)]
      exact congrArg Except.ok (decide_eq_false fun h => absurd h.2.1 (not_le.2 haside)).symm
    · rw [decide_eq_false (p := tol < 0 ∨ _) (not_or.2 ⟨not_lt.2 htol, haside⟩)]
      refine congrArg Except.ok ?_
      rw [← Bool.decide_and]
      refine decide_eq_decide.2 ?_
      rw [one_rat]
      exact ⟨fun h => ⟨hlt, not_lt.1 haside, h⟩, fun h => h.2.2⟩

end

theorem onSegment_of_nonneg {tol : Rat} (htol : 0 ≤ tol) (a p b : Point Rat) :
    ∃ answer, Point.onSegment tol a p b = .ok answer := ⟨_, onSegment_eq a b p htol⟩

theorem clean_of_nonneg {tol : Rat} (htol : 0 ≤ tol) (start : Point Rat) (bends : List (Point Rat))
    (finish : Point Rat) : ∃ kept, Route.clean tol start bends finish = .ok kept := by
  induction bends generalizing start with
  | nil => exact ⟨[], rfl⟩
  | cons p rest ih =>
    rw [Route.clean]
    split
    · exact ih start
    · obtain ⟨answer, hanswer⟩ := onSegment_of_nonneg htol start p (Route.following rest finish)
      rw [hanswer]
      cases answer with
      | true => exact ih start
      | false =>
        obtain ⟨kept, hkept⟩ := ih p
        refine ⟨p :: kept, ?_⟩
        simp only [bind, Except.bind, hkept]
        rfl

/-! ## without tolerance -/

theorem near_zero_iff {a b : Point Rat} : a.near 0 b = true ↔ a = b := by
  have habs (y z : Rat) : Scalar.abs (y - z) ≤ (0 : Rat) ↔ y = z := by
    rw [abs_rat, ← sub_eq_zero]
    exact abs_nonpos_iff
  rw [Point.near, Bool.and_eq_true, decide_eq_true_iff, decide_eq_true_iff, habs, habs,
    Point.ext_iff']

section
variable {a b p : Point Rat}

/-- a point that is not to the side of a segment is its own foot -/
theorem eq_of_aside_eq_zero (hne : a ≠ b) (haside : a.aside b p = 0) :
    p.x = a.x + a.ahead b p / a.squareTo b * (b.x - a.x) ∧
      p.y = a.y + a.ahead b p / a.squareTo b * (b.y - a.y) := by
  have hne : a.squareTo b ≠ 0 := fun h => hne ((squareTo_eq_zero_iff a b).1 h)
  unfold Point.aside at haside
  constructor
  · rw [← sub_eq_iff_eq_add', div_mul_eq_mul_div, eq_div_iff hne, Point.squareTo, square, Point.ahead]
    linear_combination -(b.y - a.y) * haside
  · rw [← sub_eq_iff_eq_add', div_mul_eq_mul_div, eq_div_iff hne, Point.squareTo, square, Point.ahead]
    linear_combination (b.x - a.x) * haside

theorem aside_and_ahead_of_onSegment {t : Rat} (hx : p.x = a.x + t * (b.x - a.x))
    (hy : p.y = a.y + t * (b.y - a.y)) : a.aside b p = 0 ∧ a.ahead b p = t * a.squareTo b := by
  constructor
  · rw [Point.aside, hx, hy]
    ring
  · rw [Point.ahead, Point.squareTo, square, hx, hy]
    ring

/-- without tolerance the points on a segment between two points are those that lie there -/
theorem onSegment_zero_iff : Point.onSegment 0 a p b = .ok true ↔ a ≠ b ∧ OnSegment a b p := by
  rw [onSegment_eq a b p (le_refl 0), Except.ok.injEq, decide_eq_true_iff, mul_zero, zero_mul,
    neg_zero, add_zero]
  constructor
  · rintro ⟨hpos, haside, h0, h1⟩
    have hne : a ≠ b := fun h => hpos.ne' ((squareTo_eq_zero_iff a b).2 h)
    have hzero : a.aside b p = 0 := mul_self_eq_zero.1 (le_antisymm haside (mul_self_nonneg _))
    obtain ⟨hx, hy⟩ := eq_of_aside_eq_zero hne hzero
    exact ⟨hne, _, h0, h1, hx, hy⟩
  · rintro ⟨hne, t, h0, h1, hx, hy⟩
    have hsquare : a.squareTo b ≠ 0 := fun h => hne ((squareTo_eq_zero_iff a b).1 h)
    obtain ⟨haside, hahead⟩ := aside_and_ahead_of_onSegment hx hy
    rw [haside, hahead, mul_zero, mul_div_cancel_right₀ t hsquare]
    exact ⟨lt_of_le_of_ne (squareTo_nonneg a b) hsquare.symm, le_refl 0, h0, h1⟩

end

/-- the line that a route is drawn as -/
def Route.line (start : Point Rat) (bends : List (Point Rat)) (finish : Point Rat) :
    List (Point Rat) := start :: (bends ++ [finish])

end LayeredDrawing
