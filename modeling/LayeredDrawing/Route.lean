import LayeredDrawing.Fault
import LayeredDrawing.Scalar.Basic

/-!
# Routes

A route leads from a start through bends to an end.  `Route.clean` leaves out the bends that say
nothing about its shape: a bend goes if it coincides with the last point kept or with the end, or
lies on the segment from the last point kept to the next point of the route as it came in.

* `Point.near`    both coordinates agree up to the tolerance;
* `Point.onSegment`   the distance from the line is within the tolerance and the foot on it within
                      the segment, extended by the tolerance times its length at either end.
-/

namespace LayeredDrawing

structure Point (α : Type) where
  x : α
  y : α
deriving DecidableEq, Repr

namespace Point

variable {α : Type} [Metric α]

open Scalar

def near (tol : α) (a b : Point α) : Bool :=
  decide (abs (a.x - b.x) ≤ tol) && decide (abs (a.y - b.y) ≤ tol)

/-- the point `p` lies on the segment from `a` to `b`; a segment not longer than the tolerance
holds no point, and one whose length vanishes beside a negative tolerance is refused -/
def onSegment (tol : α) (a p b : Point α) : Except Fault Bool :=
  let dx := b.x - a.x
  let dy := b.y - a.y
  if Metric.lengthAtMost dx dy tol then .ok false
  else
    match Metric.ratioExceeds? (dx * (p.y - a.y) - dy * (p.x - a.x)) dx dy tol with
    | none => .error .divisionByZero
    | some true => .ok false
    | some false =>
      match Metric.overSquare? (dx * (p.x - a.x) + dy * (p.y - a.y)) dx dy with
      | none => .error .divisionByZero
      | some t => .ok (decide (-tol ≤ t) && decide (t ≤ one + tol))

end Point

namespace Route

/-- a millionth -/
def defaultTolerance {α : Type} [Scalar α] : α := Scalar.one / Scalar.ofInt 1000000

variable {α : Type} [Metric α]

/-- the point after a bend: the next bend, or else the end -/
def following (rest : List (Point α)) (finish : Point α) : Point α := rest.headD finish

/-- the bends that a route from `start` to `finish` needs -/
def clean (tol : α) (start : Point α) : List (Point α) → (finish : Point α) →
    Except Fault (List (Point α))
  | [], _ => .ok []
  | p :: rest, finish =>
    if p.near tol start || p.near tol finish then clean tol start rest finish
    else do
      if ← Point.onSegment tol start p (following rest finish) then clean tol start rest finish
      else return p :: (← clean tol p rest finish)

theorem clean_nil (tol : α) (start finish : Point α) : clean tol start [] finish = .ok [] := rfl

end Route

end LayeredDrawing
