/-!
# The length of a vector of doubles

`length x y` is `√(x² + y²)` in doubles, almost always the nearest one.

* The parts are first divided by a power of two (`scaleOf`), so that the larger one lies between a
  half and one and neither square can overflow or vanish.
* A square is added up in three pieces (`Compensated.addSquare`): its root is the sum of two halves
  of at most 27 digits (`split`), so the pieces are exact, and what rounding takes from the running
  total is collected beside it.
* The root of the total is corrected once by what is still missing from its square.

A vector whose parts are all below the least normal double is divided by its larger part instead.
-/

namespace LayeredDrawing.Binary64

/-- a double as the sum of two of about half as many digits -/
def split (x : Float) : Float × Float :=
  let t := x * 134217729
  let high := t - (t - x)
  (high, x - high)

/-- a sum of doubles beside the errors of its rounding, in three parts by the size of their terms -/
structure Compensated where
  total : Float
  high : Float
  middle : Float
  low : Float

namespace Compensated

/-- the empty sum; its total starts at one, so that it is always larger than the term added -/
def start : Compensated := ⟨1, 0, 0, 0⟩

/-- adds `s * x * x`, where the sign `s` is one or minus one -/
def addSquare (c : Compensated) (s x : Float) : Compensated :=
  let (h, l) := split x
  let p := s * h * h
  let first := c.total + p
  let q := s * 2 * h * l
  let second := first + q
  ⟨second, c.high + ((c.total - first) + p), c.middle + ((first - second) + q),
    c.low + s * l * l⟩

/-- takes `x * x` away again, the last of its pieces in the running total too -/
def subtractSquare (c : Compensated) (x : Float) : Compensated :=
  let (_, l) := split x
  let d := c.addSquare (-1) x
  let r := -l * l
  let third := d.total + r
  ⟨third, d.high, d.middle, c.low + ((d.total - third) + r)⟩

/-- the sum with its errors -/
def value (c : Compensated) : Float := c.total - 1 + (c.high + c.middle + c.low)

end Compensated

/-- the power of two that brings a number into the range from a half up to one -/
def scaleOf (exponent : Int) : Float := Float.scaleB 1 (-exponent)

/-- the length of a vector whose parts, divided by the scale, are at most one -/
def scaledLength (x y scale : Float) : Float :=
  let sum := (Compensated.start.addSquare 1 (x * scale)).addSquare 1 (y * scale)
  let root := sum.value.sqrt
  let missing := (sum.subtractSquare root).value
  (root + missing / (2 * root)) / scale

/-- the length of a vector of subnormal numbers, of which `larger` is the larger -/
def tinyLength (x y larger : Float) : Float :=
  let p := (x / larger) * (x / larger)
  let first := 1 + p
  let q := (y / larger) * (y / larger)
  let second := first + q
  let rest := ((1 - first) + p) + ((first - second) + q)
  larger * (second - 1 + rest).sqrt

/-- the length of the vector `(x, y)`: infinite if a part is, else NaN if a part is -/
def length (x y : Float) : Float :=
  let x := x.abs
  let y := y.abs
  let larger := if x < y then y else x
  if x.isInf || y.isInf then 1 / 0
  else if x.isNaN || y.isNaN then 0 / 0
  else if larger == 0 then 0
  else
    let exponent := larger.frExp.2
    if exponent < -1023 then tinyLength x y larger else scaledLength x y (scaleOf exponent)

end LayeredDrawing.Binary64
