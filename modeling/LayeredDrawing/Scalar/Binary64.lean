import LayeredDrawing.Binary64.Length
import LayeredDrawing.Binary64.Ratio
import LayeredDrawing.Scalar.Basic

/-!
# Double scalars

The doubles as a `Metric`.  Every operation rounds, so nothing is reordered: lengths are doubles
too, as `Binary64.length` gives them, before they enter the quotients.
-/

namespace LayeredDrawing.Scalar

open LayeredDrawing.Binary64 (length)

/-- the least integer that rounds to infinity: half a step above the largest double -/
def leastInfinite : Nat := ((1 <<< 54) - 1) <<< 970

instance : Scalar Float where
  ofInt n := Float.ofInt n
  limit? := some leastInfinite
  ratio := Binary64.ratio
  decLt a b := Float.decLt a b
  decLe a b := Float.decLe a b

/-- the quotient, unless the divisor is zero -/
def quotient? (a b : Float) : Option Float := if b == 0 then none else some (a / b)

instance : Metric Float where
  lengthAtMost dx dy r := decide (length dx dy ≤ r)
  ratioExceeds? c dx dy r := (quotient? (abs c) (length dx dy)).map fun q => decide (r < q)
  overSquare? c dx dy := quotient? c (length dx dy * length dx dy)

end LayeredDrawing.Scalar
