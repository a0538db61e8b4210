import LayeredDrawing.Scalar.Basic

/-!
# Rational scalars

The rational numbers as a `Metric`.  No quotient is rounded.  With `s = dx² + dy²` the three
questions about the length `√s` become

* `√s ≤ r`          `0 ≤ r` and `s ≤ r²`;
* `|c| / √s > r`    `r < 0` or `r² · s < c²`, for `s ≠ 0`;
* `c / (√s)²`       `c / s`, for `s ≠ 0`.
-/

namespace LayeredDrawing.Scalar

instance : Scalar Rat where
  ofInt n := (n : Rat)
  limit? := none
  ratio n d := n / d
  decLt a b := inferInstanceAs (Decidable (a < b))
  decLe a b := inferInstanceAs (Decidable (a ≤ b))

/-- the square of the length of a vector -/
def square (dx dy : Rat) : Rat := dx * dx + dy * dy

instance : Metric Rat where
  lengthAtMost dx dy r := decide (0 ≤ r ∧ square dx dy ≤ r * r)
  ratioExceeds? c dx dy r :=
    if square dx dy = 0 then none else some (decide (r < 0 ∨ r * r * square dx dy < c * c))
  overSquare? c dx dy := if square dx dy = 0 then none else some (c / square dx dy)

theorem ofInt_rat (n : Int) : (ofInt n : Rat) = (n : Rat) := rfl
theorem ofInt?_rat (n : Int) : (ofInt? n : Option Rat) = some (n : Rat) := rfl
theorem ofNat_rat (n : Nat) : (ofNat n : Rat) = ((n : Int) : Rat) := rfl
theorem ratio_rat (n d : Nat) : ratio Rat n d = (n : Rat) / (d : Rat) := rfl
theorem zero_rat : (zero : Rat) = 0 := rfl
theorem one_rat : (one : Rat) = 1 := rfl

end LayeredDrawing.Scalar
