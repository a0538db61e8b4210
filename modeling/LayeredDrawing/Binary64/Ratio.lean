/-!
# Quotients of whole numbers as doubles

`ratio n d` is the double nearest to `n / d`, as a fraction; of two that are equally near it is the one
with the even last digit.  Doubles have 53 binary digits.  Their exponents are bounded too, but counts of
nodes and edges never come near those bounds, so here they are not.

All steps are on natural numbers, by multiplying out the powers of two.
-/

namespace LayeredDrawing.Binary64

/-- the whole number nearest to `n / d`; of two the even one -/
def roundEven (n d : Nat) : Nat :=
  let rest := 2 * (n % d)
  if rest < d then n / d
  else if d < rest then n / d + 1
  else n / d + n / d % 2

/-- the exponent of the first binary digit of `n / d`, for two numbers that are not zero -/
def firstPlace (n d : Nat) : Int :=
  let place : Int := (n.log2 : Int) - d.log2
  if n <<< (-place).toNat < d <<< place.toNat then place - 1 else place

/-- the double nearest to `n / d`, for `d` not zero -/
def ratio (n d : Nat) : Rat :=
  let last := firstPlace n d - 52
  let mantissa := roundEven (n <<< (-last).toNat) (d <<< last.toNat)
  ((mantissa <<< last.toNat : Nat) : Rat) / ((1 <<< (-last).toNat : Nat) : Rat)

end LayeredDrawing.Binary64
