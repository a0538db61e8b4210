import LayeredDrawing.Binary64.Magnitude

/-!
# The shortest decimal of a double

`shortest x` is the decimal with the fewest digits among those that read back as `x`, and of
these the one nearest to `x`; on a tie the last digit is even.

A decimal reads back as `x` when it lies between the midpoints to the two neighbours of `x`; the
midpoints belong to `x` exactly when its mantissa is even (`Magnitude.readsBack`).  All
comparisons are between natural numbers, by multiplying out the powers.  For `n = 1, 2, …, 17`
digits the two multiples of the `n`-th decimal place next to `x` are tried: whenever some decimal
of `n` digits reads back, one of these two does.
-/

namespace LayeredDrawing

open Binary64 (Magnitude)

/-- the number `digits * 10 ^ exponent` -/
structure Decimal where
  digits : Nat
  exponent : Int
deriving DecidableEq, Repr

/-- compares `a * 10 ^ i` with `n * 2 ^ j` -/
def Decimal.compareScaled (a : Nat) (i : Int) (n : Nat) (j : Int) : Ordering :=
  compare ((a * Nat.pow 10 i.toNat) <<< (-j).toNat) ((n <<< j.toNat) * Nat.pow 10 (-i).toNat)

/-- the decimal lies among the numbers that round to `x` -/
def Binary64.Magnitude.readsBack (x : Magnitude) (d : Decimal) : Bool :=
  -- in quarters of the last binary place, so that both midpoints are whole
  let below := if x.least then 4 * x.mantissa - 1 else 4 * x.mantissa - 2
  let above := 4 * x.mantissa + 2
  let closed := x.mantissa % 2 == 0
  let low := Decimal.compareScaled d.digits d.exponent below (x.exponent - 2)
  let high := Decimal.compareScaled d.digits d.exponent above (x.exponent - 2)
  (low == .gt || (closed && low == .eq)) && (high == .lt || (closed && high == .eq))

/-- the least `k` with `x < 10 ^ k`, for `x` not zero -/
def Binary64.Magnitude.decimalPlaces (x : Magnitude) : Int :=
  -- by the binary logarithm `10 ^ low < x < 10 ^ (low + 3)`
  let low := ((x.mantissa.log2 : Int) + x.exponent) * 30103 / 100000 - 1
  let fits (k : Int) := Decimal.compareScaled 1 k x.mantissa x.exponent == .gt
  if fits (low + 1) then low + 1
  else if fits (low + 2) then low + 2
  else low + 3

/-- the multiple of `10 ^ k` that reads back as `x`, if one of the two next to `x` does -/
def Binary64.Magnitude.onGrid? (x : Magnitude) (k : Int) : Option Decimal :=
  let num := (x.mantissa <<< x.exponent.toNat) * Nat.pow 10 (-k).toNat
  let den := Nat.pow 10 k.toNat <<< (-x.exponent).toNat
  let floor := num / den
  let down : Decimal := ⟨floor, k⟩
  let up : Decimal := ⟨floor + 1, k⟩
  match x.readsBack down, x.readsBack up with
  | false, false => none
  | true, false => some down
  | false, true => some up
  | true, true =>
    match compare (2 * num) ((2 * floor + 1) * den) with
    | .lt => some down
    | .gt => some up
    | .eq => some (if floor % 2 = 0 then down else up)

/-- moves trailing zeros of the digits into the exponent -/
def Decimal.normalize (d : Decimal) : Decimal :=
  go 20 d
where
  go : Nat → Decimal → Decimal
    | 0, d => d
    | n + 1, d => if d.digits % 10 = 0 then go n ⟨d.digits / 10, d.exponent + 1⟩ else d

/-- the exact value, with as many digits as it takes -/
def Binary64.Magnitude.exact (x : Magnitude) : Decimal :=
  ⟨(x.mantissa <<< x.exponent.toNat) * Nat.pow 5 (-x.exponent).toNat, min 0 x.exponent⟩

/-- the shortest decimal that reads back as `x`, for `x` not zero -/
def Binary64.Magnitude.shortest (x : Magnitude) : Decimal :=
  let places := x.decimalPlaces
  let found := (List.range 17).findSome? fun n => x.onGrid? (places - (n + 1 : Nat))
  (found.getD x.exact).normalize

end LayeredDrawing
