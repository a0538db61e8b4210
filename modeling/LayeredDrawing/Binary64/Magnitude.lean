/-!
# The magnitude of a double

A finite double without its sign is `mantissa * 2 ^ exponent` with a whole mantissa below `2 ^ 53`
and an exponent of at least `-1074`.  `Magnitude.ofFloat` reads the two numbers off the bits.
-/

namespace LayeredDrawing.Binary64

structure Magnitude where
  mantissa : Nat
  exponent : Int
  /-- the mantissa is the least one of its exponent, so the next double below is half as far away
  as the next one above -/
  least : Bool
deriving DecidableEq, Repr

/-- the magnitude of a finite double; NaN and the infinities have none and are not asked for -/
def Magnitude.ofFloat (x : Float) : Magnitude :=
  let bits := x.toBits.toNat
  let field : Nat := (bits >>> 52) % 2048
  let fraction := bits % (1 <<< 52)
  if field = 0 then ⟨fraction, -1074, false⟩
  else ⟨(1 <<< 52) + fraction, (field : Int) - 1075, fraction == 0 && decide (1 < field)⟩

end LayeredDrawing.Binary64
