import LayeredDrawing.Decimal.Shortest

/-!
# How numbers are written

A double is written with the fewest digits that identify it.  It is written out in full if its
leading digit stands between the fourth decimal place and the sixteenth place before the point,
and always with a digit on either side of the point; beyond, one digit stands before the point and
a signed exponent of at least two digits follows.
-/

namespace LayeredDrawing.Decimal

def zeros (n : Nat) : String := String.ofList (List.replicate n '0')

/-- the exponent with its sign, in at least two digits -/
def exponentText (e : Int) : String :=
  let digits := toString e.natAbs
  (if e < 0 then "-" else "+") ++ zeros (2 - digits.length) ++ digits

/-- a decimal written out in full, or with an exponent -/
def text (d : Decimal) : String :=
  let digits := toString d.digits
  let count := digits.length
  -- the exponent of the leading digit
  let lead := d.exponent + count - 1
  if lead < -4 ∨ 16 ≤ lead then
    let rest := String.ofList (digits.toList.drop 1)
    String.ofList (digits.toList.take 1) ++ (if count = 1 then "" else "." ++ rest) ++ "e"
      ++ exponentText lead
  else if lead < 0 then
    "0." ++ zeros (-lead - 1).toNat ++ digits
  else if 0 ≤ d.exponent then
    digits ++ zeros d.exponent.toNat ++ ".0"
  else
    let whole := (lead + 1).toNat
    String.ofList (digits.toList.take whole) ++ "." ++ String.ofList (digits.toList.drop whole)

/-- a double as text; the sign of zero is kept -/
def ofFloat (x : Float) : String :=
  if x.isNaN then "nan"
  else
    let sign := if x.toBits.toNat >>> 63 = 1 then "-" else ""
    if x.isInf then sign ++ "inf"
    else
      let m := Binary64.Magnitude.ofFloat x
      sign ++ if m.mantissa = 0 then "0.0" else m.shortest.text

end LayeredDrawing.Decimal
