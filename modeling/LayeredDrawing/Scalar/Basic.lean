/-!
# Scalars

The numbers that positions, spacings and tolerances are made of.  A drawing only adds, subtracts,
multiplies, divides by a count and compares, so it is written once for every `Scalar`:

* `Scalar.Exact`     the rational numbers, where the laws of arithmetic hold;
* `Scalar.Binary64`  the doubles, which a run computes with.

`Metric` adds the three questions about the length of a vector that cleaning a route asks.  They
are questions and not a length, because the rationals have no square roots: there each one is
answered by comparing squares.
-/

namespace LayeredDrawing

/-- numbers with the four operations, an order that a program can test, and the integers -/
class Scalar (α : Type) extends Add α, Sub α, Mul α, Div α, Neg α, LT α, LE α where
  ofInt : Int → α
  /-- an integer of at least this size is beyond the largest number, if there is one -/
  limit? : Option Nat
  /-- the first whole number divided by the second, which is not zero: a fraction, rounded as these
  numbers are -/
  ratio : Nat → Nat → Rat
  decLt : ∀ a b : α, Decidable (a < b)
  decLe : ∀ a b : α, Decidable (a ≤ b)

namespace Scalar

variable {α : Type} [Scalar α]

instance (a b : α) : Decidable (a < b) := Scalar.decLt a b

instance (a b : α) : Decidable (a ≤ b) := Scalar.decLe a b

/-- the integer, unless it is beyond the largest number -/
def ofInt? (n : Int) : Option α :=
  if (limit? α).any fun limit => limit ≤ n.natAbs then none else some (ofInt n)

def ofNat (n : Nat) : α := ofInt n

def zero : α := ofInt 0

def one : α := ofInt 1

/-- the second number if it is smaller, otherwise the first -/
def smaller (a b : α) : α := if b < a then b else a

/-- the second number if it is larger, otherwise the first -/
def larger (a b : α) : α := if a < b then b else a

def abs (a : α) : α := if a < zero then -a else a

/-- the sum from left to right, starting at zero -/
def sum (l : List α) : α := l.foldl (· + ·) zero

/-- the sum of the numbers divided by how many there are, for a list that is not empty -/
def mean? : List α → Option α
  | [] => none
  | l => some (sum l / ofNat l.length)

/-- the first of the least numbers -/
def least? : List α → Option α
  | [] => none
  | a :: l => some (l.foldl smaller a)

theorem sum_nil : sum ([] : List α) = zero := rfl
theorem mean?_nil : mean? ([] : List α) = none := rfl
theorem mean?_cons (a : α) (l : List α) :
    mean? (a :: l) = some (sum (a :: l) / ofNat (l.length + 1)) := rfl
theorem least?_nil : least? ([] : List α) = none := rfl
theorem least?_cons (a : α) (l : List α) : least? (a :: l) = some (l.foldl smaller a) := rfl

end Scalar

/-- a scalar in which lengths of plane vectors can be compared -/
class Metric (α : Type) extends Scalar α where
  /-- the vector `(dx, dy)` is at most `r` long -/
  lengthAtMost : (dx dy r : α) → Bool
  /-- the size of `c` divided by the length of `(dx, dy)` is more than `r`; nothing if that length
  is zero -/
  ratioExceeds? : (c dx dy r : α) → Option Bool
  /-- the number `c` divided by the square of the length of `(dx, dy)`; nothing if that square is
  zero -/
  overSquare? : (c dx dy : α) → Option α

end LayeredDrawing
