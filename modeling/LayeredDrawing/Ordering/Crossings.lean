import LayeredDrawing.Arrangement
import LayeredDrawing.Graph.Basic
import LayeredDrawing.RunSort.Boundary
import LayeredDrawing.StableSort

/-!
# Crossings

Two edges between the same two neighbouring layers cross if their sources stand in one order and
their targets in the other.

* `crossingsBetween`   the crossings between two layers: for every edge, how many edges from earlier
                     nodes end strictly further along;
* `crossings`   the crossings between all neighbouring layers.

The positions where earlier edges end are kept sorted, so that those further along are found by
halving.  The edges from one node are all counted before any of them is entered.

`crossings?` refuses a list whose upper layers hold a node that the graph does not have.
-/

namespace LayeredDrawing

/-- the slot in a sorted list of numbers behind all that are at most `t` -/
def slotBehind (seen : List Nat) (t : Nat) : Nat :=
  RunSort.bisect (fun i => decide (seen.getD i 0 ≤ t)) 0 seen.length

/-- puts a number into a sorted list -/
def enter (seen : List Nat) (t : Nat) : List Nat := seen.insertIdx (slotBehind seen t) t

/-- for each `ts` in turn, how many of the numbers seen before are larger than each of its own -/
def inversions : (seen : List Nat) → List (List Nat) → Nat
  | _, [] => 0
  | seen, ts :: rest =>
    let sorted := stableSort (fun a b => decide (a < b)) ts
    (sorted.map fun t => seen.length - slotBehind seen t).foldr (· + ·) 0
      + inversions (sorted.foldl enter seen) rest

theorem inversions_nil (seen : List Nat) : inversions seen [] = 0 := rfl

section
variable {α : Type}

/-- where the edges from a node end in a layer -/
def targetPositions (g : Graph α) (lower : List NodeId) (id : NodeId) : List Nat :=
  (g.successors id).filterMap (lastPosition? lower)

/-- the crossings between two layers -/
def crossingsBetween (g : Graph α) (upper lower : List NodeId) : Nat :=
  inversions [] (upper.map (targetPositions g lower))

/-- the crossings between neighbouring layers -/
def crossings (g : Graph α) : Arrangement → Nat
  | [] => 0
  | [_] => 0
  | upper :: lower :: rest => crossingsBetween g upper lower + crossings g (lower :: rest)

def crossingsBetween? (g : Graph α) (upper lower : List NodeId) : Except Fault Nat := do
  g.requireAll upper
  return crossingsBetween g upper lower

def crossings? (g : Graph α) (layers : Arrangement) : Except Fault Nat := do
  g.requireAll layers.dropLast.flatten
  return crossings g layers

theorem crossings_cons_cons (g : Graph α) (upper lower : List NodeId)
    (rest : Arrangement) : crossings g (upper :: lower :: rest)
      = crossingsBetween g upper lower + crossings g (lower :: rest) := rfl

end

end LayeredDrawing
