import LayeredDrawing.NodeId.Text

/-!
# Edges

An edge is known by its key and goes from a source to a target.  Its bends are the only part that
changes; they are kept apart, under the `slot` of the edge, so that every holder of the edge sees
the same bends.  Edges that stand in for a part of a longer edge are dummies.
-/

namespace LayeredDrawing

structure Edge where
  slot : Nat
  key : Int
  source : NodeId
  target : NodeId
  isDummy : Bool
deriving DecidableEq

namespace Edge

/-- the two edges have the same source and the same target -/
def parallel (a b : Edge) : Bool := decide (a.source = b.source ∧ a.target = b.target)

/-- the two edges have the same ends and the same key -/
def sameArc (a b : Edge) : Bool := a.parallel b && decide (a.key = b.key)

/-- the edge as messages name it -/
def text (e : Edge) : String :=
  "Edge(" ++ toString e.key ++ ": " ++ e.source.quoted ++ " -> " ++ e.target.quoted ++ ")"

end Edge

end LayeredDrawing
