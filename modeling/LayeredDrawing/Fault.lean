import LayeredDrawing.Edge
import LayeredDrawing.Stage

/-!
# Faults

Why an operation was refused, by cause.  `Fault.message` words every cause once.

The faults of a layout itself are `cyclic` (the graph cannot be layered) and the violated
invariants `stageMismatch`, `spanBelowOne`, `spanNotOne`, `swapped`; all others say that something
asked for is not there, or is there already.
-/

namespace LayeredDrawing

inductive Fault where
  /-- the graph was asked about a node it does not have -/
  | unknownNode (id : NodeId)
  /-- a table has no entry for the node -/
  | noEntry (id : NodeId)
  /-- no edge is registered under the key -/
  | noEdge (key : Int)
  | nodeExists (id : NodeId)
  /-- the null identifier names no node -/
  | nullNode
  /-- no edge is registered under the key of this one -/
  | edgeAbsent (e : Edge)
  /-- an edge is registered under the key of this one -/
  | edgePresent (e : Edge)
  /-- no edge joins the two nodes -/
  | notAdjacent (source target : NodeId)
  /-- edges join the two nodes, but none with this key -/
  | notParallel (source target : NodeId) (key : Int)
  /-- the node does not stand in the list of its layer -/
  | notListed (id : NodeId)
  /-- a position beyond the end of a list -/
  | outOfRange
  /-- a position that no list can have, because it takes more than 64 binary digits -/
  | positionTooLarge
  /-- an integer beyond the largest number that coordinates can be -/
  | numberTooLarge
  | divisionByZero
  /-- the edges of a directed cycle, by source and target -/
  | cyclic (cycle : List (NodeId × NodeId))
  | stageMismatch (expected actual : Stage)
  | noStage (name : String)
  /-- after layering an edge does not lead to a higher layer -/
  | spanBelowOne (e : Edge) (span : Int)
  /-- after expansion an edge does not lead to the next layer -/
  | spanNotOne (e : Edge) (span : Int)
  /-- placement turned two neighbours of a layer round -/
  | swapped (upper lower : NodeId) (layer : Nat)
deriving DecidableEq

namespace Fault

/-- the nodes along a cycle and back to its first, as a path in words -/
def pathText (cycle : List (NodeId × NodeId)) : String :=
  let sources := cycle.map fun e => e.1
  " -> ".intercalate ((sources ++ sources.take 1).map NodeId.quoted)

def message : Fault → String
  | unknownNode id => "unknown node " ++ id.quoted
  | noEntry id => id.plain
  | noEdge key => toString key
  | nodeExists id => "node " ++ id.quoted ++ " already exists"
  | nullNode => "None cannot be a node"
  | edgeAbsent e => "edge " ++ e.text ++ " is not in the graph"
  | edgePresent e => "edge " ++ e.text ++ " is already in the graph"
  | notAdjacent s t => "The edge " ++ s.plain ++ "-" ++ t.plain ++ " is not in the graph."
  | notParallel s t key =>
    "The edge " ++ s.plain ++ "-" ++ t.plain ++ " with key " ++ toString key
      ++ " is not in the graph."
  | notListed id => id.quoted ++ " is not in list"
  | outOfRange => "list index out of range"
  | positionTooLarge => "cannot fit 'int' into an index-sized integer"
  | numberTooLarge => "int too large to convert to float"
  | divisionByZero => "float division by zero"
  | cyclic cycle => "graph contains a cycle: " ++ pathText cycle
  | stageMismatch expected actual =>
    "expected stage " ++ expected.name ++ ", layout is at " ++ actual.name
  | noStage name => name
  | spanBelowOne e span => e.text ++ " spans " ++ toString span ++ " layers after layering"
  | spanNotOne e span => e.text ++ " spans " ++ toString span ++ " layers after expansion"
  | swapped upper lower layer =>
    "nodes " ++ upper.quoted ++ " and " ++ lower.quoted ++ " swapped order in layer "
      ++ toString layer

end Fault

end LayeredDrawing
