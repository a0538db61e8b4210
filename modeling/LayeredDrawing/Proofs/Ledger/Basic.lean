import LayeredDrawing.Blueprint
import LayeredDrawing.Scalar.Exact
import Mathlib.Algebra.GroupWithZero.Nat

/-!
# Ledgers

A ledger is the plainest thing that a caller can take a graph for: the nodes in the order in which
they came, and one edge under each key.  It has no list of arcs, so nothing in it says what leaves a
node or what comes in.

* `nodes`, `edges`, `nextKey`  as the caller knows them;
* `records`                   every edge that was ever made, with its bends now; an edge has its
                              place in this list for a slot, and may be in the graph or not.

`Call` lists the operations of a graph.  `Call.act` is what the graph does, `Ledger.act` what the
ledger says should be done: a refused call has no ledger afterwards, so it changes nothing.
-/

namespace LayeredDrawing

/-- an edge as its holders see it -/
structure Record (α : Type) where
  edge : Edge
  bends : List (Point α)
deriving DecidableEq

inductive Call (α : Type) where
  | addNode (id : NodeId) (label : String) (size : Option (α × α))
  | createDummyNode (id : NodeId) (layer : Int) (x y : α)
  | removeNode (id : NodeId)
  | setCoordinates (id : NodeId) (x y : α)
  | addEdge (source target : NodeId) (isDummy : Bool)
  /-- makes an edge outside the graph, with any key and any ends -/
  | makeEdge (key : Int) (source target : NodeId) (isDummy : Bool) (bends : List (Point α))
  | removeEdge (e : Edge)
  | reinsert (e : Edge)
  | addBend (e : Edge) (p : Point α)
  | cleanBends (tol : α)

inductive Answer (α : Type) where
  | done
  | node (id : NodeId) (n : Node α)
  | edge (e : Edge)
  /-- so many bends were redundant -/
  | removed (n : Nat)
deriving DecidableEq

namespace Call

variable {α : Type} [Metric α]

/-- what the graph does -/
def act : Call α → Action α (Answer α)
  | addNode id label size => do
    Action.edit fun g => g.addNode id (.unplaced label size)
    return .node id (.unplaced label size)
  | createDummyNode id layer x y => do
    Action.edit fun g => g.addNode id (.dummy layer x y)
    return .node id (.dummy layer x y)
  | removeNode id => do
    Action.edit fun g => g.removeNode id
    return .done
  | setCoordinates id x y => do
    Action.edit fun g => g.setPosition id x y
    return .done
  | addEdge source target isDummy => do
    return .edge (← Action.addEdge source target isDummy)
  | makeEdge key source target isDummy bends => do
    let slot := (← get).bends.fresh
    modify fun w => { w with bends := w.bends.push bends }
    return .edge ⟨slot, key, source, target, isDummy⟩
  | removeEdge e => do
    Action.edit fun g => g.detach e
    return .done
  | reinsert e => do
    return .edge (← Action.reattach e)
  | addBend e p => do
    Action.addBend e p
    return .done
  | cleanBends tol => do
    return .removed (← Action.cleanRoutes tol)

/-- the answers to the calls in turn, and the workspace afterwards -/
def performAll : List (Call α) → Workspace α → List (Except Fault (Answer α)) × Workspace α
  | [], w => ([], w)
  | c :: rest, w =>
    let (r, w) := c.act.perform w
    let (rs, w) := performAll rest w
    (r :: rs, w)

end Call

structure Ledger (α : Type) where
  nodes : OrderedMap NodeId (Node α)
  edges : OrderedMap Int Edge
  nextKey : Int
  records : List (Record α)

namespace Ledger

variable {α : Type}

def empty : Ledger α := ⟨∅, ∅, 0, []⟩

/-- the edges that were ever made -/
def made (l : Ledger α) : List Edge := l.records.map Record.edge

/-- the edge is the one registered under its key -/
def registered (l : Ledger α) (e : Edge) : Bool := decide (l.edges.get? e.key = some e)

def require (l : Ledger α) (id : NodeId) : Except Fault Unit :=
  if l.nodes.contains id then .ok () else .error (.unknownNode id)

/-! ## nodes -/

def addNode (l : Ledger α) (id : NodeId) (n : Node α) : Except Fault (Answer α × Ledger α) :=
  if l.nodes.contains id then .error (.nodeExists id)
  else if id = .null then .error .nullNode
  else .ok (.node id n, { l with nodes := l.nodes.insert id n })

/-- the node goes, and every edge that touches it -/
def removeNode (l : Ledger α) (id : NodeId) : Except Fault (Answer α × Ledger α) := do
  l.require id
  return (.done, { l with
    nodes := l.nodes.erase id
    edges := l.edges.filter fun key =>
      (l.edges.get? key).all fun e => decide (e.source ≠ id) && decide (e.target ≠ id) })

def setCoordinates (l : Ledger α) (id : NodeId) (x y : α) : Except Fault (Answer α × Ledger α) :=
  if l.nodes.contains id then
    .ok (.done, { l with nodes := l.nodes.modify id fun n => { n with x, y } })
  else .error (.noEntry id)

/-! ## edges -/

def makeEdge (l : Ledger α) (key : Int) (source target : NodeId) (isDummy : Bool)
    (bends : List (Point α)) : Except Fault (Answer α × Ledger α) :=
  let e : Edge := ⟨l.records.length, key, source, target, isDummy⟩
  .ok (.edge e, { l with records := l.records ++ [⟨e, bends⟩] })

def addEdge (l : Ledger α) (source target : NodeId) (isDummy : Bool) :
    Except Fault (Answer α × Ledger α) := do
  l.require source
  l.require target
  let e : Edge := ⟨l.records.length, l.nextKey, source, target, isDummy⟩
  return (.edge e, { l with
    edges := l.edges.insert l.nextKey e
    nextKey := l.nextKey + 1
    records := l.records ++ [⟨e, []⟩] })

/-- the edge under the key goes, if it has the ends that the caller says -/
def removeEdge (l : Ledger α) (e : Edge) : Except Fault (Answer α × Ledger α) :=
  match l.edges.get? e.key with
  | none => .error (.edgeAbsent e)
  | some r =>
    if r.parallel e then .ok (.done, { l with edges := l.edges.erase e.key })
    else if l.edges.values.any fun a => a.parallel e then
      .error (.notParallel e.source e.target e.key)
    else .error (.notAdjacent e.source e.target)

/-- changes the bends of an edge, wherever it is -/
def bend (l : Ledger α) (e : Edge) (f : List (Point α) → List (Point α)) : List (Record α) :=
  l.records.modify e.slot fun r => { r with bends := f r.bends }

def reinsert (l : Ledger α) (e : Edge) : Except Fault (Answer α × Ledger α) := do
  if l.edges.contains e.key then throw (.edgePresent e)
  l.require e.source
  l.require e.target
  return (.edge e, { l with
    edges := l.edges.insert e.key e
    records := l.bend e fun _ => [] })

def addBend (l : Ledger α) (e : Edge) (p : Point α) : Except Fault (Answer α × Ledger α) :=
  .ok (.done, { l with records := l.bend e fun bends => bends ++ [p] })

/-! ## cleaning -/

section
variable [Metric α]

/-- the bends that a record needs, for one whose edge is in the graph; a route that cannot be cleaned
stays as it is -/
def cleaned (l : Ledger α) (tol : α) (r : Record α) : List (Point α) :=
  match l.nodes.get? r.edge.source, l.nodes.get? r.edge.target with
  | some start, some finish =>
    (Route.clean tol start.position r.bends finish.position).toOption.getD r.bends
  | _, _ => r.bends

def clean (l : Ledger α) (tol : α) (r : Record α) : Record α :=
  if l.registered r.edge then { r with bends := l.cleaned tol r } else r

/-- every record at once -/
def cleanBends (l : Ledger α) (tol : α) : Except Fault (Answer α × Ledger α) :=
  .ok (.removed (l.records.map fun r => r.bends.length - (l.clean tol r).bends.length).sum,
    { l with records := l.records.map (l.clean tol) })

/-! ## calls -/

def act (l : Ledger α) : Call α → Except Fault (Answer α × Ledger α)
  | .addNode id label size => l.addNode id (.unplaced label size)
  | .createDummyNode id layer x y => l.addNode id (.dummy layer x y)
  | .removeNode id => l.removeNode id
  | .setCoordinates id x y => l.setCoordinates id x y
  | .addEdge source target isDummy => l.addEdge source target isDummy
  | .makeEdge key source target isDummy bends => l.makeEdge key source target isDummy bends
  | .removeEdge e => l.removeEdge e
  | .reinsert e => l.reinsert e
  | .addBend e p => l.addBend e p
  | .cleanBends tol => l.cleanBends tol

/-- the ledger after a call; a refused one changes nothing -/
def after (l : Ledger α) (c : Call α) : Ledger α :=
  match l.act c with
  | .ok (_, l') => l'
  | .error _ => l

/-- the answers to the calls in turn, and the ledger afterwards -/
def actAll (l : Ledger α) : List (Call α) → List (Except Fault (Answer α)) × Ledger α
  | [] => ([], l)
  | c :: rest =>
    let (rs, l') := (l.after c).actAll rest
    ((l.act c).map Prod.fst :: rs, l')

end

/-- what a caller may do: put back an edge that was made, as long as its key was given out, and bend
one that was made; no tolerance is negative -/
def Allowed (l : Ledger Rat) : Call Rat → Prop
  | .reinsert e => e ∈ l.made ∧ e.key < l.nextKey
  | .addBend e _ => e ∈ l.made
  | .cleanBends tol => 0 ≤ tol
  | _ => True

/-- every call is one that the caller may make when its turn comes -/
def AllAllowed (l : Ledger Rat) : List (Call Rat) → Prop
  | [] => True
  | c :: rest => l.Allowed c ∧ (l.after c).AllAllowed rest

end Ledger

end LayeredDrawing
