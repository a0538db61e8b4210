import LayeredDrawing.Ordering.Sweep
import LayeredDrawing.Placement.Row

/-!
# Heights

`heights` computes where each node stands along its layer.  The layers start out evenly spaced;
then they are placed one after the other, downwards against their predecessors and upwards against
their successors, as many times as configured.  A node wants to stand at the mean height of its
neighbours on that side, and its priority is how many it has; dummy nodes have the highest priority,
so that long edges stay straight.  In the end the topmost node stands at zero.
-/

namespace LayeredDrawing

variable {α : Type} [Scalar α]

open Scalar

abbrev Heights (α : Type) := OrderedMap NodeId α

/-- every layer evenly spaced from zero on -/
def evenHeights (spacing : α) (layers : Arrangement) : Heights α :=
  layers.foldl (fun hs layer =>
    layer.zipIdx.foldl (fun hs p => hs.insert p.1 (ofNat p.2 * spacing)) hs) ∅

/-- the height that a node wants, and its priority -/
def wish (g : Graph α) (hs : Heights α) (side : Side) (id : NodeId) :
    Except Fault (Option α × Priority α) := do
  g.require id
  let neighbours := g.neighbours side id
  let wanted ← neighbours.mapM hs.entry
  let n ← g.node id
  return (mean? wanted, if n.isDummy then .top else .value (ofNat neighbours.length))

/-- places one layer against its neighbours on one side -/
def alignLayer (g : Graph α) (spacing : α) (side : Side) (hs : Heights α)
    (layer : List NodeId) : Except Fault (Heights α) := do
  let old ← layer.mapM hs.entry
  let wishes ← layer.mapM (wish g hs side)
  let new ← placeRow spacing old (wishes.map Prod.fst) (wishes.map Prod.snd)
  return (layer.zip new).foldl (fun hs p => hs.insert p.1 p.2) hs

/-- places all layers, down and up, once -/
def alignPass (g : Graph α) (spacing : α) (layers : Arrangement) (hs : Heights α) :
    Except Fault (Heights α) := do
  let hs ← (layers.drop 1).foldlM (alignLayer g spacing .incoming) hs
  layers.dropLast.reverse.foldlM (alignLayer g spacing .outgoing) hs

def alignPasses (g : Graph α) (spacing : α) (layers : Arrangement) :
    (passes : Nat) → Heights α → Except Fault (Heights α)
  | 0, hs => .ok hs
  | passes + 1, hs => do alignPasses g spacing layers passes (← alignPass g spacing layers hs)

/-- the heights shifted so that the least is zero -/
def fromZero (hs : Heights α) : Heights α :=
  match least? hs.values with
  | none => hs
  | some y => hs.mapValues fun _ z => z - y

/-- the height of every node listed -/
def heights (g : Graph α) (c : Config α) (layers : Arrangement) :
    Except Fault (Heights α) := do
  return fromZero
    (← alignPasses g c.nodeSpacing layers c.coordinatePasses (evenHeights c.nodeSpacing layers))

/-- refuses heights that do not grow along the layer with number `i` -/
def requireAscending (hs : Heights α) (i : Nat) : List NodeId → Except Fault Unit
  | upper :: lower :: rest => do
    let y ← hs.entry upper
    let z ← hs.entry lower
    if ¬ y < z then throw (.swapped upper lower i)
    requireAscending hs i (lower :: rest)
  | _ => .ok ()

/-- refuses heights that do not grow along every layer -/
def requireOrdered (hs : Heights α) (layers : Arrangement) : Except Fault Unit :=
  layers.zipIdx.forM fun p => requireAscending hs p.2 p.1

end LayeredDrawing
