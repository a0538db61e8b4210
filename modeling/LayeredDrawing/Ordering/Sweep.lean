import LayeredDrawing.Config
import LayeredDrawing.Ordering.Crossings
import LayeredDrawing.StableSort

/-!
# Sweeps

A sweep reorders the layers one after the other, first downwards by the positions of predecessors
and then upwards by the positions of successors.  A layer is sorted by `sortKey`: the mean or the
median of the positions that the neighbours of a node have in the layer just fixed, and for a node
without such neighbours its own position.  Nodes with equal keys keep their order.

Means and medians are fractions, rounded as the scalars of the graph are: over the rationals they are
exact, over the doubles two of them may be equal that differ by little.
-/

namespace LayeredDrawing

/-- the neighbours looked at: those at the other ends of the edges into a node, or from it -/
inductive Side where
  | incoming
  | outgoing
deriving DecidableEq, Repr

def Graph.neighbours {α : Type} (g : Graph α) : Side → NodeId → List NodeId
  | .incoming, id => g.predecessors id
  | .outgoing, id => g.successors id

section
variable (α : Type) [Scalar α]

/-- the mean of the positions, for a list that is not empty -/
def barycenter (l : List Nat) : Rat := Scalar.ratio α (l.foldr (· + ·) 0) l.length

/-- the middle one of the positions, or the mean of the middle two; for a list that is not empty -/
def median (l : List Nat) : Rat :=
  let sorted := stableSort (fun a b => decide (a < b)) l
  let mid := l.length / 2
  if l.length % 2 = 1 then ((sorted.getD mid 0 : Nat) : Rat)
  else Scalar.ratio α (sorted.getD (mid - 1) 0 + sorted.getD mid 0) 2

def Heuristic.average : Heuristic → List Nat → Rat
  | .barycenter => LayeredDrawing.barycenter α
  | .median => LayeredDrawing.median α

end

section
variable {α : Type} (g : Graph α)

/-- the positions of the neighbours of a node in the fixed layer, once for each edge -/
def neighbourPositions (side : Side) (fixed : List NodeId) (id : NodeId) : List Nat :=
  (g.neighbours side id).filterMap (lastPosition? fixed)

variable [Scalar α] (h : Heuristic)

/-- what a node at position `i` is sorted by -/
def sortKey (side : Side) (fixed : List NodeId) (id : NodeId) (i : Nat) : Rat :=
  match neighbourPositions g side fixed id with
  | [] => (i : Rat)
  | l => h.average α l

/-- the layer sorted by its neighbours in the fixed layer -/
def sortLayer (side : Side) (fixed layer : List NodeId) : List NodeId :=
  let keyed := layer.zipIdx.map fun p => (sortKey g h side fixed p.1 p.2, p.1)
  (stableSort (fun a b => decide (a.1 < b.1)) keyed).map Prod.snd

/-- reorders layers downwards, the first of them against `fixed` -/
def sortBelow (fixed : List NodeId) : Arrangement → Arrangement
  | [] => []
  | layer :: rest =>
    let new := sortLayer g h .incoming fixed layer
    new :: sortBelow new rest

def sweepDown : Arrangement → Arrangement
  | [] => []
  | first :: rest => first :: sortBelow g h first rest

def sweepUp : Arrangement → Arrangement
  | [] => []
  | layer :: rest =>
    match sweepUp rest with
    | [] => [layer]
    | below :: more => sortLayer g h .outgoing below layer :: below :: more

/-- one pass down and up -/
def sweep (layers : Arrangement) : Arrangement := sweepUp g h (sweepDown g h layers)

end

/-- the nodes that a sweep asks the graph about, in the order in which it first does -/
def sweepVisits : Arrangement → List NodeId
  | first :: second :: rest => (second :: rest).flatten ++ first
  | _ => []

/-- one pass down and up; refused if it comes to a node that the graph does not have -/
def sweep? {α : Type} [Scalar α] (g : Graph α) (h : Heuristic) (layers : Arrangement) :
    Except Fault Arrangement := do
  g.requireAll (sweepVisits layers)
  return sweep g h layers

section
variable {α : Type} [Scalar α] (g : Graph α) (h : Heuristic)

theorem sortLayer_perm (side : Side) (fixed layer : List NodeId) :
    (sortLayer g h side fixed layer).Perm layer := by
  unfold sortLayer
  refine ((stableSort_perm _ _).map Prod.snd).trans ?_
  have e : (layer.zipIdx.map fun p => (sortKey g h side fixed p.1 p.2, p.1)).map Prod.snd
      = layer := by
    rw [List.map_map]
    exact (List.map_congr_left fun _ _ => rfl).trans (List.zipIdx_map_fst 0 layer)
  rw [e]

theorem length_sortBelow (fixed : List NodeId) (layers : Arrangement) :
    (sortBelow g h fixed layers).length = layers.length := by
  induction layers generalizing fixed with
  | nil => rfl
  | cons layer rest ih => simp [sortBelow, ih]

theorem length_sweepUp (layers : Arrangement) :
    (sweepUp g h layers).length = layers.length := by
  induction layers with
  | nil => rfl
  | cons layer rest ih =>
    unfold sweepUp
    split
    · rename_i e
      rw [e] at ih
      simp [← ih]
    · rename_i below more e
      rw [e] at ih
      simpa using ih

theorem length_sweep (layers : Arrangement) : (sweep g h layers).length = layers.length := by
  unfold sweep
  rw [length_sweepUp]
  cases layers with
  | nil => rfl
  | cons first rest => simp [sweepDown, length_sortBelow]

end

end LayeredDrawing
