import LayeredDrawing.Ordering.Search
import LayeredDrawing.Proofs.Renaming.Basic

/-!
# Ordering under a renaming

The search for an arrangement asks the graph for the nodes at the other ends of the edges at a node,
and whether it has a node.  A graph that answers with the new names, when it is asked by them, gets the
renamed arrangement: no step of the search looks at the names themselves.

* `Mirrors`                   the second graph answers like the first one under the renaming;
* `Mirrors.bestArrangement`   it gets the renamed arrangement.
-/

namespace LayeredDrawing

variable {α : Type} {r : Renaming} {g g' : Graph α}

/-- where successors are renamed, as many edges cross -/
theorem crossings_arrangement (h : ∀ id, g'.successors (r.node id) = (g.successors id).map r.node)
    (lists : Arrangement) : crossings g' (r.arrangement lists) = crossings g lists := by
  have hpositions (lower : List NodeId) (id : NodeId) :
      targetPositions g' (lower.map r.node) (r.node id) = targetPositions g lower id := by
    rw [targetPositions, targetPositions, h, List.filterMap_map]
    exact List.filterMap_congr fun a _ => lastPosition?_map lower a
  have hbetween (upper lower : List NodeId) :
      crossingsBetween g' (upper.map r.node) (lower.map r.node) = crossingsBetween g upper lower := by
    rw [crossingsBetween, crossingsBetween, List.map_map]
    exact congrArg (inversions []) (List.map_congr_left fun id _ => hpositions lower id)
  induction lists with
  | nil => rfl
  | cons upper lists ih =>
    cases lists with
    | nil => rfl
    | cons lower rest =>
      rw [crossings_cons_cons, ← ih, ← hbetween]
      rfl

theorem crossings_congr (h : ∀ id, g.successors id = g'.successors id) (lists : Arrangement) :
    crossings g lists = crossings g' lists := by
  have hrefl : ∀ id, g.successors (Renaming.refl.node id) = (g'.successors id).map Renaming.refl.node :=
    fun id => (h id).trans (List.map_id _).symm
  rw [← crossings_arrangement hrefl lists, Renaming.refl_arrangement]

/-- the second graph has the renamed nodes, dummy or not, and joins them as the first graph does -/
structure Mirrors (r : Renaming) (g g' : Graph α) : Prop where
  nodes : ∀ id, (g'.nodes.get? (r.node id)).map Node.isDummy = (g.nodes.get? id).map Node.isDummy
  neighbours : ∀ side id, g'.neighbours side (r.node id) = (g.neighbours side id).map r.node

/-- a candidate under the new names -/
def Candidate.rename (r : Renaming) (a : Candidate) : Candidate :=
  ⟨r.arrangement a.arrangement, a.crossings⟩

theorem Candidate.rename_better (a b : Candidate) :
    (a.rename r).better (b.rename r) = (a.better b).rename r := by
  show (if b.crossings < a.crossings then b.rename r else a.rename r)
    = (if b.crossings < a.crossings then b else a).rename r
  split <;> rfl

theorem startingArrangement_arrangement (seed : Option Int) (lists : Arrangement) :
    startingArrangement seed (r.arrangement lists) = r.arrangement (startingArrangement seed lists) := by
  cases seed with
  | none => rfl
  | some n => exact congrArg Prod.fst (shuffleAll_map r.node lists _)

section
variable (h : Mirrors r g g')
include h

theorem Mirrors.hasNode (id : NodeId) : g'.hasNode (r.node id) = g.hasNode id := by
  have hsome (g : Graph α) (id : NodeId) :
      g.hasNode id = ((g.nodes.get? id).map Node.isDummy).isSome := by
    rw [Option.isSome_map, Graph.hasNode, Bool.eq_iff_iff, OrderedMap.contains_iff,
      OrderedMap.get?_isSome_iff]
  rw [hsome, hsome, h.nodes]

theorem Mirrors.require (a : NodeId) : Carried id (g.require a) (g'.require (r.node a)) := by
  unfold Graph.require
  rw [h.hasNode]
  split
  · exact carried_ok rfl
  · exact carried_error rfl

theorem Mirrors.requireAll (ids : List NodeId) :
    Carried id (g.requireAll ids) (g'.requireAll (ids.map r.node)) :=
  carried_forM fun a _ => h.require a

theorem Mirrors.crossings (lists : Arrangement) :
    LayeredDrawing.crossings g' (r.arrangement lists) = LayeredDrawing.crossings g lists :=
  crossings_arrangement (fun id => h.neighbours .outgoing id) lists

theorem Mirrors.candidate (lists : Arrangement) :
    candidate g' (r.arrangement lists) = (LayeredDrawing.candidate g lists).rename r := by
  rw [LayeredDrawing.candidate, h.crossings]
  rfl

variable [Scalar α]

theorem Mirrors.sortLayer (m : Heuristic) (side : Side) (fixed layer : List NodeId) :
    sortLayer g' m side (fixed.map r.node) (layer.map r.node)
      = (LayeredDrawing.sortLayer g m side fixed layer).map r.node := by
  have hpositions (id : NodeId) : neighbourPositions g' side (fixed.map r.node) (r.node id)
      = neighbourPositions g side fixed id := by
    rw [neighbourPositions, neighbourPositions, h.neighbours, List.filterMap_map]
    exact List.filterMap_congr fun a _ => lastPosition?_map fixed a
  have hkey (id : NodeId) (i : Nat) :
      sortKey g' m side (fixed.map r.node) (r.node id) i = sortKey g m side fixed id i := by
    rw [sortKey, sortKey, hpositions]
  -- the names are sorted along with keys that are the same
  have hkeyed : ((layer.map r.node).zipIdx.map fun p =>
        (sortKey g' m side (fixed.map r.node) p.1 p.2, p.1))
      = (layer.zipIdx.map fun p => (sortKey g m side fixed p.1 p.2, p.1)).map
          fun q => (q.1, r.node q.2) := by
    rw [List.zipIdx_map, List.map_map, List.map_map]
    exact List.map_congr_left fun p _ => Prod.ext (hkey p.1 p.2) rfl
  rw [LayeredDrawing.sortLayer, LayeredDrawing.sortLayer, hkeyed]
  rw [stableSort_map fun _ _ => rfl, List.map_map, List.map_map]
  rfl

theorem Mirrors.sweep (m : Heuristic) (lists : Arrangement) :
    sweep g' m (r.arrangement lists) = r.arrangement (LayeredDrawing.sweep g m lists) := by
  have hbelow (fixed : List NodeId) (lists : Arrangement) :
      sortBelow g' m (fixed.map r.node) (r.arrangement lists)
        = r.arrangement (sortBelow g m fixed lists) := by
    induction lists generalizing fixed with
    | nil => rfl
    | cons layer lists ih =>
      show LayeredDrawing.sortLayer g' m .incoming (fixed.map r.node) (layer.map r.node) :: _ = _
      rw [h.sortLayer]
      exact congrArg _ (ih _)
  have hdown (lists : Arrangement) :
      sweepDown g' m (r.arrangement lists) = r.arrangement (sweepDown g m lists) := by
    cases lists with
    | nil => rfl
    | cons first rest => exact congrArg _ (hbelow first rest)
  have hup (lists : Arrangement) :
      sweepUp g' m (r.arrangement lists) = r.arrangement (sweepUp g m lists) := by
    induction lists with
    | nil => rfl
    | cons layer rest ih =>
      show sweepUp g' m (layer.map r.node :: r.arrangement rest) = _
      rw [sweepUp, sweepUp, ih]
      cases sweepUp g m rest with
      | nil => rfl
      | cons below more => exact congrArg (· :: _) (h.sortLayer m .outgoing below layer)
  rw [LayeredDrawing.sweep, LayeredDrawing.sweep, hdown, hup]

theorem Mirrors.sweep? (m : Heuristic) (lists : Arrangement) :
    Carried r.arrangement (sweep? g m lists) (LayeredDrawing.sweep? g' m (r.arrangement lists)) := by
  have hvisits : sweepVisits (r.arrangement lists) = (sweepVisits lists).map r.node := by
    match lists with
    | [] => rfl
    | [_] => rfl
    | first :: second :: rest =>
      show (r.arrangement (second :: rest)).flatten ++ first.map r.node
        = ((second :: rest).flatten ++ first).map r.node
      rw [Renaming.flatten_arrangement, List.map_append]
  unfold LayeredDrawing.sweep?
  rw [hvisits]
  exact (h.requireAll _).bind fun _ _ => carried_ok (h.sweep m lists)

theorem Mirrors.improve (m : Heuristic) (passes : Nat) (current : Arrangement) (best : Candidate) :
    Carried (Candidate.rename r) (improve g m passes current best)
      (LayeredDrawing.improve g' m passes (r.arrangement current) (best.rename r)) := by
  induction passes generalizing current best with
  | zero => exact carried_ok rfl
  | succ passes ih =>
    rw [LayeredDrawing.improve, LayeredDrawing.improve]
    by_cases hzero : best.crossings = 0
    · rw [if_pos hzero, if_pos (show (best.rename r).crossings = 0 from hzero)]
      exact carried_ok rfl
    · rw [if_neg hzero, if_neg (show ¬ (best.rename r).crossings = 0 from hzero)]
      refine (h.sweep? m current).bind fun next _ => ?_
      simp only [h.candidate, Candidate.rename_better, Renaming.arrangement_injective.eq_iff]
      split
      · exact carried_ok rfl
      · exact ih next _

theorem Mirrors.bestArrangement {c c' : Config α} (hseed : c'.seed = c.seed)
    (hheuristic : c'.heuristic = c.heuristic) (hpasses : c'.crossingPasses = c.crossingPasses)
    (lists : Arrangement) : Carried r.arrangement (bestArrangement g c lists)
      (LayeredDrawing.bestArrangement g' c' (r.arrangement lists)) := by
  unfold LayeredDrawing.bestArrangement
  rw [Renaming.dropLast_arrangement, Renaming.flatten_arrangement, hseed, hheuristic, hpasses]
  refine (h.requireAll _).bind fun _ _ => ?_
  simp only [startingArrangement_arrangement, h.candidate, Candidate.rename_better]
  exact (h.improve ..).bind fun best _ => carried_ok rfl

end

end LayeredDrawing
