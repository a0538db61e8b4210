import LayeredDrawing.Proofs.Arrangement.Precedence
import LayeredDrawing.Proofs.Graph.Coherent
import LayeredDrawing.Proofs.Ordering.PairCount

/-!
# Crossings as pairs of edges

Two edges from one list of nodes to another cross if their sources stand in one order and their
targets in the other.  What the counting loop counts between two lists without repetitions are the
pairs of edges of the graph that cross.

* `crossBetween`                the edges cross between the lists;
* `crossingsBetween_of_order`   the pairs counted, for any test that agrees with the positions;
* `crossingsBetween_eq_pairs`   the pairs that cross.
-/

namespace LayeredDrawing

variable {α : Type}

/-- the edges lead from the upper list to the lower one, and change sides on the way -/
def crossBetween (upper lower : List NodeId) (d e : Edge) : Bool :=
  decide (Precedes upper d.source e.source ∧ Precedes lower e.target d.target ∨
    Precedes upper e.source d.source ∧ Precedes lower d.target e.target)

section
variable {upper lower : List NodeId} {d e : Edge}

theorem crossBetween_iff : crossBetween upper lower d e = true ↔
    Precedes upper d.source e.source ∧ Precedes lower e.target d.target ∨
      Precedes upper e.source d.source ∧ Precedes lower d.target e.target := decide_eq_true_iff

theorem crossBetween_comm (upper lower : List NodeId) (d e : Edge) :
    crossBetween upper lower d e = crossBetween upper lower e d := by
  rw [Bool.eq_iff_iff, crossBetween_iff, crossBetween_iff]
  exact Or.comm

/-- edges that cross lead from the one list to the other -/
theorem mem_of_crossBetween (h : crossBetween upper lower d e = true) :
    (d.source ∈ upper ∧ e.source ∈ upper) ∧ d.target ∈ lower ∧ e.target ∈ lower := by
  rcases crossBetween_iff.1 h with ⟨hs, ht⟩ | ⟨hs, ht⟩
  · exact ⟨⟨hs.mem_left, hs.mem_right⟩, ht.mem_right, ht.mem_left⟩
  · exact ⟨⟨hs.mem_right, hs.mem_left⟩, ht.mem_left, ht.mem_right⟩

/-- edges that cross do not start together, nor end together -/
theorem ne_of_crossBetween (hu : upper.Nodup) (hl : lower.Nodup)
    (h : crossBetween upper lower d e = true) : d.source ≠ e.source ∧ d.target ≠ e.target := by
  rcases crossBetween_iff.1 h with ⟨hs, ht⟩ | ⟨hs, ht⟩
  · exact ⟨hs.ne hu, (ht.ne hl).symm⟩
  · exact ⟨(hs.ne hu).symm, ht.ne hl⟩

end

/-! ## where edges end -/

/-- where an edge ends in the list -/
def endPosition (layer : List NodeId) (e : Edge) : Nat := (lastPosition? layer e.target).getD 0

theorem getElem?_endPosition {layer : List NodeId} {e : Edge} (h : e.target ∈ layer) :
    layer[endPosition layer e]? = some e.target := by
  unfold endPosition
  cases hp : lastPosition? layer e.target with
  | none => exact absurd h (lastPosition?_eq_none_iff.1 hp)
  | some i => exact getElem?_lastPosition? hp

/-- edges whose sources stand in order cross if the later one ends first -/
theorem crossBetween_of_precedes {upper lower : List NodeId} (hu : upper.Nodup) (hl : lower.Nodup)
    {d e : Edge} (hs : Precedes upper d.source e.source) (hd : d.target ∈ lower) (he : e.target ∈ lower) :
    crossBetween upper lower d e = decide (endPosition lower e < endPosition lower d) := by
  rw [crossBetween, decide_eq_decide,
    ← precedes_iff_lt hl (getElem?_endPosition he) (getElem?_endPosition hd)]
  constructor
  · rintro (⟨_, h⟩ | ⟨h, _⟩)
    · exact h
    · exact absurd h (hs.asymm hu)
  · intro h
    exact .inl ⟨hs, h⟩

/-- the edges from a node that end in the list -/
def Graph.outEdgesInto (g : Graph α) (layer : List NodeId) (id : NodeId) : List Edge :=
  (g.outEdges id).filter fun e => e.target ∈ layer

section
variable {g : Graph α} {upper lower : List NodeId} {id : NodeId} {e : Edge}

theorem Graph.source_of_mem_outEdges (h : e ∈ g.outEdges id) : e.source = id := by
  simpa using (List.mem_filter.1 h).2

theorem Graph.mem_outEdgesInto :
    e ∈ g.outEdgesInto lower id ↔ e ∈ g.outEdges id ∧ e.target ∈ lower := by
  rw [outEdgesInto, List.mem_filter, decide_eq_true_iff]

theorem targetPositions_eq (g : Graph α) (lower : List NodeId) (id : NodeId) :
    targetPositions g lower id = (g.outEdgesInto lower id).map (endPosition lower) := by
  unfold targetPositions Graph.successors Graph.outEdgesInto
  rw [List.filterMap_map, ← List.filterMap_eq_map, ← List.filterMap_eq_filter, List.filterMap_filterMap]
  refine List.filterMap_congr fun e _ => ?_
  show lastPosition? lower e.target = _
  cases hp : lastPosition? lower e.target with
  | none =>
    rw [Option.guard, if_neg (by simpa using lastPosition?_eq_none_iff.1 hp)]
    rfl
  | some i =>
    have hmem : e.target ∈ lower := List.mem_of_getElem? (getElem?_lastPosition? hp)
    rw [Option.guard, if_pos (by simpa using hmem)]
    show some i = some ((lastPosition? lower e.target).getD 0)
    rw [hp]
    rfl

/-- edges from one node are not related, and edges from two nodes are if the later one ends first -/
theorem crossingsBetween_of_order {r : Edge → Edge → Bool}
    (hsame : ∀ a ∈ upper, ∀ d ∈ g.outEdgesInto lower a, ∀ e ∈ g.outEdgesInto lower a, r d e = false)
    (hlater : upper.Pairwise fun a b => ∀ d ∈ g.outEdgesInto lower a, ∀ e ∈ g.outEdgesInto lower b,
      r d e = decide (endPosition lower e < endPosition lower d)) :
    crossingsBetween g upper lower = pairCount r (upper.flatMap (g.outEdgesInto lower)) := by
  have hmap : upper.map (targetPositions g lower)
      = upper.map fun id => (g.outEdgesInto lower id).map (endPosition lower) :=
    List.map_congr_left fun id _ => targetPositions_eq g lower id
  rw [crossingsBetween, hmap, inversions_eq_pairCount hsame hlater List.Pairwise.nil, across_nil_right,
    Nat.zero_add]

theorem flatMap_filter {β γ : Type} (p : β → Bool) (f : β → List γ) (l : List β) :
    (l.filter p).flatMap f = l.flatMap fun x => if p x then f x else [] := by
  induction l with
  | nil => rfl
  | cons x l ih =>
    rw [List.filter_cons, List.flatMap_cons, ← ih]
    split <;> rfl

/-- the edges between the lists, listed by source -/
theorem Graph.perm_outEdgesInto (g : Graph α) (hu : upper.Nodup) (hmem : ∀ id ∈ upper, id ∈ g.nodeIds)
    (lower : List NodeId) : (upper.flatMap (g.outEdgesInto lower)).Perm
      (g.edges.filter fun e => decide (e.source ∈ upper ∧ e.target ∈ lower)) := by
  have hperm : upper.Perm (g.nodeIds.filter fun id => id ∈ upper) :=
    (List.perm_ext_iff_of_nodup hu (g.nodup_nodeIds.filter _)).2 fun id => by
      rw [List.mem_filter, decide_eq_true_iff]
      exact ⟨fun h => ⟨hmem id h, h⟩, And.right⟩
  have hfilter (id : NodeId) :
      (g.outEdges id).filter (fun e => decide (e.source ∈ upper ∧ e.target ∈ lower))
        = if id ∈ upper then g.outEdgesInto lower id else [] := by
    split
    · rename_i hid
      refine List.filter_congr fun e he => ?_
      rw [source_of_mem_outEdges he, decide_eq_decide]
      exact and_iff_right hid
    · rename_i hid
      refine List.filter_eq_nil_iff.2 fun e he => ?_
      rw [source_of_mem_outEdges he, decide_eq_true_iff]
      exact fun h => hid h.1
  have hedges : g.edges.filter (fun e => decide (e.source ∈ upper ∧ e.target ∈ lower))
      = (g.nodeIds.filter fun id => id ∈ upper).flatMap (g.outEdgesInto lower) := by
    rw [edges, List.filter_flatMap, flatMap_filter]
    simp only [hfilter, decide_eq_true_eq]
  rw [hedges]
  exact hperm.flatMap_right _

end

/-- between two lists without repetitions, the pairs of edges that cross are counted; edges that share a
source or a target are none -/
theorem crossingsBetween_eq_pairs (g : Graph α) {upper lower : List NodeId} (hu : upper.Nodup)
    (hl : lower.Nodup) (hmem : ∀ id ∈ upper, id ∈ g.nodeIds) :
    crossingsBetween? g upper lower = .ok (pairCount (crossBetween upper lower) g.edges) ∧
      ∀ d e, crossBetween upper lower d e = true →
        (d.source ∈ upper ∧ e.source ∈ upper ∧ d.target ∈ lower ∧ e.target ∈ lower) ∧
        d.source ≠ e.source ∧ d.target ≠ e.target ∧
        (upper.Disjoint lower → d.source ≠ e.target ∧ d.target ≠ e.source) := by
  have hsame : ∀ a ∈ upper, ∀ d ∈ g.outEdgesInto lower a, ∀ e ∈ g.outEdgesInto lower a,
      crossBetween upper lower d e = false := by
    intro a _ d hd e he
    have hd := Graph.source_of_mem_outEdges (Graph.mem_outEdgesInto.1 hd).1
    have he := Graph.source_of_mem_outEdges (Graph.mem_outEdgesInto.1 he).1
    rw [← Bool.not_eq_true]
    intro h
    exact (ne_of_crossBetween hu hl h).1 (hd.trans he.symm)
  have hlater : upper.Pairwise fun a b => ∀ d ∈ g.outEdgesInto lower a, ∀ e ∈ g.outEdgesInto lower b,
      crossBetween upper lower d e = decide (endPosition lower e < endPosition lower d) := by
    refine (pairwise_precedes upper).imp fun {a b} hab d hd e he => ?_
    obtain ⟨hd, hdl⟩ := Graph.mem_outEdgesInto.1 hd
    obtain ⟨he, hel⟩ := Graph.mem_outEdgesInto.1 he
    rw [← Graph.source_of_mem_outEdges hd, ← Graph.source_of_mem_outEdges he] at hab
    exact crossBetween_of_precedes hu hl hab hdl hel
  have hpairs : pairCount (crossBetween upper lower) g.edges
      = pairCount (crossBetween upper lower) (upper.flatMap (g.outEdgesInto lower)) := by
    rw [pairCount_perm (crossBetween_comm upper lower) (g.perm_outEdgesInto hu hmem lower)]
    refine (pairCount_filter fun d e h => ?_).symm
    obtain ⟨⟨hds, hes⟩, hdt, het⟩ := mem_of_crossBetween h
    exact ⟨decide_eq_true ⟨hds, hdt⟩, decide_eq_true ⟨hes, het⟩⟩
  constructor
  · have hr : g.requireAll upper = .ok () :=
      Graph.requireAll_eq_ok_iff.2 fun id hid => Graph.hasNode_iff.2 (hmem id hid)
    rw [hpairs, ← crossingsBetween_of_order hsame hlater, crossingsBetween?, hr]
    rfl
  · intro d e h
    obtain ⟨⟨hds, hes⟩, hdt, het⟩ := mem_of_crossBetween h
    obtain ⟨hs, ht⟩ := ne_of_crossBetween hu hl h
    refine ⟨⟨hds, hes, hdt, het⟩, hs, ht, fun hdisjoint => ⟨fun heq => ?_, fun heq => ?_⟩⟩
    · exact hdisjoint hds (heq ▸ het)
    · exact hdisjoint hes (heq ▸ hdt)

/-- two parallel edges, an edge that crosses both, and one that ends where they do -/
def crossedTwice : Graph Rat where
  nodes := .ofList ((List.range 4).map fun i => (.int i, ⟨"", none, 0, 0, 0, false⟩))
  arcs := [⟨0, 0, .int 0, .int 3, false⟩, ⟨1, 1, .int 0, .int 3, false⟩, ⟨2, 2, .int 1, .int 2, false⟩,
    ⟨3, 3, .int 1, .int 3, false⟩]
  index := .ofList [(0, ⟨0, 0, .int 0, .int 3, false⟩), (1, ⟨1, 1, .int 0, .int 3, false⟩),
    (2, ⟨2, 2, .int 1, .int 2, false⟩), (3, ⟨3, 3, .int 1, .int 3, false⟩)]
  nextKey := 4

theorem crossingsBetween_crossedTwice :
    ([.int 0, .int 1] : List NodeId).Nodup ∧ ([.int 2, .int 3] : List NodeId).Nodup ∧
    (∀ id ∈ ([.int 0, .int 1] : List NodeId), id ∈ crossedTwice.nodeIds) ∧
      crossingsBetween? crossedTwice [.int 0, .int 1] [.int 2, .int 3] = .ok 2 := by
  have hmem : ∀ id ∈ ([.int 0, .int 1] : List NodeId), id ∈ crossedTwice.nodeIds := by decide
  have hpairs : pairCount (crossBetween [.int 0, .int 1] [.int 2, .int 3]) crossedTwice.edges = 2 := by
    decide
  refine ⟨by decide, by decide, hmem, ?_⟩
  rw [← hpairs]
  exact (crossingsBetween_eq_pairs crossedTwice (by decide) (by decide) hmem).1

end LayeredDrawing
