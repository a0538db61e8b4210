import LayeredDrawing.Ordering.Search
import LayeredDrawing.Proofs.Arrangement.Filed

/-!
# What the search for an arrangement keeps

Every arrangement that the search tries is the incoming one with each layer reordered, so the search
loses no node and moves none to another layer; the one found has no more crossings than the incoming
one.  The search is refused for no reason but a node that the graph does not have.

* `reordered_sweep`, `reordered_shuffleAll`   one sweep, and one shuffle of all layers;
* `bestArrangement_ok`, `bestArrangement_le`  the arrangement found;
* `bestArrangement_of_mem`                    one is found if the graph has all nodes listed.
-/

namespace LayeredDrawing

theorem reordered_shuffleAll (lists : Arrangement) (t : Twister) :
    Reordered (shuffleAll lists t).1 lists := by
  induction lists generalizing t with
  | nil => exact .nil
  | cons l lists ih => exact .cons (shuffle_perm l t) (ih _)

theorem reordered_startingArrangement (seed : Option Int) (lists : Arrangement) :
    Reordered (startingArrangement seed lists) lists := by
  cases seed with
  | none => exact .refl lists
  | some n => exact reordered_shuffleAll lists _

section
variable {α : Type} [Scalar α] (g : Graph α) (h : Heuristic)

theorem reordered_sortBelow (fixed : List NodeId) (lists : Arrangement) :
    Reordered (sortBelow g h fixed lists) lists := by
  induction lists generalizing fixed with
  | nil => exact .nil
  | cons l lists ih => exact .cons (sortLayer_perm g h .incoming fixed l) (ih _)

theorem reordered_sweepDown (lists : Arrangement) : Reordered (sweepDown g h lists) lists := by
  cases lists with
  | nil => exact .nil
  | cons l lists => exact .cons (List.Perm.refl l) (reordered_sortBelow g h l lists)

theorem reordered_sweepUp (lists : Arrangement) : Reordered (sweepUp g h lists) lists := by
  induction lists with
  | nil => exact .nil
  | cons l lists ih =>
    rw [sweepUp]
    split
    · rename_i hup
      rw [hup] at ih
      exact .cons (List.Perm.refl l) ih
    · rename_i below more hup
      rw [hup] at ih
      exact .cons (sortLayer_perm g h .outgoing below l) ih

theorem reordered_sweep (lists : Arrangement) : Reordered (sweep g h lists) lists :=
  (reordered_sweepUp g h _).trans (reordered_sweepDown g h lists)

theorem mem_sweepVisits {lists : Arrangement} {id : NodeId} (hid : id ∈ sweepVisits lists) :
    id ∈ lists.flatten := by
  match lists with
  | [] => cases hid
  | [_] => cases hid
  | first :: second :: rest =>
    rw [List.flatten_cons]
    exact List.mem_append.2 (List.mem_append.1 hid).symm

end

/-- a graph with all nodes listed has those of any reordering -/
theorem Reordered.mem_nodeIds {α : Type} {g : Graph α} {new lists : Arrangement} (h : Reordered new lists)
    (hmem : ∀ id ∈ lists.flatten, id ∈ g.nodeIds) : ∀ id ∈ new.flatten, id ∈ g.nodeIds :=
  fun id hid => hmem id (h.perm_flatten.mem_iff.1 hid)

section
variable {α : Type} [Scalar α] {g : Graph α} {h : Heuristic}

theorem sweep?_ok {lists next : Arrangement} (hok : sweep? g h lists = .ok next) :
    Reordered next lists := by
  unfold sweep? at hok
  cases hr : g.requireAll (sweepVisits lists) with
  | error fault => rw [hr] at hok; cases hok
  | ok u =>
    rw [hr] at hok
    cases hok
    exact reordered_sweep g h lists

theorem sweep?_of_mem {lists : Arrangement} (hmem : ∀ id ∈ lists.flatten, id ∈ g.nodeIds) :
    sweep? g h lists = .ok (sweep g h lists) := by
  have hr : g.requireAll (sweepVisits lists) = .ok () :=
    Graph.requireAll_eq_ok_iff.2 fun id hid => Graph.hasNode_iff.2 (hmem id (mem_sweepVisits hid))
  rw [sweep?, hr]
  rfl

theorem Candidate.better_cases (a b : Candidate) : a.better b = a ∨ a.better b = b := by
  unfold better
  split
  · exact .inr rfl
  · exact .inl rfl

/-- the best of two candidates is as good a reordering as they are -/
theorem Candidate.reordered_better {lists : Arrangement} {a b : Candidate}
    (ha : Reordered a.arrangement lists) (hb : Reordered b.arrangement lists) :
    Reordered (a.better b).arrangement lists := by
  rcases better_cases a b with heq | heq
  · rw [heq]
    exact ha
  · rw [heq]
    exact hb

/-- what holds of the best candidate and of the better of it and a new one holds of the result -/
theorem improve_ok {Q : Candidate → Prop} {lists : Arrangement} {passes : Nat}
    {current : Arrangement} {best result : Candidate} (hcurrent : Reordered current lists)
    (hbest : Q best)
    (hbetter : ∀ a next, Q a → Reordered next lists → Q (a.better (candidate g next)))
    (hok : improve g h passes current best = .ok result) : Q result := by
  induction passes generalizing current best with
  | zero => cases hok; exact hbest
  | succ passes ih =>
    rw [improve] at hok
    split at hok
    · cases hok
      exact hbest
    · cases hs : sweep? g h current with
      | error fault => rw [hs] at hok; cases hok
      | ok next =>
        have hnext : Reordered next lists := (sweep?_ok hs).trans hcurrent
        have hq := hbetter best next hbest hnext
        rw [hs] at hok
        simp only [bind, Except.bind] at hok
        split at hok
        · cases hok
          exact hq
        · exact ih hnext hq hok

theorem improve_of_mem {passes : Nat} {current : Arrangement}
    (hmem : ∀ id ∈ current.flatten, id ∈ g.nodeIds) (best : Candidate) :
    ∃ result, improve g h passes current best = .ok result := by
  induction passes generalizing current best with
  | zero => exact ⟨best, rfl⟩
  | succ passes ih =>
    rw [improve]
    split
    · exact ⟨best, rfl⟩
    · rw [sweep?_of_mem hmem]
      simp only [bind, Except.bind]
      split
      · exact ⟨_, rfl⟩
      · exact ih ((reordered_sweep g h current).mem_nodeIds hmem) _

end

section
variable {α : Type} {g : Graph α} {lists : Arrangement}

/-- a graph with all nodes listed has those of the layers before the last -/
theorem requireAll_dropLast (h : ∀ id ∈ lists.flatten, id ∈ g.nodeIds) :
    g.requireAll lists.dropLast.flatten = .ok () := by
  refine Graph.requireAll_eq_ok_iff.2 fun id hid => Graph.hasNode_iff.2 (h id ?_)
  obtain ⟨l, hl, hid⟩ := List.mem_flatten.1 hid
  exact List.mem_flatten.2 ⟨l, List.dropLast_subset _ hl, hid⟩

theorem crossings?_of_mem (h : ∀ id ∈ lists.flatten, id ∈ g.nodeIds) :
    crossings? g lists = .ok (crossings g lists) := by
  unfold crossings?
  rw [requireAll_dropLast h]
  rfl

end

section
variable {α : Type} [Scalar α] {g : Graph α} {c : Config α} {lists : Arrangement}

/-- the arrangement found is that of some candidate -/
theorem exists_best {Q : Candidate → Prop} (hincoming : Q (candidate g lists))
    (hbetter : ∀ a next, Q a → Reordered next lists → Q (a.better (candidate g next)))
    {result : Arrangement} (hok : bestArrangement g c lists = .ok result) :
    ∃ best, Q best ∧ best.arrangement = result := by
  unfold bestArrangement at hok
  cases hr : g.requireAll lists.dropLast.flatten with
  | error fault => rw [hr] at hok; cases hok
  | ok u =>
    rw [hr] at hok
    have hstart := reordered_startingArrangement c.seed lists
    cases hi : improve g c.heuristic c.crossingPasses (startingArrangement c.seed lists)
        ((candidate g lists).better (candidate g (startingArrangement c.seed lists))) with
    | error fault => simp [bind, Except.bind, hi] at hok
    | ok best =>
      simp only [bind, Except.bind, hi, pure, Except.pure, Except.ok.injEq] at hok
      exact ⟨best, improve_ok hstart (hbetter _ _ hincoming hstart) hbetter hi, hok⟩

theorem bestArrangement_ok {result : Arrangement} (hok : bestArrangement g c lists = .ok result) :
    Reordered result lists := by
  obtain ⟨best, hbest, rfl⟩ := exists_best (Q := fun a => Reordered a.arrangement lists)
    (.refl lists) (fun a next ha hnext => Candidate.reordered_better (b := candidate g next) ha hnext)
    hok
  exact hbest

/-- the arrangement found has no more crossings than the incoming one -/
theorem bestArrangement_le {result : Arrangement} (hok : bestArrangement g c lists = .ok result) :
    crossings g result ≤ crossings g lists := by
  -- candidates know the number of their crossings
  have hbetter (a : Candidate) (next : Arrangement)
      (ha : a.crossings = crossings g a.arrangement ∧ a.crossings ≤ crossings g lists) :
      (a.better (candidate g next)).crossings = crossings g (a.better (candidate g next)).arrangement ∧
        (a.better (candidate g next)).crossings ≤ crossings g lists := by
    refine ⟨?_, Nat.le_trans (Candidate.crossings_better_le_left a _) ha.2⟩
    rcases Candidate.better_cases a (candidate g next) with heq | heq
    · rw [heq]
      exact ha.1
    · rw [heq]
      rfl
  obtain ⟨best, ⟨hcounted, hle⟩, rfl⟩ := exists_best
    (Q := fun a => a.crossings = crossings g a.arrangement ∧ a.crossings ≤ crossings g lists)
    ⟨rfl, Nat.le_refl _⟩ (fun a next ha _ => hbetter a next ha) hok
  rw [← hcounted]
  exact hle

theorem bestArrangement_of_mem (hmem : ∀ id ∈ lists.flatten, id ∈ g.nodeIds) :
    ∃ result, bestArrangement g c lists = .ok result := by
  have hr := requireAll_dropLast hmem
  have hstart := (reordered_startingArrangement c.seed lists).mem_nodeIds hmem
  have himprove : ∃ best, improve g c.heuristic c.crossingPasses (startingArrangement c.seed lists)
      ((candidate g lists).better (candidate g (startingArrangement c.seed lists))) = .ok best :=
    improve_of_mem hstart _
  obtain ⟨best, hbest⟩ := himprove
  refine ⟨best.arrangement, ?_⟩
  simp only [bestArrangement, bind, Except.bind, hr, hbest, pure, Except.pure]

end

end LayeredDrawing
