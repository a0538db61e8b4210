import LayeredDrawing.Proofs.Ordering.CrossingPairs
import LayeredDrawing.Proofs.Ordering.Reordered
import LayeredDrawing.Scalar.Exact
import Mathlib.Data.List.Iterate

/-!
# The first of the best arrangements

The search stops early, when nothing crosses any more or when a sweep changes nothing.  Without the
early stops it would try all `candidates`; what it finds is still the first of those with the fewest
crossings.

* `FirstLeast f l a`          `a` is the first element of `l` with the least value;
* `candidates`                the arrangements tried by a search that does not stop early;
* `improve_eq`                the early stops do not change the best candidate;
* `bestArrangement_eq`        the search is a selection from all candidates;
* `bestArrangement_firstLeast`   what it selects, and that more sweeps make it no worse.
-/

namespace LayeredDrawing

/-! ## the first of the least -/

section
variable {β : Type} {f : β → Nat} {l : List β} {a b : β}

/-- all elements before `a` have a larger value, and none behind it has a smaller one -/
def FirstLeast (f : β → Nat) (l : List β) (a : β) : Prop :=
  ∃ front back, l = front ++ a :: back ∧ (∀ b ∈ front, f a < f b) ∧ ∀ b ∈ back, f a ≤ f b

theorem firstLeast_singleton (f : β → Nat) (a : β) : FirstLeast f [a] a :=
  ⟨[], [], rfl, List.forall_mem_nil _, List.forall_mem_nil _⟩

theorem FirstLeast.le (h : FirstLeast f l a) (hb : b ∈ l) : f a ≤ f b := by
  obtain ⟨front, back, rfl, hfront, hback⟩ := h
  rcases List.mem_append.1 hb with hb | hb
  · exact Nat.le_of_lt (hfront b hb)
  · rcases List.mem_cons.1 hb with rfl | hb
    · exact Nat.le_refl _
    · exact hback b hb

/-- if no value is smaller than that of the first element, it is the first of the least -/
theorem FirstLeast.eq_head (h : FirstLeast f (b :: l) a) (hb : f b ≤ f a) : a = b := by
  obtain ⟨front, back, hl, hfront, _⟩ := h
  cases front with
  | nil => exact (List.cons.inj hl).1.symm
  | cons c front =>
    obtain ⟨rfl, _⟩ := List.cons.inj hl
    have hlt := hfront b List.mem_cons_self
    omega

theorem FirstLeast.concat (h : FirstLeast f l a) (b : β) :
    FirstLeast f (l ++ [b]) (if f b < f a then b else a) := by
  split
  · rename_i hlt
    refine ⟨l, [], rfl, fun c hc => Nat.lt_of_lt_of_le hlt (h.le hc), List.forall_mem_nil _⟩
  · rename_i hlt
    obtain ⟨front, back, rfl, hfront, hback⟩ := h
    refine ⟨front, back ++ [b], by simp only [List.append_assoc, List.cons_append], hfront,
      fun c hc => ?_⟩
    rcases List.mem_append.1 hc with hc | hc
    · exact hback c hc
    · rw [List.mem_singleton.1 hc]
      omega

end

/-! ## the best of several candidates -/

section
variable {α : Type} {g : Graph α}

/-- the best candidate stays if none has fewer crossings -/
theorem foldl_better_of_le {best : Candidate} {l : List Candidate}
    (h : ∀ b ∈ l, best.crossings ≤ b.crossings) : l.foldl Candidate.better best = best := by
  induction l with
  | nil => rfl
  | cons b l ih =>
    have hb : best.better b = best := if_neg (Nat.not_lt.2 (h b List.mem_cons_self))
    rw [List.foldl_cons, hb]
    exact ih fun c hc => h c (List.mem_cons_of_mem b hc)

theorem better_candidate (a b : Arrangement) : (candidate g a).better (candidate g b)
    = candidate g (if crossings g b < crossings g a then b else a) := by
  rw [apply_ite (candidate g)]
  rfl

/-- one candidate after the other, behind those of which `a` is the first of the best -/
theorem firstLeast_foldl {tried : List Arrangement} {a : Arrangement}
    (h : FirstLeast (crossings g) tried a) (l : List Arrangement) :
    ∃ b, FirstLeast (crossings g) (tried ++ l) b ∧
      (l.map (candidate g)).foldl Candidate.better (candidate g a) = candidate g b := by
  induction l generalizing tried a with
  | nil => exact ⟨a, by rwa [List.append_nil], rfl⟩
  | cons b l ih =>
    obtain ⟨c, hc, hfold⟩ := ih (h.concat b)
    refine ⟨c, by rwa [List.append_assoc] at hc, ?_⟩
    rw [List.map_cons, List.foldl_cons, better_candidate, hfold]

end

/-! ## the search -/

section
variable {α : Type} [Scalar α] (g : Graph α) (c : Config α) (lists : Arrangement)

/-- the arrangements after `n` sweeps and fewer, from the first sweep on -/
def sweeps (h : Heuristic) (current : Arrangement) (n : Nat) : List Arrangement :=
  List.iterate (sweep g h) (sweep g h current) n

/-- the incoming arrangement, the shuffled one if there is a seed, and then those that come from
all sweeps one after the other -/
def candidates : List Arrangement :=
  lists :: (c.seed.toList.map fun n => (shuffleAll lists (.ofSeed n)).1)
    ++ sweeps g c.heuristic (startingArrangement c.seed lists) c.crossingPasses

end

section
variable {α : Type} [Scalar α] {g : Graph α} {h : Heuristic} {current lists : Arrangement}

theorem reordered_of_mem_sweeps {n : Nat} {a : Arrangement} (ha : a ∈ sweeps g h current n) :
    Reordered a current := by
  unfold sweeps at ha
  induction n generalizing current with
  | zero => cases ha
  | succ n ih =>
    rcases List.mem_cons.1 ha with rfl | ha
    · exact reordered_sweep g h current
    · exact (ih ha).trans (reordered_sweep g h current)

/-- a sweep that changes nothing is followed by others of the kind -/
theorem eq_of_mem_sweeps {n : Nat} {a : Arrangement} (hfixed : sweep g h current = current)
    (ha : a ∈ sweeps g h current n) : a = current := by
  unfold sweeps at ha
  rw [hfixed, List.mem_iterate] at ha
  obtain ⟨i, _, rfl⟩ := ha
  exact Function.iterate_fixed hfixed i

theorem improve_eq (hmem : ∀ id ∈ current.flatten, id ∈ g.nodeIds) (passes : Nat) (best : Candidate) :
    improve g h passes current best
      = .ok (((sweeps g h current passes).map (candidate g)).foldl Candidate.better best) := by
  induction passes generalizing current best with
  | zero => rfl
  | succ passes ih =>
    rw [improve]
    split
    · -- nothing has fewer crossings than none
      rename_i hzero
      rw [foldl_better_of_le]
      intro b _
      omega
    · rw [sweep?_of_mem hmem]
      simp only [bind, Except.bind]
      have hcons : sweeps g h current (passes + 1)
          = sweep g h current :: sweeps g h (sweep g h current) passes := rfl
      rw [hcons, List.map_cons, List.foldl_cons]
      split
      · -- all that would follow are the arrangement just tried
        rename_i hfixed
        rw [hfixed, foldl_better_of_le]
        · rfl
        · intro b hb
          obtain ⟨a, ha, rfl⟩ := List.mem_map.1 hb
          rw [eq_of_mem_sweeps hfixed ha]
          exact Candidate.crossings_better_le_right ..
      · exact ih ((reordered_sweep g h current).mem_nodeIds hmem) _

end

section
variable {α : Type} [Scalar α] {g : Graph α} {c : Config α} {lists : Arrangement}

theorem reordered_of_mem_candidates {a : Arrangement} (ha : a ∈ candidates g c lists) :
    Reordered a lists := by
  rcases List.mem_append.1 ha with ha | ha
  · rcases List.mem_cons.1 ha with rfl | ha
    · exact .refl a
    · obtain ⟨n, _, rfl⟩ := List.mem_map.1 ha
      exact reordered_shuffleAll lists _
  · exact (reordered_of_mem_sweeps ha).trans (reordered_startingArrangement c.seed lists)

theorem bestArrangement_eq (hmem : ∀ id ∈ lists.flatten, id ∈ g.nodeIds) :
    ∃ result, bestArrangement g c lists = .ok result ∧
      FirstLeast (crossings g) (candidates g c lists) result := by
  have hstart := (reordered_startingArrangement c.seed lists).mem_nodeIds hmem
  have himprove := improve_eq (h := c.heuristic) hstart c.crossingPasses
    ((candidate g lists).better (candidate g (startingArrangement c.seed lists)))
  have hbest : bestArrangement g c lists = .ok (((sweeps g c.heuristic
      (startingArrangement c.seed lists) c.crossingPasses).map (candidate g)).foldl Candidate.better
        ((candidate g lists).better (candidate g (startingArrangement c.seed lists)))).arrangement := by
    simp only [bestArrangement, bind, Except.bind, requireAll_dropLast hmem, himprove, pure, Except.pure]
  have htried : ∃ a, FirstLeast (crossings g)
      (lists :: (c.seed.toList.map fun n => (shuffleAll lists (.ofSeed n)).1)) a ∧
        (candidate g lists).better (candidate g (startingArrangement c.seed lists)) = candidate g a := by
    cases c.seed with
    | none =>
      refine ⟨lists, firstLeast_singleton _ _, ?_⟩
      show (candidate g lists).better (candidate g lists) = _
      rw [better_candidate, if_neg (Nat.lt_irrefl _)]
    | some n => exact ⟨_, (firstLeast_singleton _ lists).concat _, better_candidate _ _⟩
  obtain ⟨a, ha, hbetter⟩ := htried
  obtain ⟨result, hresult, hfold⟩ := firstLeast_foldl ha
    (sweeps g c.heuristic (startingArrangement c.seed lists) c.crossingPasses)
  refine ⟨result, ?_, hresult⟩
  rw [hbest, hbetter, hfold]
  rfl

/-- with more sweeps, all candidates stay in their places -/
theorem candidates_of_le {passes : Nat} (h : c.crossingPasses ≤ passes) :
    candidates g c lists <+: candidates g { c with crossingPasses := passes } lists := by
  refine (List.prefix_append_right_inj _).2 ?_
  show sweeps g c.heuristic (startingArrangement c.seed lists) c.crossingPasses
    <+: sweeps g c.heuristic (startingArrangement c.seed lists) passes
  obtain ⟨more, rfl⟩ := Nat.exists_eq_add_of_le h
  unfold sweeps
  rw [List.iterate_add]
  exact List.prefix_append _ _

/-- all candidates are the incoming arrangement with each layer reordered, and the first of those with
the fewest crossings is found.  So it has no more crossings than the incoming one, which is left alone
if it has none, and with more sweeps there are no more crossings. -/
theorem bestArrangement_firstLeast (hmem : ∀ id ∈ lists.flatten, id ∈ g.nodeIds) :
    (∀ a ∈ candidates g c lists, Reordered a lists ∧ crossings? g a = .ok (crossings g a) ∧
      sweep? g c.heuristic a = .ok (sweep g c.heuristic a)) ∧
    ∃ result, bestArrangement g c lists = .ok result ∧
      FirstLeast (crossings g) (candidates g c lists) result ∧
      crossings g result ≤ crossings g lists ∧ (crossings g lists = 0 → result = lists) ∧
      ∀ passes, c.crossingPasses ≤ passes → ∃ more,
        bestArrangement g { c with crossingPasses := passes } lists = .ok more ∧
        crossings g more ≤ crossings g result := by
  obtain ⟨result, hresult, hleast⟩ := bestArrangement_eq (c := c) hmem
  have hincoming : crossings g result ≤ crossings g lists := hleast.le List.mem_cons_self
  refine ⟨fun a ha => ?_, result, hresult, hleast, hincoming, fun hzero => ?_, fun passes hle => ?_⟩
  · have hreordered := reordered_of_mem_candidates ha
    have hall := hreordered.mem_nodeIds hmem
    exact ⟨hreordered, crossings?_of_mem hall, sweep?_of_mem hall⟩
  · exact FirstLeast.eq_head hleast (by omega)
  · obtain ⟨more, hmore, hleast'⟩ := bestArrangement_eq (c := { c with crossingPasses := passes }) hmem
    obtain ⟨front, back, hcandidates, _⟩ := hleast
    have hin : result ∈ candidates g c lists := by
      rw [hcandidates]
      exact List.mem_append_right _ List.mem_cons_self
    exact ⟨more, hmore, hleast'.le ((candidates_of_le hle).subset hin)⟩

end

/-- a shuffle and three sweeps -/
def shuffledConfig : Config Rat where
  seed := some 7
  heuristic := .barycenter
  crossingPasses := 3
  coordinatePasses := 1
  nodeSpacing := 1
  layerSpacing := 1
  cleanBends := false
  tolerance := 1
  nodeSpacing_pos := by decide
  layerSpacing_pos := by decide
  tolerance_nonneg := by decide

theorem bestArrangement_crossedTwice :
    (∀ id ∈ ([[.int 0, .int 1], [.int 2, .int 3]] : Arrangement).flatten, id ∈ crossedTwice.nodeIds) ∧
    ∃ result, bestArrangement crossedTwice shuffledConfig [[.int 0, .int 1], [.int 2, .int 3]]
        = .ok result ∧
      FirstLeast (crossings crossedTwice)
        (candidates crossedTwice shuffledConfig [[.int 0, .int 1], [.int 2, .int 3]]) result ∧
      crossings crossedTwice result ≤ 2 := by
  have hmem : ∀ id ∈ ([[.int 0, .int 1], [.int 2, .int 3]] : Arrangement).flatten,
      id ∈ crossedTwice.nodeIds := by decide
  have htwo : crossings crossedTwice [[.int 0, .int 1], [.int 2, .int 3]] = 2 := by decide +kernel
  obtain ⟨_, result, hresult, hleast, hle, _⟩ :=
    bestArrangement_firstLeast (c := shuffledConfig) hmem
  exact ⟨hmem, result, hresult, hleast, by rwa [htwo] at hle⟩

end LayeredDrawing
