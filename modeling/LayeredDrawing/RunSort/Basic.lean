import LayeredDrawing.RunSort.Merge

/-!
# Sorting by runs

`runSort lt l` sorts a list by finding the runs that are in it and merging them.

* `firstRun`    the longest run at the front: elements of which none is less than the one before, or
                elements each less than the one before, turned round;
* `nextRun`     the same, made longer by single insertions if it is very short;
* `power`       how early two neighbouring runs are merged: the depth at which the halving of the
                whole list separates their middles;
* `runSort`     merges a run with the one before as soon as that one's power is the larger.

For a comparison that is a strict weak order this is a stable sort.  For any other it does the same
comparisons in the same order and rearranges the list by their answers (`runSort_perm`).
-/

namespace LayeredDrawing.RunSort

variable {β : Type} (lt : β → β → Bool)

/-! ## runs -/

/-- the elements that go on from `x` with each pair of neighbours as asked, and the rest -/
def chain (next : β → β → Bool) (x : β) : List β → List β × List β
  | [] => ([], [])
  | y :: l =>
    if next x y then
      let (c, rest) := chain next y l
      (y :: c, rest)
    else ([], y :: l)

/-- the run at the front, and the rest -/
def firstRun : List β → List β × List β
  | [] => ([], [])
  | [x] => ([x], [])
  | x :: y :: l =>
    if lt y x then
      let (c, rest) := chain (fun a b => lt b a) y l
      ((x :: y :: c).reverse, rest)
    else
      let (c, rest) := chain (fun a b => !lt b a) y l
      (x :: y :: c, rest)

/-- puts an element into a run, behind those that it is not less than -/
def insertByHalving (run : List β) (x : β) : List β :=
  let a := run.toArray
  run.insertIdx (bisect (fun i => a[i]?.any fun y => !lt x y) 0 a.size) x

theorem chain_append (next : β → β → Bool) (x : β) (l : List β) :
    (chain next x l).1 ++ (chain next x l).2 = l := by
  induction l generalizing x with
  | nil => rfl
  | cons y l ih =>
    unfold chain
    split
    · exact congrArg (y :: ·) (ih y)
    · rfl

theorem firstRun_perm (l : List β) : ((firstRun lt l).1 ++ (firstRun lt l).2).Perm l := by
  fun_cases firstRun lt l with
  | case1 => exact List.Perm.refl _
  | case2 => exact List.Perm.refl _
  | case3 x y l _ c rest h =>
    have hl := chain_append (fun a b => lt b a) y l
    rw [h] at hl
    refine ((List.reverse_perm _).append_right _).trans (List.Perm.of_eq ?_)
    exact congrArg (fun t => x :: y :: t) hl
  | case4 x y l _ c rest h =>
    have hl := chain_append (fun a b => !lt b a) y l
    rw [h] at hl
    exact List.Perm.of_eq (congrArg (fun t => x :: y :: t) hl)

theorem insertByHalving_perm (run : List β) (x : β) :
    (insertByHalving lt run x).Perm (x :: run) :=
  List.perm_insertIdx x run (bisect_le _ (Nat.zero_le _))

theorem foldl_insertByHalving_perm (l run : List β) :
    (l.foldl (insertByHalving lt) run).Perm (run ++ l) := by
  induction l generalizing run with
  | nil => rw [List.append_nil]; exact List.Perm.refl _
  | cons x l ih =>
    exact (ih _).trans (((insertByHalving_perm lt run x).append_right l).trans
      List.perm_middle.symm)

/-- a run of at least `least` elements, unless there are fewer, and the rest -/
def nextRun (least : Nat) (l : List β) : List β × List β :=
  let (run, rest) := firstRun lt l
  let missing := least - run.length
  ((rest.take missing).foldl (insertByHalving lt) run, rest.drop missing)

theorem nextRun_perm (least : Nat) (l : List β) :
    ((nextRun lt least l).1 ++ (nextRun lt least l).2).Perm l := by
  have h := firstRun_perm lt l
  unfold nextRun
  generalize firstRun lt l = p at h ⊢
  obtain ⟨run, rest⟩ := p
  refine ((foldl_insertByHalving_perm lt _ _).append_right _).trans ?_
  rw [List.append_assoc, List.take_append_drop]
  exact h

/-- the least length of a run: the leading six binary digits of `n`, one more if another one is set
behind them -/
def leastRun (n : Nat) (more : Nat) : Nat :=
  if n < 64 then n + more else leastRun (n / 2) (max more (n % 2))
termination_by n

/-! ## the order of merges -/

/-- the number of halvings of a list of `n` elements that it takes to separate the two places, given
in halves of an element -/
def depth (n : Nat) : (fuel : Nat) → (a b : Nat) → Nat
  | 0, _, _ => 0
  | fuel + 1, a, b =>
    if n ≤ a then depth n fuel (2 * (a - n)) (2 * (b - n)) + 1
    else if n ≤ b then 1
    else depth n fuel (2 * a) (2 * b) + 1

/-- the power of the boundary between a run of `left` elements at `start` and the one of `right`
elements behind it -/
def power (n start left right : Nat) : Nat :=
  depth n n (2 * start + left) (2 * start + 2 * left + right)

/-- a run waiting to be merged, with the power of the boundary behind it -/
structure Waiting (β : Type) where
  run : List β
  power : Nat

/-- the runs waiting, the last one first, and the patience of merges -/
structure Progress (β : Type) where
  waiting : List (Waiting β)
  patience : Nat

/-- the elements of the runs waiting, in no particular order -/
def Waiting.elements (l : List (Waiting β)) : List β := l.flatMap Waiting.run

/-- merges the last runs while the boundary between them has a larger power than `p` -/
def collapse (p : Nat) (patience : Nat) : List (Waiting β) → Progress β
  | [] => ⟨[], patience⟩
  | [w] => ⟨[w], patience⟩
  | top :: next :: below =>
    if p < next.power then
      let (run, patience) := mergeRuns lt patience next.run top.run
      collapse p patience (⟨run, next.power⟩ :: below)
    else ⟨top :: next :: below, patience⟩
termination_by l => l.length

theorem elements_merged (patience : Nat) (top next : List β) (rest : List β) :
    ((mergeRuns lt patience next top).1 ++ rest).Perm (top ++ (next ++ rest)) :=
  ((mergeRuns_perm lt patience next top).append_right rest).trans
    (by rw [List.append_assoc]; exact List.perm_append_comm_assoc _ _ _)

theorem elements_collapse (p patience : Nat) (l : List (Waiting β)) :
    (Waiting.elements (collapse lt p patience l).waiting).Perm (Waiting.elements l) := by
  fun_induction collapse lt p patience l with
  | case1 => exact List.Perm.refl _
  | case2 => exact List.Perm.refl _
  | case3 patience top next below _ run patience' hrun ih =>
    refine ih.trans ?_
    have h := elements_merged lt patience top.run next.run (Waiting.elements below)
    rw [hrun] at h
    exact h
  | case4 => exact List.Perm.refl _

/-- adds a run behind those waiting, in a list of `n` elements -/
def push (n : Nat) (s : Progress β) (run : List β) : Progress β :=
  match s.waiting with
  | [] => ⟨[⟨run, 0⟩], s.patience⟩
  | top :: below =>
    let start := (below.map fun w => w.run.length).foldr (· + ·) 0
    let p := power n start top.run.length run.length
    let t := collapse lt p s.patience (top :: below)
    match t.waiting with
    | [] => ⟨[⟨run, 0⟩], t.patience⟩
    | top :: below => ⟨⟨run, 0⟩ :: ⟨top.run, p⟩ :: below, t.patience⟩

theorem elements_push (n : Nat) (s : Progress β) (run : List β) :
    (Waiting.elements (push lt n s run).waiting).Perm (run ++ Waiting.elements s.waiting) := by
  unfold push
  split
  · rename_i h
    rw [h]
    exact List.Perm.refl _
  · rename_i top below h
    rw [h]
    have hc := fun p => elements_collapse lt p s.patience (top :: below)
    simp only
    split
    · rename_i ht
      have hp := hc (power n ((below.map fun w => w.run.length).foldr (· + ·) 0) top.run.length
        run.length)
      rw [ht] at hp
      exact hp.append_left run
    · rename_i top' below' ht
      have hp := hc (power n ((below.map fun w => w.run.length).foldr (· + ·) 0) top.run.length
        run.length)
      rw [ht] at hp
      exact hp.append_left run

/-- merges all runs waiting, shorter neighbours of the last but one first -/
def mergeAll (patience : Nat) : List (Waiting β) → List β
  | [] => []
  | [w] => w.run
  | [top, next] => (mergeRuns lt patience next.run top.run).1
  | top :: next :: third :: below =>
    if third.run.length < top.run.length then
      let (run, patience) := mergeRuns lt patience third.run next.run
      mergeAll patience (top :: ⟨run, third.power⟩ :: below)
    else
      let (run, patience) := mergeRuns lt patience next.run top.run
      mergeAll patience (⟨run, next.power⟩ :: third :: below)
termination_by l => l.length

theorem mergeAll_perm (patience : Nat) (l : List (Waiting β)) :
    (mergeAll lt patience l).Perm (Waiting.elements l) := by
  fun_induction mergeAll lt patience l with
  | case1 => exact List.Perm.refl _
  | case2 patience w => simp [Waiting.elements]
  | case3 patience top next =>
    have h := elements_merged lt patience top.run next.run []
    simpa [Waiting.elements] using h
  | case4 patience top next third below _ run patience' hrun ih =>
    refine ih.trans ?_
    have h := elements_merged lt patience next.run third.run (Waiting.elements below)
    rw [hrun] at h
    exact h.append_left top.run
  | case5 patience top next third below _ run patience' hrun ih =>
    refine ih.trans ?_
    have h := elements_merged lt patience top.run next.run
      (third.run ++ Waiting.elements below)
    rw [hrun] at h
    exact h

/-- finds the runs of the rest one after the other; after `fuel` of them the rest counts as one -/
def gather (n least : Nat) : (fuel : Nat) → List β → Progress β → Progress β
  | _, [], s => s
  | 0, l, s => push lt n s l
  | fuel + 1, l, s =>
    let (run, rest) := nextRun lt least l
    gather n least fuel rest (push lt n s run)

theorem elements_gather (n least fuel : Nat) (l : List β) (s : Progress β) :
    (Waiting.elements (gather lt n least fuel l s).waiting).Perm
      (l ++ Waiting.elements s.waiting) := by
  fun_induction gather lt n least fuel l s with
  | case1 => exact List.Perm.refl _
  | case2 => exact elements_push lt n _ _
  | case3 fuel l s _ run rest hrun ih =>
    have h := nextRun_perm lt least l
    rw [hrun] at h
    refine ih.trans (((elements_push lt n s run).append_left rest).trans ?_)
    rw [← List.append_assoc]
    exact (List.perm_append_comm.trans h).append_right _

def runSort (l : List β) : List β :=
  let s := gather lt l.length (leastRun l.length 0) l.length l ⟨[], goodSpan⟩
  mergeAll lt s.patience s.waiting

theorem runSort_perm (l : List β) : (runSort lt l).Perm l :=
  (mergeAll_perm lt _ _).trans ((elements_gather lt _ _ _ l _).trans (by simp [Waiting.elements]))

end LayeredDrawing.RunSort
