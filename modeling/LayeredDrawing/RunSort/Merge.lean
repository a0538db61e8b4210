import LayeredDrawing.RunSort.Boundary

/-!
# Merging two runs

Two neighbouring runs are merged from one end, the front or the back: the front if the left run is
the shorter one.  At first one element is taken at a time (`Mode.byOne`).  When one run has won
`patience` times in a row, as many elements as possible are taken at once, found by
`boundaryNear` (`Mode.bySpan`); if that does not pay, the merge goes back to single elements and
patience grows.

* `Merging`     the parts not merged yet, and the part merged;
* `settle?`     ends a merge that has nothing left to decide;
* `mergeRuns`   merges what two runs do not have in place already.

`mergeRuns_perm`: nothing is lost and nothing added, whatever the comparison says.
-/

namespace LayeredDrawing.RunSort

inductive End where
  | front
  | back
deriving DecidableEq, Repr

structure Merging (β : Type) where
  left : List β
  right : List β
  merged : List β
  /-- how often in a row a run has to win before elements are taken by spans -/
  patience : Nat

variable {β : Type}

namespace Merging

/-! ## taking elements -/

/-- joins a part to what is merged, on the side where the merge stands -/
def join (e : End) (part : List β) (s : Merging β) : List β :=
  match e with
  | .front => s.merged ++ part
  | .back => part ++ s.merged

/-- splits `k` elements off the end: those that stay, and the others -/
def cut (e : End) (k : Nat) (l : List β) : List β × List β :=
  match e with
  | .front => (l.drop k, l.take k)
  | .back => (l.take (l.length - k), l.drop (l.length - k))

def takeLeft (e : End) (k : Nat) (s : Merging β) : Merging β :=
  { s with left := (cut e k s.left).1, merged := s.join e (cut e k s.left).2 }

def takeRight (e : End) (k : Nat) (s : Merging β) : Merging β :=
  { s with right := (cut e k s.right).1, merged := s.join e (cut e k s.right).2 }

/-- what a merge comes to when the rest is in order, left before right -/
def close (e : End) (s : Merging β) : Merging β :=
  { s with left := [], right := [], merged := s.join e (s.left ++ s.right) }

/-- what a merge comes to when the rest of the right run goes before the rest of the left one -/
def closeSwapped (e : End) (s : Merging β) : Merging β :=
  { s with left := [], right := [], merged := s.join e (s.right ++ s.left) }

/-- the run with the element that comes last in the whole merge -/
def outer (e : End) (s : Merging β) : List β :=
  match e with
  | .front => s.left
  | .back => s.right

/-- the result, if one run is used up, or if a single element is left of the outer run -/
def settle? (e : End) (s : Merging β) : Option (Merging β) :=
  if s.left.isEmpty || s.right.isEmpty then some (s.close e)
  else if (s.outer e).length = 1 then some (s.closeSwapped e)
  else none

/-! ## comparing -/

/-- the element that the next comparison looks at -/
def tip? (e : End) (l : List β) : Option β :=
  match e with
  | .front => l.head?
  | .back => l.getLast?

/-- how many elements at the end of a list come before the place found by the test -/
def spanAt (e : End) (test : β → Bool) (l : List β) : Nat :=
  let a := l.toArray
  let holds (i : Nat) : Bool := a[i]?.any test
  match e with
  | .front => boundaryNear holds a.size 0
  | .back => a.size - boundaryNear holds a.size (a.size - 1)

/-- how many elements of the left run are to be taken before the next one of the right run -/
def leftSpan (lt : β → β → Bool) (e : End) (s : Merging β) : Nat :=
  (tip? e s.right).elim 0 fun y => spanAt e (fun x => !lt y x) s.left

/-- how many elements of the right run are to be taken before the next one of the left run -/
def rightSpan (lt : β → β → Bool) (e : End) (s : Merging β) : Nat :=
  (tip? e s.left).elim 0 fun x => spanAt e (fun y => lt y x) s.right

/-- at the front a smaller right element goes first, at the back a smaller right element waits -/
def rightIsDue (lt : β → β → Bool) (e : End) (s : Merging β) : Bool :=
  match tip? e s.left, tip? e s.right with
  | some x, some y => lt y x == (e == .front)
  | _, _ => false

/-- takes the element that comes next -/
def takeDue (lt : β → β → Bool) (e : End) (s : Merging β) : Merging β :=
  if s.rightIsDue lt e then s.takeRight e 1 else s.takeLeft e 1

/-! ## nothing is lost -/

/-- all elements of a merge, in no particular order -/
def elements (s : Merging β) : List β := s.left ++ (s.right ++ s.merged)

theorem cut_perm (e : End) (k : Nat) (l : List β) : ((cut e k l).1 ++ (cut e k l).2).Perm l := by
  cases e with
  | front => exact List.perm_append_comm.trans (by rw [cut, List.take_append_drop])
  | back => rw [cut, List.take_append_drop]

theorem join_perm (e : End) (part : List β) (s : Merging β) :
    (s.join e part).Perm (part ++ s.merged) := by
  cases e with
  | front => exact List.perm_append_comm
  | back => exact List.Perm.refl _

theorem elements_takeLeft (e : End) (k : Nat) (s : Merging β) :
    (s.takeLeft e k).elements.Perm s.elements :=
  (((join_perm e _ s).append_left s.right).trans
    (List.perm_append_comm_assoc s.right _ s.merged)).append_left _
    |>.trans (by rw [← List.append_assoc]; exact (cut_perm e k s.left).append_right _)

theorem elements_takeRight (e : End) (k : Nat) (s : Merging β) :
    (s.takeRight e k).elements.Perm s.elements :=
  ((join_perm e _ s).append_left _
    |>.trans (by
      rw [← List.append_assoc]; exact (cut_perm e k s.right).append_right _)).append_left s.left

theorem elements_takeDue (lt : β → β → Bool) (e : End) (s : Merging β) :
    (s.takeDue lt e).elements.Perm s.elements := by
  unfold takeDue
  split
  · exact elements_takeRight e 1 s
  · exact elements_takeLeft e 1 s

theorem merged_close (e : End) (s : Merging β) : (s.close e).merged.Perm s.elements :=
  (join_perm e _ s).trans (by rw [elements, List.append_assoc])

theorem merged_closeSwapped (e : End) (s : Merging β) :
    (s.closeSwapped e).merged.Perm s.elements :=
  (join_perm e _ s).trans (by
    rw [elements, List.append_assoc]; exact List.perm_append_comm_assoc _ _ _)

theorem merged_of_settle? {e : End} {s t : Merging β} (h : s.settle? e = some t) :
    t.merged.Perm s.elements := by
  unfold settle? at h
  split at h
  · cases h
    exact merged_close e s
  · split at h
    · cases h
      exact merged_closeSwapped e s
    · cases h

end Merging

/-! ## the merge -/

inductive Mode where
  /-- with how often in a row the same run has won, and whether that was the right one -/
  | byOne (rightWon : Bool) (wins : Nat)
  | bySpan

/-- spans of this length pay -/
def goodSpan : Nat := 7

/-- how often in a row the winner has won now -/
def streak (rightWon rightWonBefore : Bool) (wins : Nat) : Nat :=
  if rightWon == rightWonBefore then wins + 1 else 1

open Merging in
/-- merges to the end, in at most `fuel` rounds -/
def merge (lt : β → β → Bool) (e : End) : (fuel : Nat) → Mode → Merging β → Merging β
  | 0, _, s => s.close e
  | fuel + 1, .byOne before wins, s =>
    let rightWon := s.rightIsDue lt e
    let wins := streak rightWon before wins
    let s := s.takeDue lt e
    match s.settle? e with
    | some t => t
    | none =>
      if s.patience ≤ wins then merge lt e fuel .bySpan { s with patience := s.patience + 1 }
      else merge lt e fuel (.byOne rightWon wins) s
  | fuel + 1, .bySpan, s =>
    let s := { s with patience := max 1 (s.patience - 1) }
    let k := s.leftSpan lt e
    let s := s.takeLeft e k
    match s.settle? e with
    | some t => t
    | none =>
      let s := s.takeRight e 1
      match s.settle? e with
      | some t => t
      | none =>
        let m := s.rightSpan lt e
        let s := s.takeRight e m
        match s.settle? e with
        | some t => t
        | none =>
          let s := s.takeLeft e 1
          match s.settle? e with
          | some t => t
          | none =>
            if goodSpan ≤ k ∨ goodSpan ≤ m then merge lt e fuel .bySpan s
            else merge lt e fuel (.byOne false 0) { s with patience := s.patience + 1 }

theorem merged_merge (lt : β → β → Bool) (e : End) (fuel : Nat) (mode : Mode) (s : Merging β) :
    (merge lt e fuel mode s).merged.Perm s.elements := by
  induction fuel generalizing mode s with
  | zero => exact Merging.merged_close e s
  | succ fuel ih =>
    cases mode with
    | byOne rightWon wins =>
      have taken := Merging.elements_takeDue lt e s
      simp only [merge]
      split
      · rename_i h
        exact (Merging.merged_of_settle? h).trans taken
      · split
        · exact (ih _ _).trans taken
        · exact (ih _ _).trans taken
    | bySpan =>
      simp only [merge]
      split
      · rename_i h
        exact (Merging.merged_of_settle? h).trans (Merging.elements_takeLeft e _ _)
      · split
        · rename_i h
          exact (Merging.merged_of_settle? h).trans
            ((Merging.elements_takeRight e _ _).trans (Merging.elements_takeLeft e _ _))
        · have taken (k m : Nat) (s : Merging β) :
              (((s.takeLeft e k).takeRight e 1).takeRight e m).elements.Perm s.elements :=
            (Merging.elements_takeRight e m _).trans
              ((Merging.elements_takeRight e 1 _).trans (Merging.elements_takeLeft e k _))
          split
          · rename_i h
            exact (Merging.merged_of_settle? h).trans (taken _ _ _)
          · split
            · rename_i h
              exact (Merging.merged_of_settle? h).trans
                ((Merging.elements_takeLeft e 1 _).trans (taken _ _ _))
            · split
              · exact (ih _ _).trans ((Merging.elements_takeLeft e 1 _).trans (taken _ _ _))
              · exact (ih _ _).trans ((Merging.elements_takeLeft e 1 _).trans (taken _ _ _))

/-- merges two parts that overlap: the right one starts below the left one, and the left one ends
above the right one -/
def mergeParts (lt : β → β → Bool) (s : Merging β) : Merging β :=
  let e : End := if s.left.length ≤ s.right.length then .front else .back
  let first := match e with
    | .front => s.takeRight e 1
    | .back => s.takeLeft e 1
  match first.settle? e with
  | some t => t
  | none => merge lt e (s.left.length + s.right.length) (.byOne false 0) first

theorem merged_mergeParts (lt : β → β → Bool) (s : Merging β) :
    (mergeParts lt s).merged.Perm s.elements := by
  unfold mergeParts
  by_cases hs : s.left.length ≤ s.right.length
  · simp only [hs, if_true]
    split
    · rename_i h
      exact (Merging.merged_of_settle? h).trans (Merging.elements_takeRight .front 1 s)
    · exact (merged_merge lt _ _ _ _).trans (Merging.elements_takeRight .front 1 s)
  · simp only [hs, if_false]
    split
    · rename_i h
      exact (Merging.merged_of_settle? h).trans (Merging.elements_takeLeft .back 1 s)
    · exact (merged_merge lt _ _ _ _).trans (Merging.elements_takeLeft .back 1 s)

/-- merges two neighbouring runs; the second result is the patience from then on -/
def mergeRuns (lt : β → β → Bool) (patience : Nat) (left right : List β) : List β × Nat :=
  -- what the left run has in place already
  let low := Merging.leftSpan lt .front ⟨left, right, [], patience⟩
  let inner := left.drop low
  -- what the right run has in place already
  let high := right.length - Merging.rightSpan lt .back ⟨inner, right, [], patience⟩
  if inner.isEmpty || high == 0 then (left ++ right, patience)
  else
    let t := mergeParts lt ⟨inner, right.take high, [], patience⟩
    (left.take low ++ t.merged ++ right.drop high, t.patience)

theorem mergeRuns_perm (lt : β → β → Bool) (patience : Nat) (left right : List β) :
    (mergeRuns lt patience left right).1.Perm (left ++ right) := by
  simp only [mergeRuns]
  split
  · exact List.Perm.refl _
  · refine (((merged_mergeParts lt _).append_left _).append_right _).trans (List.Perm.of_eq ?_)
    simp only [Merging.elements, List.append_nil, List.append_assoc, List.take_append_drop]
    rw [← List.append_assoc, List.take_append_drop]

end LayeredDrawing.RunSort
