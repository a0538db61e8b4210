import LayeredDrawing.Random.Twister

/-!
# Shuffling

`shuffle` swaps each position of a list, from the last down to the second, with a random one at or
below it.  Which positions are swapped depends on the generator and on the length of the list only
(`swaps`); the list itself is carried through (`swapAll`).
-/

namespace LayeredDrawing

variable {β γ : Type}

/-- the pairs of positions to swap in a list of `n` elements -/
def swaps : (n : Nat) → Twister → List (Nat × Nat) × Twister
  | 0, t => ([], t)
  | 1, t => ([], t)
  | n + 2, t =>
    let (j, t) := t.below (n + 2)
    let (rest, t) := swaps (n + 1) t
    ((n + 1, j) :: rest, t)

def swapAll (pairs : List (Nat × Nat)) (a : Array β) : Array β :=
  pairs.foldl (fun a p => a.swapIfInBounds p.1 p.2) a

def shuffle (l : List β) (t : Twister) : List β × Twister :=
  let (pairs, t) := swaps l.length t
  ((swapAll pairs l.toArray).toList, t)

/-- shuffles lists one after the other -/
def shuffleAll : List (List β) → Twister → List (List β) × Twister
  | [], t => ([], t)
  | l :: rest, t =>
    let (l, t) := shuffle l t
    let (rest, t) := shuffleAll rest t
    (l :: rest, t)

theorem swapIfInBounds_perm (a : Array β) (i j : Nat) : (a.swapIfInBounds i j).Perm a := by
  unfold Array.swapIfInBounds
  split
  · split
    · exact Array.swap_perm _ _
    · exact Array.Perm.refl a
  · exact Array.Perm.refl a

theorem swapAll_perm (pairs : List (Nat × Nat)) (a : Array β) : (swapAll pairs a).Perm a := by
  induction pairs generalizing a with
  | nil => exact Array.Perm.refl a
  | cons p pairs ih => exact (ih _).trans (swapIfInBounds_perm a p.1 p.2)

theorem shuffle_perm (l : List β) (t : Twister) : (shuffle l t).1.Perm l :=
  (swapAll_perm _ _).toList

theorem shuffleAll_nil (t : Twister) : shuffleAll ([] : List (List β)) t = ([], t) := rfl

theorem length_shuffleAll (ls : List (List β)) (t : Twister) :
    (shuffleAll ls t).1.length = ls.length := by
  induction ls generalizing t with
  | nil => rfl
  | cons l ls ih => simp [shuffleAll, ih]

/-! ## images -/

theorem swapAll_map (f : β → γ) (pairs : List (Nat × Nat)) (a : Array β) :
    swapAll pairs (a.map f) = (swapAll pairs a).map f := by
  have hswap (a : Array β) (i j : Nat) :
      (a.map f).swapIfInBounds i j = (a.swapIfInBounds i j).map f := by
    unfold Array.swapIfInBounds
    simp only [Array.size_map]
    split
    · split
      · refine Array.ext (by simp) fun k hk hk' => ?_
        simp only [Array.getElem_swap, Array.getElem_map]
        split
        · rfl
        · split <;> rfl
      · rfl
    · rfl
  induction pairs generalizing a with
  | nil => rfl
  | cons p pairs ih =>
    have hfirst := ih (a.swapIfInBounds p.1 p.2)
    rwa [← hswap] at hfirst

theorem shuffle_map (f : β → γ) (l : List β) (t : Twister) :
    shuffle (l.map f) t = ((shuffle l t).1.map f, (shuffle l t).2) := by
  have hswap := swapAll_map f (swaps l.length t).1 l.toArray
  rw [List.map_toArray] at hswap
  simp only [shuffle, List.length_map, hswap, Array.toList_map]

/-- which positions are swapped does not depend on what stands there -/
theorem shuffleAll_map (f : β → γ) (ls : List (List β)) (t : Twister) :
    shuffleAll (ls.map (List.map f)) t
      = ((shuffleAll ls t).1.map (List.map f), (shuffleAll ls t).2) := by
  induction ls generalizing t with
  | nil => rfl
  | cons l ls ih => simp only [List.map_cons, shuffleAll, shuffle_map, ih]

end LayeredDrawing
