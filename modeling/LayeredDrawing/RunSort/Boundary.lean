/-!
# Finding a boundary

A test on the positions `0, …, n - 1` holds up to some position and fails from there on.

* `bisect`         the position where it first fails, between two others, by halving;
* `boundaryNear`   the same, looked for from a hint: in strides that double, up to a stop where the
                   test says otherwise, and then by halving between the last two stops.

For a test that does not behave so, the result still depends on the answers at the positions asked
about only.
-/

namespace LayeredDrawing.RunSort

/-- where the test first fails between `low` and `high` -/
def bisect (test : Nat → Bool) (low high : Nat) : Nat :=
  if low < high then
    let middle := low + (high - low) / 2
    if test middle then bisect test (middle + 1) high else bisect test low middle
  else high
termination_by high - low

theorem bisect_le (test : Nat → Bool) {low high : Nat} (h : low ≤ high) :
    bisect test low high ≤ high := by
  fun_induction bisect test low high with
  | case1 low high hlt middle _ ih => exact ih (by omega)
  | case2 low high hlt middle _ ih => exact Nat.le_trans (ih (by omega)) (by omega)
  | case3 => exact Nat.le_refl _

/-- a test that holds up to some position and fails from there on is parted by the result -/
theorem bisect_spec {test : Nat → Bool} {low high : Nat} (h : low ≤ high)
    (hmono : ∀ i j, i ≤ j → j < high → test j = true → test i = true) :
    low ≤ bisect test low high ∧
      (∀ i, i < bisect test low high → low ≤ i → test i = true) ∧
      ∀ i, bisect test low high ≤ i → i < high → test i = false := by
  fun_induction bisect test low high with
  | case1 low high hlt middle hmiddle ih =>
    obtain ⟨hle, hbelow, habove⟩ := ih (by omega) hmono
    refine ⟨by omega, fun i hi hlow => ?_, habove⟩
    by_cases him : i ≤ middle
    · exact hmono i middle him (by omega) hmiddle
    · exact hbelow i hi (by omega)
  | case2 low high hlt middle hmiddle ih =>
    obtain ⟨hle, hbelow, habove⟩ := ih (by omega) fun i j hij hj => hmono i j hij (by omega)
    refine ⟨hle, hbelow, fun i hi hhigh => ?_⟩
    by_cases him : i < middle
    · exact habove i hi him
    · rw [← Bool.not_eq_true]
      exact fun htest => hmiddle (hmono middle i (by omega) hhigh htest)
  | case3 low high hlt =>
    exact ⟨h, fun i hi hlow => by omega, fun i hi hhigh => by omega⟩

/-- goes on from stop to stop while the test holds: the last stop passed, and the next one or the
bound -/
def stride (test : Nat → Bool) (bound passed next : Nat) : Nat × Nat :=
  if next < bound ∧ test next then stride test bound next (2 * next + 1)
  else (passed, min next bound)
termination_by bound - next

/-- where the test first fails below `n`, looked for from `hint` -/
def boundaryNear (test : Nat → Bool) (n hint : Nat) : Nat :=
  if test hint then
    let (passed, next) := stride (fun i => test (hint + i)) (n - hint) 0 1
    bisect test (hint + passed + 1) (hint + next)
  else
    let (passed, next) := stride (fun i => !test (hint - i)) (hint + 1) 0 1
    bisect test (hint + 1 - next) (hint - passed)

end LayeredDrawing.RunSort
