import LayeredDrawing.Ordering.Crossings
import Mathlib.Data.List.GetD

/-!
# Entering numbers in order

While crossings are counted, the positions where earlier edges end stand in a sorted list.  The slot
of a new one is found by halving: in front of it are the positions that are at most as far along, and
behind it those further along.

* `exists_slotBehind`       where the slot of a number is;
* `length_sub_slotBehind`   how many numbers are behind it;
* `foldl_enter`             numbers entered one after the other are sorted, and none is lost.
-/

namespace LayeredDrawing

theorem insertIdx_length_append {β : Type} (front back : List β) (x : β) :
    (front ++ back).insertIdx front.length x = front ++ x :: back := by
  induction front with
  | nil => rfl
  | cons y front ih => exact congrArg (y :: ·) ih

section
variable {seen : List Nat} (h : seen.Pairwise (· ≤ ·))
include h

/-- the slot of a number parts those that are at most as large from those that are larger -/
theorem exists_slotBehind (t : Nat) : ∃ front back, seen = front ++ back ∧
    slotBehind seen t = front.length ∧ (∀ n ∈ front, n ≤ t) ∧ ∀ n ∈ back, t < n := by
  have hget {i : Nat} (hi : i < seen.length) : seen.getD i 0 = seen[i] := List.getD_eq_getElem _ _ hi
  have hsorted := List.pairwise_iff_getElem.1 h
  have hle : slotBehind seen t ≤ seen.length := RunSort.bisect_le _ (Nat.zero_le _)
  have hmono : ∀ i j, i ≤ j → j < seen.length → decide (seen.getD j 0 ≤ t) = true →
      decide (seen.getD i 0 ≤ t) = true := fun i j hij hj hlej => by
    rw [decide_eq_true_eq, hget hj] at hlej
    rw [decide_eq_true_eq, hget (Nat.lt_of_le_of_lt hij hj)]
    rcases Nat.eq_or_lt_of_le hij with rfl | hlt
    · exact hlej
    · exact Nat.le_trans (hsorted i j (by omega) hj hlt) hlej
  obtain ⟨_, hbelow, habove⟩ : _ ≤ slotBehind seen t ∧ _ :=
    RunSort.bisect_spec (Nat.zero_le seen.length) hmono
  refine ⟨seen.take (slotBehind seen t), seen.drop (slotBehind seen t),
    (List.take_append_drop ..).symm, ?_, fun n hn => ?_, fun n hn => ?_⟩
  · rw [List.length_take, Nat.min_eq_left hle]
  · obtain ⟨i, hi, rfl⟩ := List.mem_take_iff_getElem.1 hn
    have htest := hbelow i (by show i < slotBehind seen t; omega) (Nat.zero_le i)
    rwa [decide_eq_true_eq, hget (by omega)] at htest
  · obtain ⟨i, hi, rfl⟩ := List.mem_drop_iff_getElem.1 hn
    have htest := habove (slotBehind seen t + i) (Nat.le_add_right ..) (by omega)
    rw [decide_eq_false_iff_not, hget (by omega)] at htest
    omega

/-- the numbers behind the slot are counted by their number -/
theorem length_sub_slotBehind (t : Nat) :
    seen.length - slotBehind seen t = seen.countP fun n => decide (t < n) := by
  obtain ⟨front, back, rfl, hslot, hfront, hback⟩ := exists_slotBehind h t
  have hnone : front.countP (fun n => decide (t < n)) = 0 := List.countP_eq_zero.2 fun n hn => by
    have := hfront n hn
    simpa using this
  have hall : back.countP (fun n => decide (t < n)) = back.length := List.countP_eq_length.2 fun n hn =>
    decide_eq_true (hback n hn)
  rw [hslot, List.countP_append, hnone, hall, List.length_append]
  omega

theorem enter_perm (t : Nat) : (enter seen t).Perm (t :: seen) := by
  obtain ⟨front, back, rfl, hslot, _, _⟩ := exists_slotBehind h t
  rw [enter, hslot, insertIdx_length_append]
  exact List.perm_middle

theorem pairwise_enter (t : Nat) : (enter seen t).Pairwise (· ≤ ·) := by
  obtain ⟨front, back, rfl, hslot, hfront, hback⟩ := exists_slotBehind h t
  obtain ⟨hf, hb, hfb⟩ := List.pairwise_append.1 h
  rw [enter, hslot, insertIdx_length_append, List.pairwise_append, List.pairwise_cons]
  refine ⟨hf, ⟨fun n hn => Nat.le_of_lt (hback n hn), hb⟩, fun m hm n hn => ?_⟩
  rcases List.mem_cons.1 hn with rfl | hn
  · exact hfront m hm
  · exact hfb m hm n hn

end

/-- numbers entered one after the other -/
theorem foldl_enter {seen : List Nat} (h : seen.Pairwise (· ≤ ·)) (ts : List Nat) :
    (ts.foldl enter seen).Pairwise (· ≤ ·) ∧ (ts.foldl enter seen).Perm (seen ++ ts) := by
  induction ts generalizing seen with
  | nil => exact ⟨h, by rw [List.append_nil]; exact List.Perm.refl seen⟩
  | cons t ts ih =>
    obtain ⟨hsorted, hperm⟩ := ih (pairwise_enter h t)
    refine ⟨hsorted, hperm.trans ?_⟩
    exact ((enter_perm h t).append_right ts).trans List.perm_middle.symm
end LayeredDrawing
