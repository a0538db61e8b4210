import LayeredDrawing.Ordering.Sweep
import LayeredDrawing.Scalar.Exact
import Mathlib.Algebra.BigOperators.Ring.List
import Mathlib.Algebra.Order.BigOperators.Group.List
import Mathlib.Algebra.Order.Field.Rat
import Mathlib.Data.List.GetD
import Mathlib.Tactic.FieldSimp
import Mathlib.Tactic.Linarith
import Mathlib.Tactic.Ring

/-!
# Means and medians

The exact mean of a list has numbers of the list on either side of it, unless all of them are the same.
Of the median this is true only if no number occurs twice: the median of `0, 1, 1` is also the largest.

* `Centred`            the number has some of the list below it and some above it, or is all of them;
* `centred_average`    exact means and medians;
* `allLe_of_centred`   what averages in the wrong order say of lists in the right one.
-/

namespace LayeredDrawing

/-- no number of the first list is larger than one of the second -/
def AllLe (l m : List Nat) : Prop := ∀ a ∈ l, ∀ b ∈ m, a ≤ b

/-- all numbers of the list are `y`, or some are smaller and some larger -/
def Centred (l : List Nat) (y : Rat) : Prop :=
  (∀ x ∈ l, (x : Rat) = y) ∨ ∃ a ∈ l, ∃ b ∈ l, (a : Rat) < y ∧ y < b

section
variable {l : List Nat}

theorem sum_map_sub (l : List Nat) (y : Rat) :
    (l.map fun x : Nat => (x : Rat) - y).sum = (l.foldr (· + ·) 0 : Nat) - l.length * y := by
  induction l with
  | nil => simp
  | cons x l ih =>
    rw [List.map_cons, List.sum_cons, ih, List.foldr_cons, List.length_cons]
    push_cast
    ring

theorem barycenter_rat (l : List Nat) : barycenter Rat l = (l.foldr (· + ·) 0 : Nat) / (l.length : Rat) :=
  rfl

theorem centred_barycenter (hne : l ≠ []) : Centred l (barycenter Rat l) := by
  have hlen : (l.length : Rat) ≠ 0 := by
    rw [Nat.cast_ne_zero]
    exact fun h => hne (List.length_eq_zero_iff.1 h)
  have hsum : (l.map fun x : Nat => (x : Rat) - barycenter Rat l).sum = 0 := by
    rw [sum_map_sub, barycenter_rat]
    field_simp
    ring
  -- numbers that all lie on one side of the mean are the mean
  have hall (s : Rat) (hs : s ≠ 0) (hside : ∀ x ∈ l, 0 ≤ s * ((x : Rat) - barycenter Rat l)) :
      ∀ x ∈ l, (x : Rat) = barycenter Rat l := by
    intro x hx
    have hzero : (l.map fun x : Nat => s * ((x : Rat) - barycenter Rat l)).sum = 0 := by
      rw [List.sum_map_mul_left, hsum, mul_zero]
    have hx0 : s * ((x : Rat) - barycenter Rat l) = 0 :=
      List.all_zero_of_le_zero_le_of_sum_eq_zero (List.forall_mem_map.2 hside) hzero
        (List.mem_map_of_mem hx)
    exact sub_eq_zero.1 ((mul_eq_zero.1 hx0).resolve_left hs)
  by_cases hlow : ∃ a ∈ l, (a : Rat) < barycenter Rat l
  · by_cases hhigh : ∃ b ∈ l, barycenter Rat l < (b : Rat)
    · obtain ⟨a, ha, hay⟩ := hlow
      obtain ⟨b, hb, hyb⟩ := hhigh
      exact .inr ⟨a, ha, b, hb, hay, hyb⟩
    · refine .inl (hall (-1) (by norm_num) fun x hx => ?_)
      have hle : (x : Rat) ≤ barycenter Rat l := not_lt.1 fun hlt => hhigh ⟨x, hx, hlt⟩
      linarith
  · refine .inl (hall 1 one_ne_zero fun x hx => ?_)
    have hle : barycenter Rat l ≤ (x : Rat) := not_lt.1 fun hlt => hlow ⟨x, hx, hlt⟩
    linarith

/-! ## medians -/

theorem pairwise_lt_stableSort (hl : l.Nodup) :
    (stableSort (fun a b : Nat => decide (a < b)) l).Pairwise (· < ·) := by
  refine (pairwise_stableSort ?_ ?_ hl).imp fun {a b} hab => ?_
  · intro a b c hab hbc
    rw [decide_eq_false_iff_not] at hab hbc ⊢
    omega
  · intro a b hab
    rw [decide_eq_true_iff] at hab
    rw [decide_eq_false_iff_not]
    omega
  · rw [decide_eq_true_iff, decide_eq_false_iff_not] at hab
    omega

/-- the middle of three different numbers at least, and of two the number halfway, has some on either
side -/
theorem centred_median (hl : l.Nodup) (hne : l ≠ []) : Centred l (median Rat l) := by
  have hsorted := pairwise_lt_stableSort hl
  have hperm := stableSort_perm (fun a b : Nat => decide (a < b)) l
  have hlen := hperm.length_eq
  unfold median
  generalize stableSort (fun a b : Nat => decide (a < b)) l = s at hsorted hperm hlen
  have hpos : 0 < l.length := List.length_pos_iff.2 hne
  have hmem (i : Nat) (hi : i < s.length) : s[i] ∈ l := hperm.mem_iff.1 (List.getElem_mem hi)
  have hlt (i j : Nat) (hij : i < j) (hj : j < s.length) : (s[i] : Rat) < s[j] :=
    Nat.cast_lt.2 (List.pairwise_iff_getElem.1 hsorted i j (by omega) hj hij)
  dsimp only
  split
  · rename_i hodd
    have hmid : l.length / 2 < s.length := by omega
    rw [List.getD_eq_getElem _ _ hmid]
    by_cases hone : l.length = 1
    · refine .inl fun x hx => ?_
      obtain ⟨a, rfl⟩ := List.length_eq_one_iff.1 hone
      have hsame := List.mem_singleton.1 (hmem _ hmid)
      rw [List.mem_singleton.1 hx, hsame]
    · exact .inr ⟨_, hmem 0 (by omega), _, hmem (l.length / 2 + 1) (by omega), hlt _ _ (by omega) _,
        hlt _ _ (Nat.lt_succ_self _) _⟩
  · rename_i heven
    have hmid : l.length / 2 < s.length := by omega
    rw [List.getD_eq_getElem _ _ hmid, List.getD_eq_getElem _ _ (by omega : l.length / 2 - 1 < s.length)]
    have hless := hlt (l.length / 2 - 1) (l.length / 2) (by omega) hmid
    refine .inr ⟨_, hmem (l.length / 2 - 1) (by omega), _, hmem (l.length / 2) hmid, ?_, ?_⟩
    · rw [Scalar.ratio_rat]
      push_cast
      linarith
    · rw [Scalar.ratio_rat]
      push_cast
      linarith

/-- a median is exact if the sums of two numbers of the list are halved exactly -/
theorem median_eq_of_exact {α : Type} [Scalar α] (hne : l ≠ [])
    (hhalf : ∀ a ∈ l, ∀ b ∈ l, Scalar.ratio α (a + b) 2 = Scalar.ratio Rat (a + b) 2) :
    median α l = median Rat l := by
  have hperm := stableSort_perm (fun a b : Nat => decide (a < b)) l
  have hlen := hperm.length_eq
  have hpos : 0 < l.length := List.length_pos_iff.2 hne
  unfold median
  generalize stableSort (fun a b : Nat => decide (a < b)) l = s at hperm hlen
  have hmem (i : Nat) (hi : i < s.length) : s.getD i 0 ∈ l := by
    rw [List.getD_eq_getElem _ _ hi]
    exact hperm.mem_iff.1 (List.getElem_mem hi)
  dsimp only
  rw [hhalf _ (hmem _ (by omega)) _ (hmem _ (by omega))]

theorem centred_average (h : Heuristic) (hmedian : h = .median → l.Nodup) (hne : l ≠ []) :
    Centred l (h.average Rat l) := by
  cases h with
  | barycenter => exact centred_barycenter hne
  | median => exact centred_median (hmedian rfl) hne

/-! ## two lists -/

/-- if the averages are in the wrong order, the lists are one number repeated -/
theorem allLe_of_centred {m : List Nat} {y z : Rat} (hl : Centred l y) (hm : Centred m z) (hml : AllLe m l)
    (hyz : y ≤ z) : AllLe l m := by
  intro p hp q hq
  have hle {a b : Nat} (ha : a ∈ m) (hb : b ∈ l) : (a : Rat) ≤ b := Nat.cast_le.2 (hml a ha b hb)
  rcases hl with hl | ⟨a, ha, _, _, hay, _⟩
  · rcases hm with hm | ⟨_, _, b, hb, _, hzb⟩
    · rw [← Nat.cast_le (α := Rat), hl p hp, hm q hq]
      exact hyz
    · have hbp := hle hb hp
      rw [hl p hp] at hbp
      linarith
  · rcases hm with hm | ⟨_, _, b, hb, _, hzb⟩
    · have hqa := hle hq ha
      rw [hm q hq] at hqa
      linarith
    · have hba := hle hb ha
      linarith

end

end LayeredDrawing
