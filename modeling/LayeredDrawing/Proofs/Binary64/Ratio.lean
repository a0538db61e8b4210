import LayeredDrawing.Binary64.Ratio
import Mathlib.Algebra.Order.Field.Power
import Mathlib.Algebra.Order.Field.Rat
import Mathlib.Tactic.FieldSimp
import Mathlib.Tactic.Linarith
import Mathlib.Tactic.NormNum
import Mathlib.Tactic.Ring

/-!
# Rounded quotients

A quotient is scaled by a power of two until 53 of its binary digits stand in front of the point, and
is rounded there.  No double is nearer to it than the result: those with the same last place are whole
after scaling, and those with more places are smaller than any quotient that is scaled so.

* `Binary64.IsDouble`              a number of 53 binary digits;
* `Binary64.ratio_nearest`         no double is nearer to the quotient than the rounded one;
* `Binary64.ratio_of_isDouble`     a quotient that is a double is not rounded;
* `Binary64.ratio_lt_ratio`        quotients of small numbers are kept apart.
-/

namespace LayeredDrawing.Binary64

/-- a number of 53 binary digits, with any exponent -/
def IsDouble (x : Rat) : Prop := ∃ m e : Int, |m| ≤ 2 ^ 53 ∧ x = m * 2 ^ e

/-- a double is a whole number of units in the place `last`, or at most `2 ^ 52` of them -/
theorem IsDouble.whole_or_le {x : Rat} (hx : IsDouble x) (last : Int) :
    (∃ k : Int, x = k * 2 ^ last) ∨ x ≤ 2 ^ 52 * 2 ^ last := by
  obtain ⟨m, e, hm, rfl⟩ := hx
  rcases le_or_gt last e with hle | hlt
  · refine .inl ⟨m * 2 ^ (e - last).toNat, ?_⟩
    push_cast
    rw [mul_assoc, ← zpow_natCast, ← zpow_add₀ two_ne_zero]
    congr 2
    omega
  · refine .inr ?_
    calc (m : Rat) * 2 ^ e ≤ 2 ^ 53 * 2 ^ (last - 1) := by
          gcongr
          · exact_mod_cast (le_abs_self m).trans hm
          · norm_num
          · omega
      _ = 2 ^ 52 * 2 ^ last := by
          rw [zpow_sub_one₀ two_ne_zero]
          ring

section
variable {n d : Nat}

/-! ## rounding to whole numbers -/

/-- twice the distance to the quotient is at most one, multiplied out -/
theorem roundEven_near (n : Nat) (hd : d ≠ 0) :
    2 * (roundEven n d * d) ≤ 2 * n + d ∧ 2 * n ≤ 2 * (roundEven n d * d) + d := by
  have hsplit := Nat.div_add_mod' n d
  have hrest := Nat.mod_lt n (Nat.pos_of_ne_zero hd)
  unfold roundEven
  dsimp only
  split
  · omega
  · split
    · rw [Nat.add_mul, Nat.one_mul]
      omega
    · -- halfway, the quotient is even or gets one more
      rcases Nat.mod_two_eq_zero_or_one (n / d) with heven | hodd
      · rw [heven, Nat.add_zero]
        omega
      · rw [hodd, Nat.add_mul, Nat.one_mul]
        omega

theorem roundEven_error (n : Nat) (hd : d ≠ 0) : |(roundEven n d : Rat) - n / d| ≤ 1 / 2 := by
  have hd0 : (0 : Rat) < d := Nat.cast_pos.2 (Nat.pos_of_ne_zero hd)
  obtain ⟨hup, hlow⟩ := roundEven_near n hd
  have hup' : (2 : Rat) * (roundEven n d * d) ≤ 2 * n + d := by exact_mod_cast hup
  have hlow' : (2 : Rat) * n ≤ 2 * (roundEven n d * d) + d := by exact_mod_cast hlow
  rw [abs_sub_le_iff, sub_le_iff_le_add, sub_le_iff_le_add]
  constructor
  · rw [← sub_le_iff_le_add', le_div_iff₀ hd0]
    linarith
  · rw [div_le_iff₀ hd0]
    linarith

/-- no whole number is nearer to the quotient: it would be at least one away from the rounded one -/
theorem roundEven_nearest (n : Nat) (hd : d ≠ 0) (m : Int) :
    |(roundEven n d : Rat) - n / d| ≤ |(m : Rat) - n / d| := by
  by_cases hm : (roundEven n d : Int) = m
  · rw [← hm, Int.cast_natCast]
  · have happart : (1 : Rat) ≤ |(roundEven n d : Rat) - m| := by
      exact_mod_cast Int.one_le_abs (sub_ne_zero.2 hm)
    have hvia := abs_sub_le (roundEven n d : Rat) (n / d) m
    have herror := roundEven_error n hd
    rw [abs_sub_comm ((n : Rat) / d)] at hvia
    linarith

theorem roundEven_le (n d : Nat) : roundEven n d ≤ n / d + 1 := by
  unfold roundEven
  dsimp only
  split
  · omega
  · split
    · omega
    · omega

/-! ## scaling -/

theorem cast_shiftLeft (n k : Nat) : ((n <<< k : Nat) : Rat) = n * 2 ^ k := by
  rw [Nat.shiftLeft_eq]
  push_cast
  rfl

theorem two_zpow_toNat (p : Int) : (2 : Rat) ^ p * 2 ^ (-p).toNat = 2 ^ p.toNat := by
  rw [← zpow_natCast, ← zpow_natCast, ← zpow_add₀ two_ne_zero]
  congr 1
  omega

/-- shifting numerator or denominator multiplies the quotient by a power of two -/
theorem shifted_div (n d : Nat) (p : Int) :
    ((n <<< (-p).toNat : Nat) : Rat) / (d <<< p.toNat : Nat) * 2 ^ p = n / d := by
  have hp := two_zpow_toNat p
  rw [cast_shiftLeft, cast_shiftLeft, ← hp]
  field_simp

theorem shifted_lt_iff (n : Nat) (hd : d ≠ 0) (p : Int) :
    n <<< (-p).toNat < d <<< p.toNat ↔ (n : Rat) / d < 2 ^ p := by
  have hd0 : (0 : Rat) < (d <<< p.toNat : Nat) := by
    rw [Nat.cast_pos, Nat.shiftLeft_eq]
    positivity
  have hp : (0 : Rat) < 2 ^ p := zpow_pos two_pos p
  rw [← shifted_div n d p, mul_lt_iff_lt_one_left hp, div_lt_one₀ hd0, Nat.cast_lt]

theorem two_zpow_log2 (hn : n ≠ 0) :
    (2 : Rat) ^ (n.log2 : Int) ≤ n ∧ (n : Rat) < 2 ^ ((n.log2 : Int) + 1) := by
  rw [← Nat.cast_succ, zpow_natCast, zpow_natCast]
  exact ⟨by exact_mod_cast Nat.log2_self_le hn, by exact_mod_cast Nat.lt_log2_self⟩

/-- the first binary digit of a quotient stands at `firstPlace` -/
theorem two_zpow_firstPlace (hn : n ≠ 0) (hd : d ≠ 0) :
    (2 : Rat) ^ firstPlace n d ≤ n / d ∧ (n : Rat) / d < 2 ^ (firstPlace n d + 1) := by
  have hd0 : (0 : Rat) < d := Nat.cast_pos.2 (Nat.pos_of_ne_zero hd)
  obtain ⟨hn1, hn2⟩ := two_zpow_log2 hn
  obtain ⟨hd1, hd2⟩ := two_zpow_log2 hd
  -- the first digits of numerator and denominator leave two places
  obtain ⟨p, hp⟩ : ∃ p : Int, p = n.log2 - d.log2 := ⟨_, rfl⟩
  have hlow : (2 : Rat) ^ (p - 1) ≤ n / d := by
    rw [le_div_iff₀ hd0]
    calc (2 : Rat) ^ (p - 1) * d ≤ 2 ^ (p - 1) * 2 ^ ((d.log2 : Int) + 1) := by gcongr
      _ = 2 ^ (n.log2 : Int) := by rw [← zpow_add₀ two_ne_zero, hp]; congr 1; ring
      _ ≤ n := hn1
  have hup : (n : Rat) / d < 2 ^ (p + 1) := by
    rw [div_lt_iff₀ hd0]
    calc (n : Rat) < 2 ^ ((n.log2 : Int) + 1) := hn2
      _ = 2 ^ (p + 1) * 2 ^ (d.log2 : Int) := by rw [← zpow_add₀ two_ne_zero, hp]; congr 1; ring
      _ ≤ 2 ^ (p + 1) * d := by gcongr
  have hplace : firstPlace n d = if (n : Rat) / d < 2 ^ p then p - 1 else p := by
    rw [firstPlace, ← hp]
    exact if_congr (shifted_lt_iff n hd p) rfl rfl
  rw [hplace]
  split
  · rename_i hlt
    rw [sub_add_cancel]
    exact ⟨hlow, hlt⟩
  · rename_i hge
    exact ⟨not_lt.1 hge, hup⟩

/-! ## rounded quotients -/

/-- numerator and denominator, scaled so that 53 digits of the quotient stand in front of the point -/
theorem exists_scaled (hn : n ≠ 0) (hd : d ≠ 0) : ∃ (N D : Nat) (last : Int), D ≠ 0 ∧
    (n : Rat) / d = N / D * 2 ^ last ∧ ratio n d = roundEven N D * 2 ^ last ∧
      2 ^ 52 ≤ (N : Rat) / D ∧ (N : Rat) / D < 2 ^ 53 := by
  obtain ⟨last, hlast⟩ : ∃ last : Int, last = firstPlace n d - 52 := ⟨_, rfl⟩
  have hpos : (0 : Rat) < 2 ^ last := zpow_pos two_pos last
  have hscaled := shifted_div n d last
  have hplaces (k : Nat) : (2 : Rat) ^ k * 2 ^ last = 2 ^ ((k : Int) + last) := by
    rw [zpow_add₀ two_ne_zero, zpow_natCast]
  obtain ⟨hlow, hup⟩ := two_zpow_firstPlace hn hd
  refine ⟨n <<< (-last).toNat, d <<< last.toNat, last, ?_, hscaled.symm, ?_, ?_, ?_⟩
  · rw [Nat.shiftLeft_eq]
    positivity
  · have hround := shifted_div (roundEven (n <<< (-last).toNat) (d <<< last.toNat)) 1 (-last)
    rw [neg_neg, Nat.cast_one, div_one, zpow_neg, mul_inv_eq_iff_eq_mul₀ hpos.ne'] at hround
    rw [ratio, ← hlast]
    exact hround
  · rw [← mul_le_mul_iff_left₀ hpos, hscaled, hplaces, hlast, Nat.cast_ofNat, add_sub_cancel]
    exact hlow
  · rw [← mul_lt_mul_iff_left₀ hpos, hscaled, hplaces, hlast, Nat.cast_ofNat, add_sub_left_comm]
    exact hup

theorem ratio_zero (d : Nat) : ratio 0 d = 0 := by
  simp [ratio, roundEven]

theorem isDouble_ratio (n : Nat) (hd : d ≠ 0) : IsDouble (ratio n d) := by
  rcases eq_or_ne n 0 with rfl | hn
  · exact ⟨0, 0, by norm_num, by rw [ratio_zero]; norm_num⟩
  · obtain ⟨N, D, last, hD, _, hratio, _, hlt⟩ := exists_scaled hn hd
    refine ⟨roundEven N D, last, ?_, by rw [hratio, Int.cast_natCast]⟩
    have hD0 : (0 : Rat) < D := Nat.cast_pos.2 (Nat.pos_of_ne_zero hD)
    have hN : N < 2 ^ 53 * D := by
      rw [div_lt_iff₀ hD0] at hlt
      exact_mod_cast hlt
    have hround := roundEven_le N D
    have hquot : N / D < 2 ^ 53 := (Nat.div_lt_iff_lt_mul (Nat.pos_of_ne_zero hD)).2 hN
    rw [Nat.abs_cast]
    exact_mod_cast (by omega : roundEven N D ≤ 2 ^ 53)

/-- no double is nearer to the quotient -/
theorem ratio_nearest (n : Nat) (hd : d ≠ 0) {x : Rat} (hx : IsDouble x) :
    |ratio n d - n / d| ≤ |x - n / d| := by
  rcases eq_or_ne n 0 with rfl | hn
  · rw [ratio_zero, Nat.cast_zero, zero_div, sub_zero, abs_zero]
    exact abs_nonneg _
  obtain ⟨N, D, last, hD, hquot, hratio, hlow, _⟩ := exists_scaled hn hd
  have hpos : (0 : Rat) < 2 ^ last := zpow_pos two_pos last
  have hnearest (k : Int) : |ratio n d - n / d| ≤ |(k : Rat) * 2 ^ last - n / d| := by
    rw [hratio, hquot, ← sub_mul, ← sub_mul, abs_mul, abs_mul]
    exact mul_le_mul_of_nonneg_right (roundEven_nearest N hD k) (abs_nonneg _)
  rcases hx.whole_or_le last with ⟨k, rfl⟩ | hx
  · exact hnearest k
  · -- the whole number `2 ^ 52` stands between the double and the quotient
    have hbetween : (2 : Rat) ^ 52 * 2 ^ last ≤ n / d := by
      rw [hquot]
      exact mul_le_mul_of_nonneg_right hlow hpos.le
    have hleast := hnearest (2 ^ 52)
    rw [Int.cast_pow, Int.cast_ofNat, abs_sub_comm (2 ^ 52 * 2 ^ last : Rat),
      abs_of_nonneg (sub_nonneg.2 hbetween)] at hleast
    rw [abs_sub_comm x]
    exact hleast.trans ((sub_le_sub_left hx _).trans (le_abs_self _))

/-- halfway between two doubles, the last digit decides -/
example : ratio (2 ^ 53 + 1) 1 = 2 ^ 53 ∧ ratio (2 ^ 53 + 3) 1 = 2 ^ 53 + 4 := by decide +kernel

/-- a quotient that is a double is not rounded -/
theorem ratio_of_isDouble (n : Nat) (hd : d ≠ 0) (hx : IsDouble ((n : Rat) / d)) :
    ratio n d = n / d := by
  have hnear := ratio_nearest n hd hx
  rw [sub_self, abs_zero] at hnear
  exact sub_eq_zero.1 (abs_nonpos_iff.1 hnear)

/-- rounding takes or adds at most one part in `2 ^ 53` -/
theorem ratio_error (n : Nat) (hd : d ≠ 0) : |ratio n d - n / d| ≤ n / d / 2 ^ 53 := by
  rcases eq_or_ne n 0 with rfl | hn
  · rw [ratio_zero, Nat.cast_zero, zero_div, sub_zero, abs_zero, zero_div]
  · obtain ⟨N, D, last, hD, hquot, hratio, hlow, _⟩ := exists_scaled hn hd
    have hpos : (0 : Rat) < 2 ^ last := zpow_pos two_pos last
    rw [hratio, hquot, ← sub_mul, abs_mul, abs_of_pos hpos, mul_div_right_comm]
    gcongr
    have herror := roundEven_error N hD
    linarith

/-- different quotients differ by one part in the product of their denominators at least, which is more than
rounding takes if numerators and denominators are small -/
theorem ratio_lt_ratio {n' d' : Nat} (hd : d ≠ 0) (hd' : d' ≠ 0) (hlt : n * d' < n' * d)
    (hsmall : n * d' + n' * d < 2 ^ 53) : ratio n d < ratio n' d' := by
  have hd0 : (0 : Rat) < d := Nat.cast_pos.2 (Nat.pos_of_ne_zero hd)
  have hd0' : (0 : Rat) < d' := Nat.cast_pos.2 (Nat.pos_of_ne_zero hd')
  have hnum : ((n * d' : Nat) : Rat) + (n' * d : Nat) < ((n' * d : Nat) - (n * d' : Nat)) * 2 ^ 53 := by
    have hone : ((n * d' : Nat) : Rat) + 1 ≤ (n' * d : Nat) := by exact_mod_cast hlt
    have hsum : ((n * d' : Nat) : Rat) + (n' * d : Nat) < 2 ^ 53 := by exact_mod_cast hsmall
    linarith
  have hdiff : ((n : Rat) / d + n' / d') / 2 ^ 53 < n' / d' - n / d := by
    -- over the common denominator
    rw [← mul_div_mul_right (n : Rat) d hd0'.ne', ← mul_div_mul_left (n' : Rat) d' hd0.ne', ← add_div,
      ← sub_div, div_right_comm, div_lt_div_iff_of_pos_right (mul_pos hd0 hd0'), div_lt_iff₀ (by norm_num),
      mul_comm (d : Rat)]
    exact_mod_cast hnum
  have hlow := (abs_sub_le_iff.1 (ratio_error n hd)).1
  have hup := (abs_sub_le_iff.1 (ratio_error n' hd')).2
  rw [add_div] at hdiff
  linarith

end

end LayeredDrawing.Binary64
