import LayeredDrawing.Route
import LayeredDrawing.Scalar.Exact
import Mathlib.Algebra.Order.Field.Basic
import Mathlib.Algebra.Order.Field.Rat
import Mathlib.Data.List.Chain
import Mathlib.Tactic.FieldSimp
import Mathlib.Tactic.Linarith
import Mathlib.Tactic.Ring

/-!
# Polylines

A route is drawn as the polyline through its points.  Over the rationals, a polyline that leads from
left to right meets a vertical line through one of its points nowhere else.

* `OnSegment p q r`    the point `r` lies on the segment from `p` to `q`;
* `Traces line r`      it lies on the polyline;
* `Rightward line`     each point is to the right of the one before;
* `eq_of_traces`       the only point of a rightward polyline above a vertex is the vertex;
* `traces_cons_cons`   a point of a segment may be left out.
-/

namespace LayeredDrawing

def OnSegment (p q r : Point Rat) : Prop :=
  ∃ t : Rat, 0 ≤ t ∧ t ≤ 1 ∧ r.x = p.x + t * (q.x - p.x) ∧ r.y = p.y + t * (q.y - p.y)

def Traces : List (Point Rat) → Point Rat → Prop
  | [], _ => False
  | [p], r => r = p
  | p :: q :: rest, r => OnSegment p q r ∨ Traces (q :: rest) r

def Rightward (line : List (Point Rat)) : Prop := line.Pairwise fun p q => p.x < q.x

instance (line : List (Point Rat)) : Decidable (Rightward line) :=
  inferInstanceAs (Decidable (line.Pairwise fun p q => p.x < q.x))

theorem Point.ext_iff' {p q : Point Rat} : p = q ↔ p.x = q.x ∧ p.y = q.y := by
  cases p
  cases q
  simp

/-! ## segments -/

section
variable {p q r m : Point Rat}

theorem onSegment_left (p q : Point Rat) : OnSegment p q p := ⟨0, le_refl 0, by norm_num, by ring, by ring⟩

/-- a segment that leads to the right stays between its ends -/
theorem OnSegment.between (h : OnSegment p q r) (hpq : p.x < q.x) : p.x ≤ r.x ∧ r.x ≤ q.x := by
  obtain ⟨t, h0, h1, hx, _⟩ := h
  have hd : 0 ≤ q.x - p.x := by linarith
  have hlow : 0 ≤ t * (q.x - p.x) := mul_nonneg h0 hd
  have hhigh : t * (q.x - p.x) ≤ 1 * (q.x - p.x) := mul_le_mul_of_nonneg_right h1 hd
  constructor <;> linarith

theorem OnSegment.eq_left (h : OnSegment p q r) (hpq : p.x < q.x) (hr : r.x = p.x) : r = p := by
  obtain ⟨t, _, _, hx, hy⟩ := h
  have hd : q.x - p.x ≠ 0 := by linarith
  have ht : t = 0 := by
    have hmul : t * (q.x - p.x) = 0 := by linarith
    exact (mul_eq_zero.1 hmul).resolve_right hd
  refine Point.ext_iff'.2 ⟨hr, ?_⟩
  rw [hy, ht]
  ring

theorem OnSegment.eq_right (h : OnSegment p q r) (hpq : p.x < q.x) (hr : r.x = q.x) : r = q := by
  obtain ⟨t, _, _, hx, hy⟩ := h
  have hd : q.x - p.x ≠ 0 := by linarith
  have ht : t - 1 = 0 := by
    have hmul : (t - 1) * (q.x - p.x) = 0 := by linarith
    exact (mul_eq_zero.1 hmul).resolve_right hd
  refine Point.ext_iff'.2 ⟨hr, ?_⟩
  rw [hy, sub_eq_zero.1 ht]
  ring

/-- a point of a segment cuts it into two -/
theorem OnSegment.split (hm : OnSegment p q m) (hr : OnSegment p q r) :
    OnSegment p m r ∨ OnSegment m q r := by
  obtain ⟨t, h0, h1, hx, hy⟩ := hm
  obtain ⟨s, hs0, hs1, hrx, hry⟩ := hr
  by_cases hst : s ≤ t
  · left
    by_cases ht : t = 0
    · have hs : s = 0 := by linarith
      refine ⟨0, le_refl 0, by norm_num, ?_, ?_⟩
      · rw [hrx, hs]
        ring
      · rw [hry, hs]
        ring
    · have hpos : 0 < t := lt_of_le_of_ne h0 (Ne.symm ht)
      refine ⟨s / t, div_nonneg hs0 h0, (div_le_one hpos).2 hst, ?_, ?_⟩
      · rw [hrx, hx]
        field_simp
        ring
      · rw [hry, hy]
        field_simp
        ring
  · right
    have hts : t < s := not_le.1 hst
    have hpos : 0 < 1 - t := by linarith
    have hne : 1 - t ≠ 0 := hpos.ne'
    refine ⟨(s - t) / (1 - t), div_nonneg (by linarith) hpos.le,
      (div_le_one hpos).2 (by linarith), ?_, ?_⟩
    · rw [hrx, hx]
      field_simp
      ring
    · rw [hry, hy]
      field_simp
      ring

theorem OnSegment.of_left (hm : OnSegment p q m) (hr : OnSegment p m r) : OnSegment p q r := by
  obtain ⟨t, h0, h1, hx, hy⟩ := hm
  obtain ⟨s, hs0, hs1, hrx, hry⟩ := hr
  refine ⟨s * t, mul_nonneg hs0 h0, mul_le_one₀ hs1 h0 h1, ?_, ?_⟩
  · rw [hrx, hx]
    ring
  · rw [hry, hy]
    ring

theorem OnSegment.of_right (hm : OnSegment p q m) (hr : OnSegment m q r) : OnSegment p q r := by
  obtain ⟨t, h0, h1, hx, hy⟩ := hm
  obtain ⟨s, hs0, hs1, hrx, hry⟩ := hr
  have hle : s * (1 - t) ≤ 1 * (1 - t) := mul_le_mul_of_nonneg_right hs1 (by linarith)
  have hnonneg : 0 ≤ s * (1 - t) := mul_nonneg hs0 (by linarith)
  refine ⟨t + s * (1 - t), by linarith, by linarith, ?_, ?_⟩
  · rw [hrx, hx]
    ring
  · rw [hry, hy]
    ring

theorem onSegment_cut (hm : OnSegment p q m) :
    OnSegment p q r ↔ OnSegment p m r ∨ OnSegment m q r := by
  constructor
  · exact hm.split
  · intro hr
    rcases hr with hr | hr
    · exact hm.of_left hr
    · exact hm.of_right hr

end

/-! ## lines -/

/-- a point of the line is not to the left of its start -/
theorem Traces.le {p r : Point Rat} {rest : List (Point Rat)} (h : Traces (p :: rest) r)
    (hright : Rightward (p :: rest)) : p.x ≤ r.x := by
  induction rest generalizing p with
  | nil =>
    have hr : r = p := h
    rw [hr]
  | cons q rest ih =>
    have hpq : p.x < q.x := List.rel_of_pairwise_cons hright List.mem_cons_self
    rcases h with h | h
    · exact (h.between hpq).1
    · exact hpq.le.trans (ih h (List.Pairwise.of_cons hright))

theorem traces_of_mem {line : List (Point Rat)} {r : Point Rat} (h : r ∈ line) : Traces line r := by
  match line with
  | [] => cases h
  | [p] => exact List.mem_singleton.1 h
  | p :: q :: rest =>
    rcases List.mem_cons.1 h with rfl | h
    · exact .inl (onSegment_left r q)
    · exact .inr (traces_of_mem h)

theorem eq_of_traces {line : List (Point Rat)} {p r : Point Rat} (hright : Rightward line)
    (hp : p ∈ line) (hr : Traces line r) (hx : r.x = p.x) : r = p := by
  match line with
  | [] => cases hp
  | [a] =>
    rw [List.mem_singleton.1 hp]
    exact hr
  | a :: b :: rest =>
    have hab : a.x < b.x := List.rel_of_pairwise_cons hright List.mem_cons_self
    have hrest : Rightward (b :: rest) := List.Pairwise.of_cons hright
    rcases hr with hr | hr
    · rcases List.mem_cons.1 hp with rfl | hp
      · exact hr.eq_left hab hx
      · rcases List.mem_cons.1 hp with rfl | hp
        · exact hr.eq_right hab hx
        · have hbp : b.x < p.x := List.rel_of_pairwise_cons hrest hp
          have hle := (hr.between hab).2
          linarith
    · rcases List.mem_cons.1 hp with rfl | hp
      · have hle := hr.le hrest
        linarith
      · exact eq_of_traces hrest hp hr hx

/-- a rightward line crosses the vertical line through one of its points there and nowhere else -/
theorem traces_above_iff {line : List (Point Rat)} {p : Point Rat} (hright : Rightward line)
    (hp : p ∈ line) {z : Rat} : Traces line ⟨p.x, z⟩ ↔ z = p.y := by
  constructor
  · intro h
    exact congrArg Point.y (eq_of_traces hright hp h rfl)
  · rintro rfl
    exact traces_of_mem hp

theorem traces_cons_cons {p m q r : Point Rat} {rest : List (Point Rat)} (h : OnSegment p q m) :
    Traces (p :: m :: q :: rest) r ↔ Traces (p :: q :: rest) r := by
  show OnSegment p m r ∨ OnSegment m q r ∨ Traces (q :: rest) r
    ↔ OnSegment p q r ∨ Traces (q :: rest) r
  rw [onSegment_cut h, or_assoc]

end LayeredDrawing
