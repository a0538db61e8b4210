import LayeredDrawing.Proofs.Route.Thinned
import Mathlib.Analysis.PSeries
import Mathlib.NumberTheory.Harmonic.Defs

/-!
# Routes cleaned with a tolerance

A bend is judged by the next point of the route as it came in.  If that point goes in turn, the segment
swings on to the point behind it, and what went before swings along: the deviations of bends left out in a
row add up.  And a segment is extended at either end by the tolerance times its length, so along a steep one
a bend goes that lies well above both of its neighbours.

Measured straight up or down, what one bend adds is the tolerance times one more than the steepness of the
route (`clean_drift`).  No multiple of the tolerance bounds the sum, however flat the route
(`drift_unbounded`), and twice the tolerance is exceeded by a single bend of a steep one
(`not_clean_overshoot`).

* `Gentle m line`      no two points of the line are joined more steeply than `m`;
* `Route.steepness`    the steepest slope of a line;
* `Route.lost`         how many bends are left out in a row;
* `clean_cons`         what cleaning does to one bend;
* `exists_lost`        a bend left out stays near the segment between the points kept;
* `sagging`            a route that sags further below its chord the longer it gets.
-/

namespace LayeredDrawing

open Scalar

/-! ## slopes -/

def Gentle (m : Rat) (line : List (Point Rat)) : Prop :=
  line.Pairwise fun p q => |q.y - p.y| ≤ m * (q.x - p.x)

/-- the steepest slope of a line that leads to the right, upwards or downwards -/
def Route.steepness : List (Point Rat) → Rat
  | p :: q :: rest => max (|q.y - p.y| / (q.x - p.x)) (steepness (q :: rest))
  | _ => 0

theorem steepness_nonneg (line : List (Point Rat)) : 0 ≤ Route.steepness line := by
  match line with
  | [] => exact le_refl 0
  | [_] => exact le_refl 0
  | p :: q :: rest => exact le_max_of_le_right (steepness_nonneg (q :: rest))

theorem gentle_iff_isChain {m : Rat} {line : List (Point Rat)} :
    Gentle m line ↔ line.IsChain fun p q => |q.y - p.y| ≤ m * (q.x - p.x) := by
  let R : Point Rat → Point Rat → Prop := fun p q => |q.y - p.y| ≤ m * (q.x - p.x)
  have htrans {a b c : Point Rat} (hab : R a b) (hbc : R b c) : R a c := by
    have habs : |c.y - a.y| ≤ |c.y - b.y| + |b.y - a.y| := abs_sub_le c.y b.y a.y
    show |c.y - a.y| ≤ m * (c.x - a.x)
    linarith
  have : Trans R R R := ⟨htrans⟩
  exact List.isChain_iff_pairwise.symm

theorem gentle_of_steepness_le {m : Rat} {line : List (Point Rat)} (hright : Rightward line)
    (hm : Route.steepness line ≤ m) : Gentle m line := by
  rw [gentle_iff_isChain]
  match line with
  | [] => exact .nil
  | [p] => exact .singleton p
  | p :: q :: rest =>
    obtain ⟨hfirst, hrest⟩ := max_le_iff.1 hm
    have hpq : 0 < q.x - p.x := sub_pos.2 (List.rel_of_pairwise_cons hright List.mem_cons_self)
    refine .cons_cons ((div_le_iff₀ hpq).1 hfirst) ?_
    exact gentle_iff_isChain.1 (gentle_of_steepness_le (List.Pairwise.of_cons hright) hrest)

theorem gentle_steepness {line : List (Point Rat)} (hright : Rightward line) :
    Gentle (Route.steepness line) line :=
  gentle_of_steepness_le hright (le_refl _)

/-! ## along a segment -/

section
variable {a p q n r finish : Point Rat} {m tol d e : Rat}

/-- a point of a segment is not further up or down from either end than the slope says -/
theorem OnSegment.gentle (h : OnSegment a q r) (hm : |q.y - a.y| ≤ m * (q.x - a.x)) :
    |r.y - a.y| ≤ m * (r.x - a.x) ∧ |q.y - r.y| ≤ m * (q.x - r.x) := by
  obtain ⟨t, h0, h1, hx, hy⟩ := h
  have h1' : 0 ≤ 1 - t := sub_nonneg.2 h1
  have hlow : r.y - a.y = t * (q.y - a.y) := by linarith
  have hhigh : q.y - r.y = (1 - t) * (q.y - a.y) := by linarith
  constructor
  · calc |r.y - a.y| = t * |q.y - a.y| := by rw [hlow, abs_mul, abs_of_nonneg h0]
      _ ≤ t * (m * (q.x - a.x)) := mul_le_mul_of_nonneg_left hm h0
      _ = m * (r.x - a.x) := by rw [hx]; ring
  · calc |q.y - r.y| = (1 - t) * |q.y - a.y| := by rw [hhigh, abs_mul, abs_of_nonneg h1']
      _ ≤ (1 - t) * (m * (q.x - a.x)) := mul_le_mul_of_nonneg_left hm h1'
      _ = m * (q.x - r.x) := by rw [hx]; ring

theorem exists_fraction {x y z : Rat} (hxy : x < y) (hyz : y < z) :
    ∃ t, 0 ≤ t ∧ t ≤ 1 ∧ t * (z - x) = y - x := by
  have hlength : 0 < z - x := sub_pos.2 (hxy.trans hyz)
  refine ⟨(y - x) / (z - x), div_nonneg (sub_nonneg.2 hxy.le) hlength.le, ?_, div_mul_cancel₀ _ hlength.ne'⟩
  rw [div_le_one hlength]
  linarith

/-- a segment has a point above or below every place between its ends -/
theorem exists_onSegment_above (hap : a.x < p.x) (hpq : p.x < q.x) : ∃ r, OnSegment a q r ∧ r.x = p.x := by
  obtain ⟨t, h0, h1, ht⟩ := exists_fraction hap hpq
  refine ⟨a.toward q t, onSegment_iff_toward.2 ⟨t, h0, h1, rfl⟩, ?_⟩
  show a.x + t * (q.x - a.x) = p.x
  linarith

theorem near_iff : p.near tol q = true ↔ |p.x - q.x| ≤ tol ∧ |p.y - q.y| ≤ tol := by
  rw [Point.near, Bool.and_eq_true, decide_eq_true_iff, decide_eq_true_iff, abs_rat, abs_rat]

/-- a bend near the last point kept -/
theorem drift_of_near_start (hm0 : 0 ≤ m) (hap : a.x < p.x) (hpq : p.x < q.x)
    (hm : |q.y - a.y| ≤ m * (q.x - a.x)) (h : p.near tol a = true) :
    ∃ r, OnSegment a q r ∧ r.x = p.x ∧ |p.y - r.y| ≤ (1 + m) * tol := by
  obtain ⟨hx, hy⟩ := near_iff.1 h
  obtain ⟨r, hr, hrx⟩ := exists_onSegment_above hap hpq
  have hreach : m * (r.x - a.x) ≤ m * tol := by
    rw [hrx]
    exact mul_le_mul_of_nonneg_left ((le_abs_self _).trans hx) hm0
  refine ⟨r, hr, hrx, ?_⟩
  calc |p.y - r.y| ≤ |p.y - a.y| + |a.y - r.y| := abs_sub_le _ _ _
    _ ≤ tol + m * tol := add_le_add hy ((abs_sub_comm _ _).trans_le ((hr.gentle hm).1.trans hreach))
    _ = (1 + m) * tol := by ring

/-- a bend near the end, whatever the next point kept is -/
theorem drift_of_near_finish (hm0 : 0 ≤ m) (hap : a.x < p.x) (hpq : p.x < q.x)
    (hm : |q.y - a.y| ≤ m * (q.x - a.x)) (hfinish : |finish.y - q.y| ≤ m * (finish.x - q.x))
    (h : p.near tol finish = true) :
    ∃ r, OnSegment a q r ∧ r.x = p.x ∧ |p.y - r.y| ≤ (1 + m) * tol := by
  obtain ⟨hx, hy⟩ := near_iff.1 h
  obtain ⟨r, hr, hrx⟩ := exists_onSegment_above hap hpq
  have hreach : m * (finish.x - r.x) ≤ m * tol := by
    rw [hrx]
    exact mul_le_mul_of_nonneg_left ((neg_le_abs _).trans' (by linarith) |>.trans hx) hm0
  have hbend : |finish.y - r.y| ≤ m * (finish.x - r.x) :=
    calc |finish.y - r.y| ≤ |finish.y - q.y| + |q.y - r.y| := abs_sub_le _ _ _
      _ ≤ m * (finish.x - q.x) + m * (q.x - r.x) := add_le_add hfinish (hr.gentle hm).2
      _ = m * (finish.x - r.x) := by ring
  refine ⟨r, hr, hrx, ?_⟩
  calc |p.y - r.y| ≤ |p.y - finish.y| + |finish.y - r.y| := abs_sub_le _ _ _
    _ ≤ tol + m * tol := add_le_add hy (hbend.trans hreach)
    _ = (1 + m) * tol := by ring

/-- how far to the side a bend that goes can be -/
theorem abs_aside_le (htol : 0 ≤ tol) (hm0 : 0 ≤ m) (han : a.x < n.x)
    (hm : |n.y - a.y| ≤ m * (n.x - a.x)) (h : Point.onSegment tol a p n = .ok true) :
    |a.aside n p| ≤ (1 + m) * tol * (n.x - a.x) := by
  have hlength : 0 ≤ n.x - a.x := (sub_pos.2 han).le
  rw [onSegment_eq a n p htol, Except.ok.injEq, decide_eq_true_iff] at h
  have hrise : (n.y - a.y) * (n.y - a.y) ≤ m * (n.x - a.x) * (m * (n.x - a.x)) :=
    abs_mul_abs_self (n.y - a.y) ▸ mul_self_le_mul_self (abs_nonneg _) hm
  have hsquare : a.squareTo n ≤ (1 + m) * (n.x - a.x) * ((1 + m) * (n.x - a.x)) :=
    calc a.squareTo n ≤ (n.x - a.x) * (n.x - a.x) + m * (n.x - a.x) * (m * (n.x - a.x)) :=
          add_le_add_right hrise _
      _ ≤ (1 + m) * (n.x - a.x) * ((1 + m) * (n.x - a.x)) := by
          have hextra : 0 ≤ 2 * m * ((n.x - a.x) * (n.x - a.x)) :=
            mul_nonneg (mul_nonneg zero_le_two hm0) (mul_self_nonneg _)
          linarith
  refine abs_le_of_sq_le_sq ?_ (mul_nonneg (mul_nonneg (by linarith) htol) hlength)
  rw [sq, sq]
  calc a.aside n p * a.aside n p ≤ tol * tol * a.squareTo n := h.2.1
    _ ≤ tol * tol * ((1 + m) * (n.x - a.x) * ((1 + m) * (n.x - a.x))) :=
        mul_le_mul_of_nonneg_left hsquare (mul_self_nonneg tol)
    _ = (1 + m) * tol * (n.x - a.x) * ((1 + m) * tol * (n.x - a.x)) := by ring

/-- a bend judged by a point that strays itself: what it adds is on top of that -/
theorem drift_of_aside (hap : a.x < p.x) (hpn : p.x < n.x) (hr : OnSegment a q r) (hrn : r.x = n.x)
    (hstray : |n.y - r.y| ≤ e) (haside : |a.aside n p| ≤ d * (n.x - a.x)) :
    ∃ r', OnSegment a q r' ∧ r'.x = p.x ∧ |p.y - r'.y| ≤ e + d := by
  have hlength : 0 < n.x - a.x := sub_pos.2 (hap.trans hpn)
  obtain ⟨t, ht0, ht1, hstep⟩ := exists_fraction hap hpn
  refine ⟨a.toward r t, hr.of_left (onSegment_iff_toward.2 ⟨t, ht0, ht1, rfl⟩), ?_, ?_⟩
  · show a.x + t * (r.x - a.x) = p.x
    rw [hrn]
    linarith
  · -- the part of the bend itself, and the part of the next point
    have hsplit : p.y - (a.toward r t).y = t * (n.y - r.y) + a.aside n p / (n.x - a.x) := by
      show p.y - (a.y + t * (r.y - a.y)) = _
      rw [← sub_eq_iff_eq_add', eq_div_iff hlength.ne', Point.aside]
      linear_combination -(n.y - a.y) * hstep
    have hown : |a.aside n p / (n.x - a.x)| ≤ d := by
      rw [abs_div, abs_of_pos hlength]
      exact (div_le_iff₀ hlength).2 haside
    calc |p.y - (a.toward r t).y| ≤ |t * (n.y - r.y)| + |a.aside n p / (n.x - a.x)| :=
          hsplit ▸ abs_add_le _ _
      _ ≤ e + d := by
          refine add_le_add ?_ hown
          rw [abs_mul, abs_of_nonneg ht0]
          exact (mul_le_of_le_one_left (abs_nonneg _) ht1).trans hstray

end

/-! ## bends left out in a row -/

/-- how many bends are left out in a row, from the first one on -/
def Route.lost (kept bends : List (Point Rat)) : Nat := (bends.takeWhile fun p => p ∉ kept).length

theorem lost_cons_of_mem {kept : List (Point Rat)} {p : Point Rat} (h : p ∈ kept)
    (rest : List (Point Rat)) : Route.lost kept (p :: rest) = 0 := by
  rw [Route.lost, List.takeWhile_cons_of_neg (by simpa using h)]
  rfl

theorem lost_cons_of_not_mem {kept : List (Point Rat)} {p : Point Rat} (h : p ∉ kept)
    (rest : List (Point Rat)) : Route.lost kept (p :: rest) = Route.lost kept rest + 1 := by
  rw [Route.lost, List.takeWhile_cons_of_pos (by simpa using h)]
  rfl

/-- what has been kept before does not matter -/
theorem lost_of_not_mem {kept bends : List (Point Rat)} {f : Point Rat} (hf : f ∉ bends) :
    Route.lost (f :: kept) bends = Route.lost kept bends := by
  induction bends with
  | nil => rfl
  | cons b rest ih =>
    obtain ⟨hb, hrest⟩ := not_or.1 (mt List.mem_cons.2 hf)
    by_cases hmem : b ∈ kept
    · rw [lost_cons_of_mem (List.mem_cons_of_mem f hmem), lost_cons_of_mem hmem]
    · have hnot : b ∉ f :: kept := List.not_mem_cons_of_ne_of_not_mem (Ne.symm hb) hmem
      rw [lost_cons_of_not_mem hnot, lost_cons_of_not_mem hmem, ih hrest]

/-- the line of a route leads to the right, and nowhere steeply -/
structure GentleRoute (m : Rat) (start : Point Rat) (bends : List (Point Rat)) (finish : Point Rat) : Prop where
  right : Rightward (Route.line start bends finish)
  gentle : Gentle m (Route.line start bends finish)

section
variable {start finish p : Point Rat} {bends kept rest : List (Point Rat)} {m tol : Rat}

/-- either a bend goes, for one of three reasons, or it is kept and the rest is cleaned from there -/
theorem clean_cons (htol : 0 ≤ tol) (h : Route.clean tol start (p :: rest) finish = .ok kept) :
    ((p.near tol start = true ∨ p.near tol finish = true ∨
        Point.onSegment tol start p (Route.following rest finish) = .ok true) ∧
      Route.clean tol start rest finish = .ok kept) ∨
    ∃ kept', kept = p :: kept' ∧ Route.clean tol p rest finish = .ok kept' := by
  rw [Route.clean] at h
  split at h
  · rename_i hnear
    rw [Bool.or_eq_true] at hnear
    exact .inl ⟨hnear.imp_right .inl, h⟩
  · obtain ⟨answer, hanswer⟩ := onSegment_of_nonneg htol start p (Route.following rest finish)
    rw [hanswer] at h
    cases answer with
    | true => exact .inl ⟨.inr (.inr hanswer), h⟩
    | false =>
      obtain ⟨kept', hkept'⟩ := clean_of_nonneg htol p rest finish
      simp only [bind, Except.bind, hkept'] at h
      exact .inr ⟨kept', (Except.ok.inj h).symm, hkept'⟩

theorem clean_sublist (htol : 0 ≤ tol) (h : Route.clean tol start bends finish = .ok kept) :
    kept.Sublist bends := by
  induction bends generalizing start kept with
  | nil =>
    obtain rfl := Except.ok.inj h
    exact .slnil
  | cons p rest ih =>
    rcases clean_cons htol h with ⟨_, hrest⟩ | ⟨kept', rfl, hrest⟩
    · exact (ih hrest).cons p
    · exact (ih hrest).cons_cons p

theorem GentleRoute.sublist (h : GentleRoute m start bends finish) (hkept : kept.Sublist bends) :
    GentleRoute m start kept finish :=
  have hline := (hkept.append_right [finish]).cons_cons start
  ⟨h.right.sublist hline, h.gentle.sublist hline⟩

theorem GentleRoute.tail (h : GentleRoute m start (p :: rest) finish) : GentleRoute m p rest finish :=
  ⟨List.Pairwise.of_cons h.right, List.Pairwise.of_cons h.gentle⟩

theorem GentleRoute.drop (h : GentleRoute m start (p :: rest) finish) : GentleRoute m start rest finish :=
  h.sublist (List.sublist_cons_self p rest)

theorem GentleRoute.lt_following (h : GentleRoute m start bends finish) : start.x < (Route.following bends finish).x := by
  cases bends with
  | nil => exact List.rel_of_pairwise_cons h.right List.mem_cons_self
  | cons q rest => exact List.rel_of_pairwise_cons h.right List.mem_cons_self

theorem GentleRoute.slope_following (h : GentleRoute m start bends finish) :
    |(Route.following bends finish).y - start.y| ≤ m * ((Route.following bends finish).x - start.x) := by
  cases bends with
  | nil => exact List.rel_of_pairwise_cons h.gentle List.mem_cons_self
  | cons q rest => exact List.rel_of_pairwise_cons h.gentle List.mem_cons_self

theorem GentleRoute.slope_finish (h : GentleRoute m start bends finish) :
    |finish.y - (Route.following bends finish).y| ≤ m * (finish.x - (Route.following bends finish).x) := by
  cases bends with
  | nil =>
    show |finish.y - finish.y| ≤ m * (finish.x - finish.x)
    rw [sub_self, sub_self, abs_zero, mul_zero]
  | cons q rest =>
    have hmem : finish ∈ rest ++ [finish] := List.mem_append_right rest (List.mem_singleton_self finish)
    exact List.rel_of_pairwise_cons h.tail.gentle hmem

/-- a bend is to the left of all that follows, so it is not among it -/
theorem GentleRoute.not_mem (h : GentleRoute m start (p :: rest) finish) : p ∉ rest := by
  intro hmem
  exact lt_irrefl p.x (List.rel_of_pairwise_cons h.tail.right (List.mem_append_left [finish] hmem))

/-- the point kept next is not before the next point of the route as it came in -/
theorem GentleRoute.lt_kept (h : GentleRoute m start (p :: rest) finish) (hkept : kept.Sublist rest) :
    p.x < (Route.following kept finish).x := (h.tail.sublist hkept).lt_following

/-- The next point of a route is one of those left out in a row, or kept.  Each of them adds the same to
what the points behind it stray from the segment between the points kept. -/
theorem exists_lost (htol : 0 ≤ tol) (hm : 0 ≤ m) (h : GentleRoute m start bends finish)
    (hok : Route.clean tol start bends finish = .ok kept) :
    ∃ r, OnSegment start (Route.following kept finish) r ∧ r.x = (Route.following bends finish).x ∧
      |(Route.following bends finish).y - r.y| ≤ Route.lost kept bends * ((1 + m) * tol) := by
  have hd : 0 ≤ (1 + m) * tol := mul_nonneg (by linarith) htol
  induction bends with
  | nil =>
    obtain rfl := Except.ok.inj hok
    refine ⟨finish, onSegment_right start finish, rfl, ?_⟩
    show |finish.y - finish.y| ≤ ((0 : Nat) : Rat) * _
    simp
  | cons p rest ih =>
    rcases clean_cons htol hok with ⟨hreason, hrest⟩ | ⟨kept', rfl, _⟩
    · have hsub : kept.Sublist rest := clean_sublist htol hrest
      have hkept : GentleRoute m start kept finish := h.drop.sublist hsub
      have hap : start.x < p.x := h.lt_following
      have hpq : p.x < (Route.following kept finish).x := h.lt_kept hsub
      obtain ⟨r, hr, hrx, hstray⟩ := ih h.drop hrest
      have hlost : ((Route.lost kept (p :: rest) : Nat) : Rat) * ((1 + m) * tol)
          = Route.lost kept rest * ((1 + m) * tol) + (1 + m) * tol := by
        rw [lost_cons_of_not_mem fun hp => h.not_mem (hsub.subset hp)]
        push_cast
        ring
      show ∃ r, OnSegment start _ r ∧ r.x = p.x ∧ |p.y - r.y| ≤ _
      rw [hlost]
      -- two of the reasons do not depend on the points behind
      have hnear {r : Point Rat} (hle : |p.y - r.y| ≤ (1 + m) * tol) :
          |p.y - r.y| ≤ Route.lost kept rest * ((1 + m) * tol) + (1 + m) * tol :=
        hle.trans (le_add_of_nonneg_left (mul_nonneg (Nat.cast_nonneg _) hd))
      rcases hreason with hstart | hfinish | hsegment
      · obtain ⟨r, hr, hrx, hle⟩ := drift_of_near_start hm hap hpq hkept.slope_following hstart
        exact ⟨r, hr, hrx, hnear hle⟩
      · obtain ⟨r, hr, hrx, hle⟩ :=
          drift_of_near_finish hm hap hpq hkept.slope_following hkept.slope_finish hfinish
        exact ⟨r, hr, hrx, hnear hle⟩
      · have haside := abs_aside_le htol hm h.drop.lt_following h.drop.slope_following hsegment
        exact drift_of_aside hap h.tail.lt_following hr hrx hstray haside
    · refine ⟨p, onSegment_right start p, rfl, ?_⟩
      rw [lost_cons_of_mem List.mem_cons_self, Nat.cast_zero, zero_mul]
      show |p.y - p.y| ≤ 0
      rw [sub_self, abs_zero]

theorem OnSegment.traces {r : Point Rat}
    (h : OnSegment start (Route.following kept finish) r) : Traces (Route.line start kept finish) r := by
  cases kept with
  | nil => exact .inl h
  | cons q kept => exact .inl h

/-- what holds of the first bend holds of each, because the points kept before it do not matter -/
theorem exists_lost_of_append (htol : 0 ≤ tol) (hm : 0 ≤ m) {front : List (Point Rat)}
    (h : GentleRoute m start (front ++ p :: rest) finish)
    (hok : Route.clean tol start (front ++ p :: rest) finish = .ok kept) :
    ∃ r, Traces (Route.line start kept finish) r ∧ r.x = p.x ∧
      |p.y - r.y| ≤ Route.lost kept (p :: rest) * ((1 + m) * tol) := by
  induction front generalizing start kept with
  | nil =>
    obtain ⟨r, hr, hrx, hle⟩ := exists_lost htol hm h hok
    exact ⟨r, hr.traces, hrx, hle⟩
  | cons f front ih =>
    rcases clean_cons htol hok with ⟨_, hrest⟩ | ⟨kept', rfl, hrest⟩
    · exact ih h.drop hrest
    · obtain ⟨r, hr, hrx, hle⟩ := ih h.tail hrest
      have hf : f ∉ p :: rest := fun hmem => h.not_mem (List.mem_append_right front hmem)
      refine ⟨r, .inr hr, hrx, ?_⟩
      rw [lost_of_not_mem hf]
      exact hle

end

/-- Cleaning succeeds, and the line of what it keeps passes above or below every bend that came in, no
further away than the tolerance, for each of the bends left out in a row from this one on, times one more
than the steepness of the route.  A bend that is kept lies on the line. -/
theorem clean_drift {tol : Rat} (htol : 0 ≤ tol) {start finish : Point Rat} {bends : List (Point Rat)}
    (hright : Rightward (Route.line start bends finish)) :
    ∃ kept, Route.clean tol start bends finish = .ok kept ∧ kept.Sublist bends ∧
      ∀ front p rest, bends = front ++ p :: rest →
        ∃ r, Traces (Route.line start kept finish) r ∧ r.x = p.x ∧
          |p.y - r.y| ≤ Route.lost kept (p :: rest) *
            ((1 + Route.steepness (Route.line start bends finish)) * tol) := by
  obtain ⟨kept, hkept⟩ := clean_of_nonneg htol start bends finish
  refine ⟨kept, hkept, clean_sublist htol hkept, fun front p rest hbends => ?_⟩
  have hroute : GentleRoute (Route.steepness (Route.line start bends finish)) start bends finish :=
    ⟨hright, gentle_steepness hright⟩
  have hm := steepness_nonneg (Route.line start bends finish)
  generalize Route.steepness (Route.line start bends finish) = m at hroute hm ⊢
  subst hbends
  exact exists_lost_of_append htol hm hroute hkept

/-- a route that comes up ever more steeply for three steps, and down again -/
def hill : List (Point Rat) := [⟨1, 0⟩, ⟨2, 1/2⟩, ⟨3, 3/2⟩, ⟨4, 1/2⟩]

theorem clean_drift_hill : (0 : Rat) ≤ 1/2 ∧ Rightward (Route.line ⟨0, 0⟩ hill ⟨5, 0⟩) ∧
    Route.clean (1/2) ⟨0, 0⟩ hill ⟨5, 0⟩ = .ok [⟨3, 3/2⟩] ∧
    ∃ r, Traces (Route.line ⟨0, 0⟩ [⟨3, 3/2⟩] ⟨5, 0⟩) r ∧ r.x = 1 ∧
      |0 - r.y| ≤ ((2 : Nat) : Rat) * ((1 + 1) * (1/2)) := by
  have htol : (0 : Rat) ≤ 1/2 := by norm_num
  have hright : Rightward (Route.line ⟨0, 0⟩ hill ⟨5, 0⟩) := by decide +kernel
  have hclean : Route.clean (1/2) ⟨0, 0⟩ hill ⟨5, 0⟩ = .ok [⟨3, 3/2⟩] := by decide +kernel
  have hsteepness : Route.steepness (Route.line ⟨0, 0⟩ hill ⟨5, 0⟩) = 1 := by decide +kernel
  have hlost : Route.lost [⟨3, 3/2⟩] hill = 2 := by decide +kernel
  obtain ⟨kept, hkept, _, hdrift⟩ := clean_drift htol hright
  obtain rfl := Except.ok.inj (hclean.symm.trans hkept)
  obtain ⟨r, hr, hrx, hle⟩ := hdrift [] ⟨1, 0⟩ hill.tail rfl
  rw [hsteepness, show Route.lost [⟨3, 3/2⟩] (⟨1, 0⟩ :: hill.tail) = 2 from hlost] at hle
  exact ⟨htol, hright, hclean, r, hr, hrx, hle⟩

/-! ## one steep segment -/

/-- a bend in front of a steep segment is left out five units above the end -/
theorem not_clean_overshoot : (0 : Rat) ≤ 1 ∧ Rightward (Route.line ⟨0, 0⟩ [⟨1/2, 15⟩] ⟨1, 10⟩) ∧
    Route.clean (1 : Rat) ⟨0, 0⟩ [⟨1/2, 15⟩] ⟨1, 10⟩ = .ok [] ∧
    ∀ r, Traces (Route.line ⟨0, 0⟩ [] ⟨1, 10⟩) r →
      (2 * 1) * (2 * 1) < (⟨1/2, 15⟩ : Point Rat).squareTo r := by
  refine ⟨zero_le_one, by decide +kernel, by decide +kernel, fun r hr => ?_⟩
  have hle : r.y ≤ 10 := by
    rcases hr with ⟨t, _, h1, _, hy⟩ | rfl
    · rw [hy]
      show 0 + t * (10 - 0) ≤ 10
      linarith
    · exact le_refl 10
  show 2 * 1 * (2 * 1) < (r.x - 1/2) * (r.x - 1/2) + (r.y - 15) * (r.y - 15)
  have hup : 5 * 5 ≤ (15 - r.y) * (15 - r.y) := mul_self_le_mul_self (by norm_num) (by linarith)
  have hacross : 0 ≤ (r.x - 1/2) * (r.x - 1/2) := mul_self_nonneg _
  linarith

/-! ## many flat segments -/

section
variable {a p q r : Point Rat} {tol h : Rat}

/-- no point of a line is nearer to another point than the side of that one says -/
theorem aside_le_of_onSegment (hr : OnSegment a q r) :
    a.aside q p * a.aside q p ≤ a.squareTo q * p.squareTo r := by
  obtain ⟨t, _, _, hx, hy⟩ := hr
  have hcross : a.aside q p = (q.x - a.x) * (p.y - r.y) - (q.y - a.y) * (p.x - r.x) := by
    rw [Point.aside, hx, hy]
    ring
  have hdot := mul_self_nonneg ((q.x - a.x) * (p.x - r.x) + (q.y - a.y) * (p.y - r.y))
  rw [hcross, Point.squareTo, Point.squareTo, square, square]
  linarith

/-- the bends of a route in equal steps, on a line of which the slope grows by less and less -/
def sagging (h tol : Rat) (i : Nat) : Point Rat := ⟨(i + 1) * h, tol * ((i + 1) * harmonic i)⟩

theorem harmonic_nonneg (i : Nat) : 0 ≤ harmonic i :=
  Finset.sum_nonneg fun _ _ => inv_nonneg.2 (Nat.cast_nonneg _)

theorem harmonic_mono : Monotone harmonic :=
  monotone_nat_of_le_succ fun i => by
    rw [harmonic_succ]
    exact le_add_of_nonneg_right (inv_nonneg.2 (Nat.cast_nonneg _))

theorem exists_le_harmonic (k : Rat) : ∃ n, k ≤ harmonic n := by
  obtain ⟨n, hn⟩ := (Real.tendsto_sum_range_one_div_nat_succ_atTop.eventually_ge_atTop (k : ℝ)).exists
  refine ⟨n, ?_⟩
  have hcast : ((harmonic n : Rat) : ℝ) = ∑ i ∈ Finset.range n, (1 / ((i : ℝ) + 1)) := by
    have hsum : harmonic n = ∑ i ∈ Finset.range n, ((i + 1 : Nat) : Rat)⁻¹ := rfl
    rw [hsum]
    push_cast
    exact Finset.sum_congr rfl fun i _ => (one_div _).symm
  exact_mod_cast hcast ▸ hn

/-- each point is just as far to the side of the way to the next one as the tolerance allows -/
theorem aside_sagging (i : Nat) :
    Point.aside ⟨0, 0⟩ (sagging h tol (i + 1)) (sagging h tol i) = -(tol * ((i + 2) * h)) := by
  have hpos : ((i : Rat) + 1) ≠ 0 := by positivity
  rw [Point.aside, sagging, sagging, harmonic_succ]
  push_cast
  field_simp
  ring

theorem slope_sagging (htol : 0 ≤ tol) {n i : Nat} (hi : i < n) (hh : tol * (harmonic n + 1) ≤ h) :
    |(sagging h tol (i + 1)).y - (sagging h tol i).y|
      ≤ 1 * ((sagging h tol (i + 1)).x - (sagging h tol i).x) := by
  have hpos : ((i : Rat) + 1) ≠ 0 := by positivity
  have hrise : (sagging h tol (i + 1)).y - (sagging h tol i).y = tol * (harmonic (i + 1) + 1) := by
    rw [sagging, sagging, harmonic_succ]
    push_cast
    field_simp
    ring
  have hstep : (sagging h tol (i + 1)).x - (sagging h tol i).x = h := by
    rw [sagging, sagging]
    push_cast
    ring
  have hnonneg : 0 ≤ harmonic (i + 1) + 1 := add_nonneg (harmonic_nonneg _) zero_le_one
  rw [hrise, hstep, one_mul, abs_of_nonneg (mul_nonneg htol hnonneg)]
  exact (mul_le_mul_of_nonneg_left (add_le_add_left (harmonic_mono hi) 1) htol).trans hh

theorem onSegment_sagging (htol : 0 < tol) (hh : tol ≤ h) (i : Nat) :
    Point.onSegment tol ⟨0, 0⟩ (sagging h tol i) (sagging h tol (i + 1)) = .ok true := by
  have hh0 : 0 < h := htol.trans_le hh
  have hi : (0 : Rat) ≤ i := Nat.cast_nonneg i
  have hsquare : Point.squareTo ⟨0, 0⟩ (sagging h tol (i + 1))
      = (i + 2) * h * ((i + 2) * h)
        + tol * ((i + 2) * harmonic (i + 1)) * (tol * ((i + 2) * harmonic (i + 1))) := by
    rw [Point.squareTo, square, sagging]
    push_cast
    ring
  have hahead : Point.ahead ⟨0, 0⟩ (sagging h tol (i + 1)) (sagging h tol i)
      = (i + 2) * h * ((i + 1) * h)
        + tol * ((i + 2) * harmonic (i + 1)) * (tol * ((i + 1) * harmonic i)) := by
    rw [Point.ahead, sagging, sagging]
    push_cast
    ring
  have hlow : 0 ≤ harmonic i := harmonic_nonneg i
  have hgrow : harmonic i ≤ harmonic (i + 1) := harmonic_mono (Nat.le_succ i)
  have hacross : tol < (i + 2) * h := by nlinarith
  have hlong : tol * tol < Point.squareTo ⟨0, 0⟩ (sagging h tol (i + 1)) := by
    rw [hsquare]
    exact lt_add_of_lt_of_nonneg (mul_self_lt_mul_self htol.le hacross) (mul_self_nonneg _)
  have hpos : 0 < Point.squareTo ⟨0, 0⟩ (sagging h tol (i + 1)) := (mul_self_nonneg tol).trans_lt hlong
  have hforward : 0 ≤ Point.ahead ⟨0, 0⟩ (sagging h tol (i + 1)) (sagging h tol i) := by
    rw [hahead]
    have : 0 ≤ harmonic (i + 1) := harmonic_nonneg (i + 1)
    positivity
  rw [onSegment_eq _ _ _ htol.le, Except.ok.injEq, decide_eq_true_iff]
  refine ⟨hlong, ?_, ?_, ?_⟩
  · rw [aside_sagging, hsquare]
    have hrise := mul_nonneg (mul_self_nonneg tol)
      (mul_self_nonneg (tol * ((i + 2) * harmonic (i + 1))))
    linarith
  · exact (neg_nonpos.2 htol.le).trans (div_nonneg hforward hpos.le)
  · refine ((div_le_one hpos).2 ?_).trans (le_add_of_nonneg_right htol.le)
    rw [hahead, hsquare]
    have hx : ((i : Rat) + 1) * h ≤ (i + 2) * h := by linarith
    have hy : tol * ((i + 1) * harmonic i) ≤ tol * ((i + 2) * harmonic (i + 1)) :=
      mul_le_mul_of_nonneg_left (mul_le_mul (by linarith) hgrow hlow (by linarith)) htol.le
    refine add_le_add (mul_le_mul_of_nonneg_left hx (by positivity)) (mul_le_mul_of_nonneg_left hy ?_)
    exact mul_nonneg htol.le (mul_nonneg (by linarith) (harmonic_nonneg _))

/-- how far the first point is from the chord, if the chord is not steeper than one -/
theorem squareTo_sagging (htol : 0 ≤ tol) (hh : 0 < h) {n : Nat} (hflat : tol * harmonic n ≤ h)
    (hr : OnSegment ⟨0, 0⟩ (sagging h tol n) r) :
    tol * harmonic n * (tol * harmonic n) ≤ 2 * (sagging h tol 0).squareTo r := by
  have hside := aside_le_of_onSegment (p := sagging h tol 0) hr
  have haside : Point.aside ⟨0, 0⟩ (sagging h tol n) (sagging h tol 0)
      = -(tol * harmonic n * ((n + 1) * h)) := by
    rw [Point.aside, sagging, sagging, harmonic_zero]
    push_cast
    ring
  have hsquare : Point.squareTo ⟨0, 0⟩ (sagging h tol n)
      = (n + 1) * h * ((n + 1) * h) + (n + 1) * (tol * harmonic n) * ((n + 1) * (tol * harmonic n)) := by
    rw [Point.squareTo, square, sagging]
    ring
  have hrise : (n + 1) * (tol * harmonic n) * ((n + 1) * (tol * harmonic n)) ≤ (n + 1) * h * ((n + 1) * h) := by
    have hsag : 0 ≤ tol * harmonic n := mul_nonneg htol (harmonic_nonneg n)
    have hn : (0 : Rat) ≤ n + 1 := by positivity
    exact mul_self_le_mul_self (mul_nonneg hn hsag) (mul_le_mul_of_nonneg_left hflat hn)
  have hlong : 0 < (n + 1) * h * ((n + 1) * h) := by positivity
  have hdist : 0 ≤ (sagging h tol 0).squareTo r := squareTo_nonneg _ _
  rw [haside, hsquare] at hside
  refine le_of_mul_le_mul_right ?_ hlong
  calc tol * harmonic n * (tol * harmonic n) * ((n + 1) * h * ((n + 1) * h))
      = -(tol * harmonic n * ((n + 1) * h)) * -(tol * harmonic n * ((n + 1) * h)) := by ring
    _ ≤ _ := hside
    _ ≤ ((n + 1) * h * ((n + 1) * h) + (n + 1) * h * ((n + 1) * h)) * (sagging h tol 0).squareTo r :=
        mul_le_mul_of_nonneg_right (add_le_add_right hrise _) hdist
    _ = 2 * (sagging h tol 0).squareTo r * ((n + 1) * h * ((n + 1) * h)) := by ring

end

/-- a route of which every bend is judged by the next is left out entirely -/
theorem clean_eq_nil {tol : Rat} {start finish : Point Rat} {bends : List (Point Rat)}
    (h : (bends ++ [finish]).IsChain fun p q => Point.onSegment tol start p q = .ok true) :
    Route.clean tol start bends finish = .ok [] := by
  induction bends with
  | nil => rfl
  | cons p rest ih =>
    have hrest : Route.clean tol start rest finish = .ok [] := ih (List.IsChain.tail h)
    have hp : Point.onSegment tol start p (Route.following rest finish) = .ok true := by
      cases rest with
      | nil => exact (List.isChain_cons_cons.1 h).1
      | cons q rest => exact (List.isChain_cons_cons.1 h).1
    rw [Route.clean, hp, hrest]
    split <;> rfl

/-! ## the sagging route -/

section
variable {h tol : Rat} {n : Nat}

theorem line_sagging : Route.line ⟨0, 0⟩ ((List.range n).map (sagging h tol)) (sagging h tol n)
    = ⟨0, 0⟩ :: (List.range (n + 1)).map (sagging h tol) := by
  rw [Route.line, List.range_succ, List.map_append, List.map_singleton]

theorem x_line_sagging {i : Nat} {p : Point Rat}
    (hp : (Route.line ⟨0, 0⟩ ((List.range n).map (sagging h tol)) (sagging h tol n))[i]? = some p) :
    p.x = i * h := by
  rw [line_sagging] at hp
  cases i with
  | zero =>
    obtain rfl := Option.some.inj hp
    simp
  | succ i =>
    rw [List.getElem?_cons_succ, List.getElem?_map] at hp
    obtain ⟨j, hj, rfl⟩ := Option.map_eq_some_iff.1 hp
    obtain ⟨_, rfl⟩ := List.getElem?_eq_some_iff.1 hj
    rw [List.getElem_range, sagging]
    push_cast
    rfl

theorem gentle_line_sagging (htol : 0 ≤ tol) (hh0 : 0 ≤ h) (hh : tol * (harmonic n + 1) ≤ h) :
    Gentle 1 (Route.line ⟨0, 0⟩ ((List.range n).map (sagging h tol)) (sagging h tol n)) := by
  rw [line_sagging, gentle_iff_isChain]
  refine List.isChain_cons.2 ⟨fun p hp => ?_, ?_⟩
  · rw [List.range_succ_eq_map, List.map_cons, List.head?_cons] at hp
    obtain rfl := Option.some.inj hp
    simp [sagging, hh0]
  · refine (List.isChain_map _).2 ((List.isChain_range_succ _ n).2 fun i hi => ?_)
    exact slope_sagging htol hi hh

theorem clean_sagging (htol : 0 < tol) (hh : tol ≤ h) :
    Route.clean tol ⟨0, 0⟩ ((List.range n).map (sagging h tol)) (sagging h tol n) = .ok [] := by
  refine clean_eq_nil ?_
  rw [← List.map_singleton, ← List.map_append, ← List.range_succ, List.isChain_map,
    List.isChain_range_succ]
  exact fun i _ => onSegment_sagging htol hh i

end

/-- Whatever multiple of the tolerance is allowed, a route without a segment steeper than one, with its bends
in equal steps to the right, can stray further: all its bends are left out in a row. -/
theorem drift_unbounded {tol : Rat} (htol : 0 < tol) (k : Nat) :
    ∃ (h : Rat) (bends : List (Point Rat)) (finish : Point Rat), 0 < h ∧
      (∀ (i : Nat) p, (Route.line ⟨0, 0⟩ bends finish)[i]? = some p → p.x = i * h) ∧
      Gentle 1 (Route.line ⟨0, 0⟩ bends finish) ∧
      Route.clean tol ⟨0, 0⟩ bends finish = .ok [] ∧
      ∃ p ∈ bends, ∀ r, Traces (Route.line ⟨0, 0⟩ [] finish) r →
        k * tol * (k * tol) < p.squareTo r := by
  obtain ⟨n, hn⟩ := exists_le_harmonic (2 * k + 1)
  have hk : (0 : Rat) ≤ k := Nat.cast_nonneg k
  obtain ⟨h, hdef⟩ : ∃ h, tol * (harmonic n + 1) = h := ⟨_, rfl⟩
  have hh : tol ≤ h :=
    hdef ▸ le_mul_of_one_le_right htol.le (le_add_of_nonneg_left (harmonic_nonneg n))
  have hh0 : 0 < h := htol.trans_le hh
  have hpos : n ≠ 0 := by
    rintro rfl
    rw [harmonic_zero] at hn
    linarith
  refine ⟨h, (List.range n).map (sagging h tol), sagging h tol n, hh0, fun i p hp => x_line_sagging hp,
    gentle_line_sagging htol.le hh0.le hdef.le, clean_sagging htol hh, sagging h tol 0,
    List.mem_map_of_mem (List.mem_range.2 (Nat.pos_of_ne_zero hpos)), fun r hr => ?_⟩
  have hsegment : OnSegment ⟨0, 0⟩ (sagging h tol n) r := by
    rcases hr with hr | rfl
    · exact hr
    · exact onSegment_right _ _
  have hflat : tol * harmonic n ≤ h :=
    (mul_le_mul_of_nonneg_left (le_add_of_nonneg_right zero_le_one) htol.le).trans hdef.le
  have hfar := squareTo_sagging htol.le hh0 hflat hsegment
  have hlow : tol * (2 * k + 1) * (tol * (2 * k + 1)) ≤ tol * harmonic n * (tol * harmonic n) :=
    mul_self_le_mul_self (by positivity) (mul_le_mul_of_nonneg_left hn htol.le)
  have hrest : 0 < tol * tol * (2 * (k * k) + 4 * k + 1) := by positivity
  linarith

end LayeredDrawing
