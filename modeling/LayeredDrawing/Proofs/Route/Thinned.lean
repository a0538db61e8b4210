import LayeredDrawing.Proofs.Route.Clean

/-!
# Routes cleaned without tolerance

Without tolerance a bend goes if it lies on the segment from the last point kept to the next point as
the route came in.  That point may go in turn, but then it lies on a longer segment in the same
direction, so in the end all bends that went between two points kept lie on the segment between them,
one behind the other.  And no bend that was kept could go after all: the next point kept lies no nearer
to it than the next point that came in.

* `Along`             points on a segment, one behind the other;
* `Thinned`           a route with the bends left out that lie along the segments of what is left;
* `Taut`              a route of whose bends none can be left out;
* `Needless`          when a bend goes;
* `clean_thinned`, `clean_taut`   what is left of a route;
* `clean_zero`        a rightward route keeps its shape;
* `clean_exact`       all of this, and that cleaning again changes nothing.
-/

namespace LayeredDrawing

open Scalar

/-- the point at a fraction of the way -/
def Point.toward (a b : Point Rat) (t : Rat) : Point Rat :=
  ⟨a.x + t * (b.x - a.x), a.y + t * (b.y - a.y)⟩

/-- the points lie on the segment from `a` to `b`, none in front of one before it -/
def Along (a b : Point Rat) (points : List (Point Rat)) : Prop :=
  ∃ ts : List Rat, ts.Pairwise (· ≤ ·) ∧ (∀ t ∈ ts, 0 ≤ t ∧ t ≤ 1) ∧ points = ts.map (a.toward b)

/-- a route from a start to `finish` keeps some of its bends, and those left out lie along the segments
between the points kept -/
inductive Thinned (finish : Point Rat) :
    Point Rat → (bends kept : List (Point Rat)) → Prop where
  | last {start : Point Rat} {dropped : List (Point Rat)} (h : Along start finish dropped) :
      Thinned finish start dropped []
  | keep {start p : Point Rat} {dropped rest kept : List (Point Rat)} (h : Along start p dropped)
      (hrest : Thinned finish p rest kept) :
      Thinned finish start (dropped ++ p :: rest) (p :: kept)

/-- no bend is the point before it or the end, or lies on the segment between its neighbours -/
def Taut (finish : Point Rat) : Point Rat → List (Point Rat) → Prop
  | _, [] => True
  | start, p :: rest => p ≠ start ∧ p ≠ finish ∧ ¬ OnSegment start (Route.following rest finish) p ∧
    Taut finish p rest

/-! ## along a segment -/

section
variable {a b p q : Point Rat} {l : List (Point Rat)}

theorem onSegment_iff_toward : OnSegment a b p ↔ ∃ t : Rat, 0 ≤ t ∧ t ≤ 1 ∧ p = a.toward b t := by
  refine exists_congr fun t => and_congr_right' (and_congr_right' ?_)
  exact (Point.ext_iff' (q := a.toward b t)).symm

theorem onSegment_right (a b : Point Rat) : OnSegment a b b :=
  ⟨1, by norm_num, le_refl 1, by ring, by ring⟩

theorem eq_of_onSegment_self (h : OnSegment a a p) : p = a := by
  obtain ⟨t, _, _, hx, hy⟩ := h
  refine Point.ext_iff'.2 ⟨?_, ?_⟩
  · rw [hx]
    ring
  · rw [hy]
    ring

theorem toward_toward (a b : Point Rat) (s t : Rat) : a.toward (a.toward b t) s = a.toward b (s * t) := by
  refine Point.ext_iff'.2 ⟨?_, ?_⟩
  · show a.x + s * (a.x + t * (b.x - a.x) - a.x) = a.x + s * t * (b.x - a.x)
    ring
  · show a.y + s * (a.y + t * (b.y - a.y) - a.y) = a.y + s * t * (b.y - a.y)
    ring

theorem toward_zero (a b : Point Rat) : a.toward b 0 = a := by
  refine Point.ext_iff'.2 ⟨?_, ?_⟩
  · show a.x + 0 * (b.x - a.x) = a.x
    ring
  · show a.y + 0 * (b.y - a.y) = a.y
    ring

/-- an earlier point of a segment lies on the way to a later one -/
theorem onSegment_toward {s t : Rat} (hs : 0 ≤ s) (hst : s ≤ t) :
    OnSegment a (a.toward b t) (a.toward b s) := by
  rw [onSegment_iff_toward]
  rcases hs.eq_or_lt with rfl | hpos
  · refine ⟨0, le_refl 0, zero_le_one, ?_⟩
    rw [toward_zero, toward_zero]
  · have ht : 0 < t := hpos.trans_le hst
    refine ⟨s / t, div_nonneg hs ht.le, (div_le_one ht).2 hst, ?_⟩
    rw [toward_toward, div_mul_cancel₀ s ht.ne']

theorem along_nil (a b : Point Rat) : Along a b [] :=
  ⟨[], List.Pairwise.nil, fun _ ht => absurd ht List.not_mem_nil, rfl⟩

/-- a point stands in front of others along a segment if it lies on the way to the first of them -/
theorem along_cons_iff : Along a b (p :: l) ↔ OnSegment a (l.headD b) p ∧ Along a b l := by
  constructor
  · rintro ⟨ts, hts, hunit, hmap⟩
    obtain ⟨t, ts, rfl, rfl, rfl⟩ := List.map_eq_cons_iff.1 hmap.symm
    obtain ⟨hfirst, hrest⟩ := List.pairwise_cons.1 hts
    obtain ⟨ht, hunit⟩ := List.forall_mem_cons.1 hunit
    refine ⟨?_, ts, hrest, hunit, rfl⟩
    cases ts with
    | nil => exact onSegment_iff_toward.2 ⟨t, ht.1, ht.2, rfl⟩
    | cons s ts => exact onSegment_toward ht.1 (hfirst s List.mem_cons_self)
  · rintro ⟨hp, ts, hts, hunit, rfl⟩
    obtain ⟨s, hs0, hs1, rfl⟩ := onSegment_iff_toward.1 hp
    cases ts with
    | nil => exact ⟨[s], List.pairwise_singleton _ _, fun t ht => by
        rw [List.mem_singleton.1 ht]
        exact ⟨hs0, hs1⟩, rfl⟩
    | cons t ts =>
      obtain ⟨ht, hunit'⟩ := List.forall_mem_cons.1 hunit
      have hst : s * t ≤ t := mul_le_of_le_one_left ht.1 hs1
      refine ⟨s * t :: t :: ts, List.pairwise_cons.2 ⟨fun u hu => ?_, hts⟩,
        List.forall_mem_cons.2 ⟨⟨mul_nonneg hs0 ht.1, hst.trans ht.2⟩, hunit⟩, ?_⟩
      · rcases List.mem_cons.1 hu with rfl | hu
        · exact hst
        · exact hst.trans (List.rel_of_pairwise_cons hts hu)
      · show a.toward (a.toward b t) s :: _ = a.toward b (s * t) :: _
        rw [toward_toward]

theorem Along.onSegment_headD (h : Along a b l) : OnSegment a b (l.headD b) := by
  obtain ⟨ts, _, hunit, rfl⟩ := h
  cases ts with
  | nil => exact onSegment_right a b
  | cons t ts =>
    obtain ⟨h0, h1⟩ := hunit t List.mem_cons_self
    exact onSegment_iff_toward.2 ⟨t, h0, h1, rfl⟩

/-- on the way from `a` to `b`, a point is passed before those that follow it -/
theorem OnSegment.before (hp : OnSegment a b p) (hq : OnSegment p b q) : OnSegment a q p := by
  obtain ⟨t, h0, h1, rfl⟩ := onSegment_iff_toward.1 hp
  obtain ⟨s, hs0, hs1, rfl⟩ := onSegment_iff_toward.1 hq
  have hq' : (a.toward b t).toward b s = a.toward b (t + s * (1 - t)) := by
    refine Point.ext_iff'.2 ⟨?_, ?_⟩
    · show a.x + t * (b.x - a.x) + s * (b.x - (a.x + t * (b.x - a.x)))
        = a.x + (t + s * (1 - t)) * (b.x - a.x)
      ring
    · show a.y + t * (b.y - a.y) + s * (b.y - (a.y + t * (b.y - a.y)))
        = a.y + (t + s * (1 - t)) * (b.y - a.y)
      ring
  rw [hq']
  exact onSegment_toward h0 (le_add_of_nonneg_right (mul_nonneg hs0 (sub_nonneg.2 h1)))

end

/-! ## thinned routes -/

section
variable {start finish p : Point Rat} {bends kept rest : List (Point Rat)}

theorem Thinned.sublist (h : Thinned finish start bends kept) : kept.Sublist bends := by
  induction h with
  | last _ => exact List.nil_sublist _
  | keep _ _ ih => exact (ih.cons_cons _).trans (List.sublist_append_right _ _)

/-- points along the first segment of a line may be left out -/
theorem traces_along {a b r : Point Rat} {l more : List (Point Rat)} (h : Along a b l) :
    Traces (a :: (l ++ b :: more)) r ↔ Traces (a :: b :: more) r := by
  induction l with
  | nil => exact Iff.rfl
  | cons p l ih =>
    obtain ⟨hp, hl⟩ := along_cons_iff.1 h
    rw [← ih hl]
    cases l with
    | nil => exact traces_cons_cons hp
    | cons q l => exact traces_cons_cons hp

theorem Thinned.traces_iff (h : Thinned finish start bends kept) (r : Point Rat) :
    Traces (Route.line start kept finish) r ↔ Traces (Route.line start bends finish) r := by
  induction h with
  | last hdropped => exact (traces_along hdropped).symm
  | @keep start p dropped rest kept hdropped _ ih =>
    have hline : Route.line start (dropped ++ p :: rest) finish
        = start :: (dropped ++ p :: (rest ++ [finish])) := by
      rw [Route.line, List.append_assoc, List.cons_append]
    rw [hline, traces_along hdropped]
    exact or_congr_right ih

theorem following_append (dropped : List (Point Rat)) (q : Point Rat) (rest : List (Point Rat))
    (finish : Point Rat) : Route.following (dropped ++ q :: rest) finish = dropped.headD q := by
  cases dropped with
  | nil => rfl
  | cons _ _ => rfl

/-- a bend on the way from the start to the next point may be left out too -/
theorem Thinned.cons (h : Thinned finish start rest kept)
    (hp : OnSegment start (Route.following rest finish) p) : Thinned finish start (p :: rest) kept := by
  cases h with
  | last hdropped => exact .last (along_cons_iff.2 ⟨hp, hdropped⟩)
  | @keep _ q dropped rest kept hdropped hrest =>
    rw [following_append] at hp
    have hfirst : Along start q (p :: dropped) := along_cons_iff.2 ⟨hp, hdropped⟩
    exact .keep hfirst hrest

/-- the next point of the route lies on the way to the next point kept -/
theorem Thinned.onSegment_following (h : Thinned finish start bends kept) :
    OnSegment start (Route.following kept finish) (Route.following bends finish) := by
  cases h with
  | last hdropped => exact hdropped.onSegment_headD
  | keep hdropped _ =>
    rw [following_append]
    exact hdropped.onSegment_headD

end

/-! ## what cleaning does to one bend -/

/-- a bend goes if it is the end, or lies on the way from the last point kept to the next one -/
def Needless (start : Point Rat) (rest : List (Point Rat)) (finish p : Point Rat) : Prop :=
  p = finish ∨ OnSegment start (Route.following rest finish) p

section
variable {start finish p : Point Rat} {rest : List (Point Rat)}

theorem clean_zero_cons_of_needless (h : Needless start rest finish p) :
    Route.clean 0 start (p :: rest) finish = Route.clean 0 start rest finish := by
  rw [Route.clean]
  split
  · rfl
  · rename_i hnear
    rw [Bool.or_eq_true, near_zero_iff, near_zero_iff, not_or] at hnear
    have hp : OnSegment start (Route.following rest finish) p := h.resolve_left hnear.2
    -- the only point on a segment between equal points is the start
    have hne : start ≠ Route.following rest finish := by
      intro heq
      rw [← heq] at hp
      exact hnear.1 (eq_of_onSegment_self hp)
    rw [onSegment_zero_iff.2 ⟨hne, hp⟩]
    rfl

theorem clean_zero_cons_of_not_needless (h : ¬ Needless start rest finish p) :
    Route.clean 0 start (p :: rest) finish = (p :: ·) <$> Route.clean 0 p rest finish := by
  obtain ⟨hfinish, hsegment⟩ := not_or.1 h
  have hnear : ¬ (p.near 0 start || p.near 0 finish) = true := by
    rw [Bool.or_eq_true, near_zero_iff, near_zero_iff, not_or]
    refine ⟨fun heq => hsegment ?_, hfinish⟩
    rw [heq]
    exact onSegment_left start _
  obtain ⟨answer, hanswer⟩ :=
    onSegment_of_nonneg (le_refl 0) start p (Route.following rest finish)
  cases answer with
  | true => exact absurd (onSegment_zero_iff.1 hanswer).2 hsegment
  | false =>
    rw [Route.clean, if_neg hnear, hanswer]
    rfl

/-- either a bend goes, or it is kept and the rest is cleaned from there -/
theorem clean_zero_cons {kept : List (Point Rat)} (h : Route.clean 0 start (p :: rest) finish = .ok kept) :
    (Needless start rest finish p ∧ Route.clean 0 start rest finish = .ok kept) ∨
      (¬ Needless start rest finish p ∧
        ∃ kept', kept = p :: kept' ∧ Route.clean 0 p rest finish = .ok kept') := by
  by_cases hp : Needless start rest finish p
  · rw [clean_zero_cons_of_needless hp] at h
    exact .inl ⟨hp, h⟩
  · rw [clean_zero_cons_of_not_needless hp] at h
    obtain ⟨kept', hkept'⟩ := clean_of_nonneg (le_refl 0) p rest finish
    rw [hkept'] at h
    exact .inr ⟨hp, kept', (Except.ok.inj h).symm, hkept'⟩

end

/-! ## what is left of a route -/

section
variable {start finish : Point Rat} {bends kept : List (Point Rat)}

/-- a bend goes because it lies on the way to the next point, unless the route ends with it -/
theorem Needless.onSegment {p : Point Rat} {rest : List (Point Rat)} (h : Needless start rest finish p)
    (hends : (p :: rest).IsChain fun p q => p = finish → q = finish) :
    OnSegment start (Route.following rest finish) p := by
  rcases h with rfl | h
  · have hnext : Route.following rest p = p := by
      cases rest with
      | nil => rfl
      | cons q rest => exact (List.isChain_cons_cons.1 hends).1 rfl
    rw [hnext]
    exact onSegment_right start p
  · exact h

theorem clean_thinned (hends : bends.IsChain fun p q => p = finish → q = finish)
    (hok : Route.clean 0 start bends finish = .ok kept) : Thinned finish start bends kept := by
  induction bends generalizing start kept with
  | nil =>
    obtain rfl := Except.ok.inj hok
    exact .last (along_nil _ _)
  | cons p rest ih =>
    rcases clean_zero_cons hok with ⟨hp, hrest⟩ | ⟨_, kept, rfl, hrest⟩
    · exact (ih hends.tail hrest).cons (hp.onSegment hends)
    · exact .keep (along_nil _ _) (ih hends.tail hrest)

/-- a bend is judged by the next point that came in; the next point kept is further along -/
theorem clean_taut (hends : bends.IsChain fun p q => p = finish → q = finish)
    (hok : Route.clean 0 start bends finish = .ok kept) : Taut finish start kept := by
  induction bends generalizing start kept with
  | nil =>
    obtain rfl := Except.ok.inj hok
    exact trivial
  | cons p rest ih =>
    rcases clean_zero_cons hok with ⟨_, hrest⟩ | ⟨hp, kept, rfl, hrest⟩
    · exact ih hends.tail hrest
    · obtain ⟨hfinish, hsegment⟩ := not_or.1 hp
      have hnext := (clean_thinned hends.tail hrest).onSegment_following
      refine ⟨?_, hfinish, fun hon => hsegment (hon.before hnext), ih hends.tail hrest⟩
      rintro rfl
      exact hsegment (onSegment_left p _)

theorem clean_of_taut (h : Taut finish start bends) : Route.clean 0 start bends finish = .ok bends := by
  induction bends generalizing start with
  | nil => rfl
  | cons p rest ih =>
    obtain ⟨_, hfinish, hsegment, hrest⟩ := h
    rw [clean_zero_cons_of_not_needless (not_or.2 ⟨hfinish, hsegment⟩), ih hrest]
    rfl

/-- a rightward route reaches its end only there, and keeps its shape -/
theorem clean_zero (h : Rightward (Route.line start bends finish)) :
    ∃ kept, Route.clean 0 start bends finish = .ok kept ∧
      Rightward (Route.line start kept finish) ∧
      ∀ r, Traces (Route.line start kept finish) r ↔ Traces (Route.line start bends finish) r := by
  have hbefore : ∀ p ∈ bends, p ≠ finish := by
    rintro p hp rfl
    have hlt := (List.pairwise_append.1 (List.Pairwise.of_cons h)).2.2 p hp p (List.mem_singleton_self p)
    exact lt_irrefl _ hlt
  have hends : bends.IsChain fun p q => p = finish → q = finish :=
    (List.pairwise_of_forall_mem_list fun p hp _ _ heq => absurd heq (hbefore p hp)).isChain
  obtain ⟨kept, hkept⟩ := clean_of_nonneg (le_refl 0) start bends finish
  have hthinned := clean_thinned hends hkept
  exact ⟨kept, hkept, h.sublist ((hthinned.sublist.append_right _).cons_cons start),
    hthinned.traces_iff⟩

/-- Cleaning without tolerance leaves out the bends along the segments of what it keeps, so the line
stays the same, and it keeps no bend that could be left out.  Once the route is at its end it must stay
there: a bend at the end goes wherever the route leads from it. -/
theorem clean_exact (start finish : Point Rat) (bends : List (Point Rat))
    (hends : bends.IsChain fun p q => p = finish → q = finish) :
    ∃ kept, Route.clean 0 start bends finish = .ok kept ∧ kept.Sublist bends ∧
      Thinned finish start bends kept ∧
      (∀ r, Traces (Route.line start kept finish) r ↔ Traces (Route.line start bends finish) r) ∧
      Taut finish start kept ∧
      Route.clean 0 start kept finish = .ok kept := by
  obtain ⟨kept, hkept⟩ := clean_of_nonneg (le_refl 0) start bends finish
  have hthinned := clean_thinned hends hkept
  have htaut := clean_taut hends hkept
  exact ⟨kept, hkept, hthinned.sublist, hthinned, hthinned.traces_iff, htaut, clean_of_taut htaut⟩

/-- a route that stays at its start, passes its turning point and comes back, and waits at the end -/
def thereAndBack : List (Point Rat) :=
  [⟨0, 0⟩, ⟨1, 0⟩, ⟨1, 0⟩, ⟨2, 0⟩, ⟨1, 0⟩, ⟨1, 1⟩, ⟨1, 2⟩, ⟨1, 2⟩]

theorem clean_exact_thereAndBack :
    (thereAndBack.IsChain fun p q => p = ⟨1, 2⟩ → q = ⟨1, 2⟩) ∧
    Route.clean 0 ⟨0, 0⟩ thereAndBack ⟨1, 2⟩ = .ok [⟨2, 0⟩, ⟨1, 0⟩] ∧
    Thinned ⟨1, 2⟩ ⟨0, 0⟩ thereAndBack [⟨2, 0⟩, ⟨1, 0⟩] ∧
    Taut ⟨1, 2⟩ ⟨0, 0⟩ [⟨2, 0⟩, ⟨1, 0⟩] := by
  have hends : thereAndBack.IsChain fun p q => p = ⟨1, 2⟩ → q = ⟨1, 2⟩ := by decide
  have hclean : Route.clean 0 ⟨0, 0⟩ thereAndBack ⟨1, 2⟩ = .ok [⟨2, 0⟩, ⟨1, 0⟩] := by
    decide +kernel
  obtain ⟨kept, hkept, _, hthinned, _, htaut, _⟩ := clean_exact ⟨0, 0⟩ ⟨1, 2⟩ thereAndBack hends
  obtain rfl := Except.ok.inj (hclean.symm.trans hkept)
  exact ⟨hends, hclean, hthinned, htaut⟩

end

end LayeredDrawing
