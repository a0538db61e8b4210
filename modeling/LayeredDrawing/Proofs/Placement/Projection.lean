import LayeredDrawing.Proofs.Arrangement.Precedence
import LayeredDrawing.Proofs.Placement.Levels
import Mathlib.Data.List.GetD

/-!
# Placing a row is a projection

A row is placed in the order of its priorities.  Each slot ends at the height nearest to the one it
wants that the slots placed before it leave to it (`projected`), and a slot that wants nothing counts
as wanting to stay where it came in.  Slots not yet placed are kept there by the same rule, so what is
said of a slot when its turn comes (`Rests`) holds of it before, with the slots placed so far, and after.

* `sooner`               which of two slots is placed first;
* `projected`            the height that the slots placed before leave to a slot;
* `Placing.place`        what placing one slot keeps, `Placing.settled` what placing all of them gives;
* `Settled.eq_of_again`  placing the row again changes nothing;
* `placeRow_projects`    the whole row.
-/

namespace LayeredDrawing

/-! ## the statement -/

/-- position `j` is placed before position `i` -/
def sooner (priorities : List (Priority Rat)) (j i : Nat) : Bool :=
  match priorities[j]?, priorities[i]? with
  | some p, some q => earlier (p, j) (q, i)
  | _, _ => false

/-- the nearest position before `i` with the property -/
def nearestBefore (p : Nat → Bool) : Nat → Option Nat
  | 0 => none
  | i + 1 => if p i then some i else nearestBefore p i

/-- the nearest position behind `i` with the property, in a row of `n` positions -/
def nearestBehind (p : Nat → Bool) (n i : Nat) : Option Nat :=
  (List.range' (i + 1) (n - (i + 1))).find? p

/-- the number nearest to `t` that is neither below `lo` nor above `hi`, as far as these are given -/
def clamp (lo hi : Option Rat) (t : Rat) : Rat :=
  let u := lo.elim t (max t)
  hi.elim u (min u)

/-- the height nearest to `t` at position `i` that leaves room to the nearest positions with the property,
above and below -/
def projected (spacing : Rat) (ys : List Rat) (p : Nat → Bool) (i : Nat) (t : Rat) : Rat :=
  clamp ((nearestBefore p i).map fun j => ys.getD j 0 + ((i : Rat) - j) * spacing)
    ((nearestBehind p ys.length i).map fun j => ys.getD j 0 - ((j : Rat) - i) * spacing) t

/-- the height that a slot wants: its target, or else the height at which it came in -/
def wanted (heights : List Rat) (targets : List (Option Rat)) (i : Nat) : Rat :=
  (targets.getD i none).getD (heights.getD i 0)

/-- the row after the first `k` slots have been placed -/
def rowAfter (spacing : Rat) (heights : List Rat) (targets : List (Option Rat))
    (priorities : List (Priority Rat)) (k : Nat) : List (Slot Rat) :=
  ((placingOrder priorities).take k).foldl (placeSlot spacing) (unplacedRow heights targets)

/-- the row `result` is what the priority projection makes of the row `heights` -/
structure Projects (spacing : Rat) (heights : List Rat) (targets : List (Option Rat))
    (priorities : List (Priority Rat)) (result : List Rat) : Prop where
  length : result.length = heights.length
  /-- the slots are placed by decreasing priority, of equal ones the first first -/
  order : (placingOrder priorities).Perm (List.range heights.length) ∧
    (placingOrder priorities).Pairwise fun j i => sooner priorities j i = true
  clamped : ∀ i < heights.length, result.getD i 0
    = projected spacing result (fun j => sooner priorities j i) i (wanted heights targets i)
  first : ∀ i t, (placingOrder priorities).head? = some i → targets[i]? = some (some t) →
    result[i]? = some t
  /-- no row with the same distances in which the slots placed before stand alike is nearer -/
  nearest : ∀ i t, i < heights.length → targets[i]? = some (some t) → ∀ ys : List Rat,
    ys.length = heights.length → ys.IsChain (fun y z => y + spacing ≤ z) →
    (∀ j < heights.length, sooner priorities j i = true → ys.getD j 0 = result.getD j 0) →
    |result.getD i 0 - t| ≤ |ys.getD i 0 - t|
  /-- once placed, a slot never moves again -/
  settled : ∀ k, ∀ i ∈ (placingOrder priorities).take k,
    ((rowAfter spacing heights targets priorities k).map Slot.height)[i]? = result[i]?
  spaced : result.IsChain fun y z => y + spacing ≤ z
  again : placeRow spacing result targets priorities = .ok result

/-! ## the order -/

theorem earlier_asymm {p q : Priority Rat × Nat} (h : earlier p q = true) : earlier q p = false := by
  obtain ⟨p, i⟩ := p
  obtain ⟨q, j⟩ := q
  cases p <;> cases q <;> simp only [earlier, Priority.same, Priority.above] at h ⊢ <;> grind

theorem above_asymm {p q : Priority Rat} (h : p.above q = true) : q.above p = false := by
  cases p <;> cases q <;> simp only [Priority.above] at h ⊢ <;> grind

theorem above_trans {p q r : Priority Rat} (hqp : q.above p = false) (hrq : r.above q = false) :
    r.above p = false := by
  cases p <;> cases q <;> cases r <;> simp only [Priority.above] at hqp hrq ⊢ <;> grind

theorem earlier_of_above {p q : Priority Rat × Nat}
    (h : p.1.above q.1 = true ∨ q.1.above p.1 = false ∧ p.2 < q.2) : earlier p q = true := by
  obtain ⟨p, i⟩ := p
  obtain ⟨q, j⟩ := q
  cases p <;> cases q <;> simp only [earlier, Priority.same, Priority.above] at h ⊢ <;> grind

theorem comparable_rat (p : Priority Rat) : p.comparable = true := by
  cases p <;> simp [Priority.comparable, Priority.same]

theorem not_sooner_of_sooner {priorities : List (Priority Rat)} {i j : Nat}
    (h : sooner priorities j i = true) : sooner priorities i j = false := by
  unfold sooner at h ⊢
  cases hi : priorities[i]? with
  | none => rfl
  | some q =>
    cases hj : priorities[j]? with
    | none => rfl
    | some p =>
      rw [hi, hj] at h
      exact earlier_asymm h

theorem pairwise_placingOrder (priorities : List (Priority Rat)) :
    (placingOrder priorities).Pairwise fun j i => sooner priorities j i = true := by
  have htrans (p q r : Priority Rat × Nat) (hqp : q.1.above p.1 = false)
      (hrq : r.1.above q.1 = false) : r.1.above p.1 = false := above_trans hqp hrq
  have hsorted := pairwise_stableSort htrans (fun _ _ => above_asymm) (pairwise_zipIdx priorities)
  rw [placingOrder_of_comparable fun p _ => comparable_rat p, List.pairwise_map]
  refine hsorted.imp_of_mem fun {p q} hp hq hpq => ?_
  have hget {p : Priority Rat × Nat} (hp : p ∈ stableSort (fun p q => p.1.above q.1) priorities.zipIdx) :
      priorities[p.2]? = some p.1 := List.mem_zipIdx_iff_getElem?.1 (mem_stableSort.1 hp)
  rw [sooner, hget hp, hget hq]
  exact earlier_of_above hpq

/-! ## where a slot rests -/

/-- the slot `k` stands at the height `t` that it wants, unless a slot that is done leaves no more room -/
structure Rests (spacing : Rat) (ys : List Rat) (done : Nat → Prop) (k : Nat) (t : Rat) : Prop where
  falls : t - k * spacing < level spacing ys k →
    ∃ j, j < k ∧ done j ∧ level spacing ys j = level spacing ys k
  rises : level spacing ys k < t - k * spacing →
    ∃ j, k < j ∧ j < ys.length ∧ done j ∧ level spacing ys j = level spacing ys k

section
variable {spacing : Rat} {ys zs : List Rat} {done : Nat → Prop} {k : Nat} {t : Rat}

theorem level_inj (h : level spacing ys k = level spacing zs k) : ys.getD k 0 = zs.getD k 0 :=
  sub_left_injective h

theorem level_congr (h : ys.getD k 0 = zs.getD k 0) : level spacing ys k = level spacing zs k := by
  rw [level, level, h]

/-- only the slot itself and those that are done matter -/
theorem Rests.congr (h : Rests spacing ys done k t) (hlen : zs.length = ys.length)
    (hk : level spacing zs k = level spacing ys k)
    (hdone : ∀ j, done j → level spacing zs j = level spacing ys j) : Rests spacing zs done k t := by
  constructor
  · intro hlt
    rw [hk] at hlt
    obtain ⟨j, hjk, hj, heq⟩ := h.falls hlt
    exact ⟨j, hjk, hj, by rw [hdone j hj, hk, heq]⟩
  · intro hlt
    rw [hk] at hlt
    obtain ⟨j, hjk, hjlen, hj, heq⟩ := h.rises hlt
    exact ⟨j, hjk, hlen ▸ hjlen, hj, by rw [hdone j hj, hk, heq]⟩

theorem Rests.imp {more : Nat → Prop} (h : Rests spacing ys done k t) (himp : ∀ j, done j → more j) :
    Rests spacing ys more k t := by
  constructor
  · intro hlt
    obtain ⟨j, hjk, hj, heq⟩ := h.falls hlt
    exact ⟨j, hjk, himp j hj, heq⟩
  · intro hlt
    obtain ⟨j, hjk, hjlen, hj, heq⟩ := h.rises hlt
    exact ⟨j, hjk, hjlen, himp j hj, heq⟩

/-- a slot above one that is placed now at level `u` gives way to it, but rests as it did -/
theorem Rests.min {i : Nat} {u : Rat} (h : Rests spacing ys done k t) (hzs : Spaced spacing zs)
    (hlen : zs.length = ys.length) (hki : k < i) (hi : i < zs.length)
    (hdone : ∀ j, done j → level spacing zs j = level spacing ys j) (hself : level spacing zs i = u)
    (hk : level spacing zs k = min (level spacing ys k) u) :
    Rests spacing zs (fun j => done j ∨ j = i) k t := by
  constructor
  · intro hlt
    -- the slot above that holds `k` down holds it there still
    obtain ⟨j, hjk, hj, heq⟩ := h.falls (hlt.trans_le (hk ▸ min_le_left _ _))
    refine ⟨j, hjk, .inl hj, le_antisymm (hzs j k hjk.le (hki.trans hi)) ?_⟩
    rw [hdone j hj, heq, hk]
    exact min_le_left _ _
  · intro hlt
    rcases min_choice (level spacing ys k) u with hmin | hmin
    · rw [hmin] at hk
      obtain ⟨j, hjk, hjlen, hj, heq⟩ := h.rises (hk ▸ hlt)
      exact ⟨j, hjk, hlen ▸ hjlen, .inl hj, by rw [hdone j hj, heq, hk]⟩
    · rw [hmin] at hk
      exact ⟨i, hki, hi, .inr rfl, by rw [hself, hk]⟩

theorem Rests.max {i : Nat} {u : Rat} (h : Rests spacing ys done k t) (hzs : Spaced spacing zs)
    (hlen : zs.length = ys.length) (hik : i < k)
    (hdone : ∀ j, done j → level spacing zs j = level spacing ys j) (hself : level spacing zs i = u)
    (hk : level spacing zs k = max (level spacing ys k) u) :
    Rests spacing zs (fun j => done j ∨ j = i) k t := by
  constructor
  · intro hlt
    rcases max_choice (level spacing ys k) u with hmax | hmax
    · rw [hmax] at hk
      obtain ⟨j, hjk, hj, heq⟩ := h.falls (hk ▸ hlt)
      exact ⟨j, hjk, .inl hj, by rw [hdone j hj, heq, hk]⟩
    · rw [hmax] at hk
      exact ⟨i, hik, .inr rfl, by rw [hself, hk]⟩
  · intro hlt
    obtain ⟨j, hjk, hjlen, hj, heq⟩ := h.rises ((hk ▸ le_max_left _ _).trans_lt hlt)
    refine ⟨j, hjk, hlen ▸ hjlen, .inl hj, le_antisymm ?_ (hzs k j hjk.le (hlen ▸ hjlen))⟩
    rw [hdone j hj, heq, hk]
    exact le_max_left _ _

/-- no row in which the done slots stand alike brings the slot nearer to what it wants -/
theorem Rests.abs_le (h : Rests spacing ys done k t) (hz : Spaced spacing zs)
    (hlen : zs.length = ys.length) (hk : k < ys.length)
    (hdone : ∀ j, j < ys.length → done j → level spacing zs j = level spacing ys j) :
    |ys.getD k 0 - t| ≤ |zs.getD k 0 - t| := by
  have hy : ys.getD k 0 - t = level spacing ys k - (t - k * spacing) := by
    rw [level]
    ring
  have hz' : zs.getD k 0 - t = level spacing zs k - (t - k * spacing) := by
    rw [level]
    ring
  rw [hy, hz']
  rcases lt_trichotomy (t - k * spacing) (level spacing ys k) with hlt | heq | hlt
  · obtain ⟨j, hjk, hj, hlevel⟩ := h.falls hlt
    have hle := hz j k hjk.le (by rw [hlen]; exact hk)
    rw [hdone j (hjk.trans hk) hj, hlevel] at hle
    rw [abs_of_pos (by linarith), abs_of_pos (by linarith)]
    linarith
  · rw [heq, sub_self, abs_zero]
    exact abs_nonneg _
  · obtain ⟨j, hjk, hjlen, hj, hlevel⟩ := h.rises hlt
    have hle := hz k j hjk.le (by rw [hlen]; exact hjlen)
    rw [hdone j hjlen hj, hlevel] at hle
    rw [abs_of_neg (by linarith), abs_of_neg (by linarith)]
    linarith

/-- so two rows in which the done slots stand alike and the slot wants the same agree on it -/
theorem Rests.unique (hy : Rests spacing ys done k t) (hz : Rests spacing zs done k t)
    (hys : Spaced spacing ys) (hzs : Spaced spacing zs) (hlen : zs.length = ys.length)
    (hk : k < ys.length) (hdone : ∀ j, j < ys.length → done j → level spacing zs j = level spacing ys j) :
    level spacing zs k = level spacing ys k := by
  have hbelow {us vs : List Rat} (hu : Rests spacing us done k t) (hv : Rests spacing vs done k t)
      (hus : Spaced spacing us) (hvs : Spaced spacing vs) (hlen : vs.length = us.length)
      (hk : k < us.length)
      (hdone : ∀ j, j < us.length → done j → level spacing vs j = level spacing us j) :
      ¬ level spacing us k < level spacing vs k := by
    intro hlt
    rcases lt_or_ge (t - k * spacing) (level spacing vs k) with hfall | hrise
    · obtain ⟨j, hjk, hj, heq⟩ := hv.falls hfall
      have hle := hus j k hjk.le hk
      rw [← hdone j (hjk.trans hk) hj, heq] at hle
      exact absurd hlt (not_lt.2 hle)
    · obtain ⟨j, hjk, hjlen, hj, heq⟩ := hu.rises (hlt.trans_le hrise)
      have hle := hvs k j hjk.le (hlen ▸ hjlen)
      rw [hdone j hjlen hj, heq] at hle
      exact absurd hlt (not_lt.2 hle)
  refine le_antisymm (not_lt.1 (hbelow hy hz hys hzs hlen hk hdone)) (not_lt.1 ?_)
  exact hbelow hz hy hzs hys hlen.symm (hlen ▸ hk) fun j hj hdonej =>
    (hdone j (hlen ▸ hj) hdonej).symm

end

/-! ## placing one slot after the other -/

/-- the row with the slots `done` placed: those that are not yet rest where they came in -/
structure Placing (spacing : Rat) (heights : List Rat) (targets : List (Option Rat)) (done : List Nat)
    (row : List (Slot Rat)) : Prop where
  length : row.length = heights.length
  spaced : Spaced spacing (row.map Slot.height)
  target : ∀ k s, row[k]? = some s → targets.getD k none = s.target
  placed : ∀ k s, row[k]? = some s → (s.placed = true ↔ k ∈ done)
  rests : ∀ k < heights.length, k ∉ done →
    Rests spacing (row.map Slot.height) (· ∈ done) k (heights.getD k 0)

section
variable {spacing : Rat} {heights : List Rat} {targets : List (Option Rat)} {done : List Nat}
  {row : List (Slot Rat)} {i : Nat}

theorem level_giveWay (spacing : Rat) (i : Nat) (u : Rat) {k : Nat} (hk : k < row.length) :
    level spacing ((giveWay spacing row i u).map Slot.height) k
      = if k < i then min (level spacing (row.map Slot.height) k) u
        else if i < k then max (level spacing (row.map Slot.height) k) u else u := by
  have hget := List.getElem?_eq_getElem hk
  have hgive := getElem?_giveWay spacing row i k u
  rw [hget, Option.map_some] at hgive
  rw [level_height hgive, level_height hget]
  split
  · rw [← min_sub_sub_right, add_sub_cancel_right]
  · split
    · rw [← max_sub_sub_right, add_sub_cancel_right]
    · exact add_sub_cancel_right _ _

theorem level_giveWay_self (spacing : Rat) (u : Rat) (hi : i < row.length) :
    level spacing ((giveWay spacing row i u).map Slot.height) i = u := by
  rw [level_giveWay spacing i u hi, if_neg (lt_irrefl i), if_neg (lt_irrefl i)]

theorem length_giveWay (spacing : Rat) (row : List (Slot Rat)) (i : Nat) (u : Rat) :
    (giveWay spacing row i u).length = row.length := List.length_mapIdx

/-- slots keep their targets, and only the slot `i` is placed -/
theorem exists_of_getElem?_giveWay {u : Rat} {k : Nat} {p : Slot Rat}
    (hp : (giveWay spacing row i u)[k]? = some p) :
    ∃ q, row[k]? = some q ∧ p.target = q.target ∧ (p.placed = true ↔ q.placed = true ∨ k = i) := by
  rw [getElem?_giveWay, Option.map_eq_some_iff] at hp
  obtain ⟨q, hq, rfl⟩ := hp
  refine ⟨q, hq, ?_, ?_⟩
  · split
    · rfl
    · split <;> rfl
  · rcases Nat.lt_trichotomy k i with hk | rfl | hk
    · simp [hk, hk.ne]
    · simp [Slot.moveTo]
    · simp [hk, hk.ne', not_lt.2 hk.le]

section
variable {s : Slot Rat} {u : Rat} (h : Placing spacing heights targets done row)
  (hi : i < heights.length) (hnot : i ∉ done) (hland : Landing spacing row i s u)
include h hnot hland

theorem Placing.level_done {j : Nat} (hj : j ∈ done) :
    level spacing ((giveWay spacing row i u).map Slot.height) j
      = level spacing (row.map Slot.height) j := by
  rcases Nat.lt_or_ge j row.length with hjlen | hjlen
  · have hget := List.getElem?_eq_getElem hjlen
    have hplaced := (h.placed j _ hget).2 hj
    rw [level_giveWay spacing i u hjlen]
    rcases Nat.lt_trichotomy j i with hlt | rfl | hlt
    · rw [if_pos hlt, min_eq_left (hland.above j _ hlt hget hplaced)]
    · exact absurd hj hnot
    · rw [if_neg hlt.asymm, if_pos hlt, max_eq_left (hland.below j _ hlt hget hplaced)]
  · refine level_congr ?_
    rw [List.getD_eq_default _ _ (by rw [List.length_map, length_giveWay]; exact hjlen),
      List.getD_eq_default _ _ (by rw [List.length_map]; exact hjlen)]

include hi

/-- slots that are not done rest where they came in, now that `i` may hold them too -/
theorem Placing.rests_waiting (hspaced : Spaced spacing ((giveWay spacing row i u).map Slot.height))
    {k : Nat} (hk : k < heights.length) (hkdone : k ∉ done ++ [i]) :
    Rests spacing ((giveWay spacing row i u).map Slot.height) (· ∈ done ++ [i]) k
      (heights.getD k 0) := by
  rw [List.mem_append, List.mem_singleton, not_or] at hkdone
  have hrests := h.rests k hk hkdone.1
  have hself := level_giveWay_self spacing u (h.length ▸ hi : i < row.length)
  have hkept (j : Nat) (hj : j ∈ done) := h.level_done hnot hland hj
  have hlevel := level_giveWay spacing i u (h.length ▸ hk : k < row.length)
  have hlen : ((giveWay spacing row i u).map Slot.height).length = (row.map Slot.height).length := by
    rw [List.length_map, List.length_map, length_giveWay]
  have hmore (j : Nat) (hj : j ∈ done ∨ j = i) : j ∈ done ++ [i] := by
    rwa [List.mem_append, List.mem_singleton]
  rcases Nat.lt_or_gt_of_ne hkdone.2 with hki | hik
  · rw [if_pos hki] at hlevel
    have hin : i < ((giveWay spacing row i u).map Slot.height).length := by
      rw [hlen, List.length_map, h.length]
      exact hi
    exact (hrests.min hspaced hlen hki hin hkept hself hlevel).imp hmore
  · rw [if_neg hik.asymm, if_pos hik] at hlevel
    exact (hrests.max hspaced hlen hik hkept hself hlevel).imp hmore

theorem Placing.rests_placed (hs : row[i]? = some s) :
    Rests spacing ((giveWay spacing row i u).map Slot.height) (· ∈ done) i
      (wanted heights targets i) := by
  have hself := level_giveWay_self spacing u (h.length ▸ hi : i < row.length)
  have hheld {j : Nat} {p : Slot Rat} (hp : row[j]? = some p) (hplaced : p.placed = true)
      (heq : level spacing (row.map Slot.height) j = u) :
      j ∈ done ∧ level spacing ((giveWay spacing row i u).map Slot.height) j
        = level spacing ((giveWay spacing row i u).map Slot.height) i := by
    have hj := (h.placed j p hp).1 hplaced
    exact ⟨hj, by rw [h.level_done hnot hland hj, heq, hself]⟩
  cases ht : s.target with
  | none =>
    rw [wanted, h.target i s hs, ht, Option.getD_none]
    refine (h.rests i hi hnot).congr (by rw [List.length_map, List.length_map, length_giveWay]) ?_
      fun j hj => h.level_done hnot hland hj
    rw [hself, hland.stays ht]
  | some t =>
    rw [wanted, h.target i s hs, ht, Option.getD_some]
    refine ⟨fun hlt => ?_, fun hlt => ?_⟩
    · rw [hself] at hlt
      obtain ⟨j, p, hji, hp, hplaced, heq⟩ := hland.falls t ht hlt
      exact ⟨j, hji, hheld hp hplaced heq⟩
    · rw [hself] at hlt
      obtain ⟨j, p, hij, hp, hplaced, heq⟩ := hland.rises t ht hlt
      refine ⟨j, hij, ?_, hheld hp hplaced heq⟩
      rw [List.length_map, length_giveWay]
      exact (List.getElem?_eq_some_iff.1 hp).1

end

/-- slots that are done stay where they are, and the slot placed rests at what it wants -/
theorem Placing.place (h : Placing spacing heights targets done row) (hi : i < heights.length)
    (hnot : i ∉ done) :
    Placing spacing heights targets (done ++ [i]) (placeSlot spacing row i) ∧
      (∀ j ∈ done, level spacing ((placeSlot spacing row i).map Slot.height) j
        = level spacing (row.map Slot.height) j) ∧
      Rests spacing ((placeSlot spacing row i).map Slot.height) (· ∈ done) i
        (wanted heights targets i) := by
  obtain ⟨s, hs⟩ : ∃ s, row[i]? = some s := ⟨_, List.getElem?_eq_getElem (h.length ▸ hi)⟩
  obtain ⟨u, hplace, hland⟩ := placeSlot_eq_giveWay h.spaced hs
  have hspaced : Spaced spacing ((placeSlot spacing row i).map Slot.height) :=
    spaced_iff_isChain.2 (isChain_heights.2 (isChain_placeSlot
      (isChain_heights.1 (spaced_iff_isChain.1 h.spaced)) i))
  rw [hplace] at hspaced ⊢
  refine ⟨⟨(length_giveWay ..).trans h.length, hspaced, fun k p hp => ?_, fun k p hp => ?_,
    fun k hk hkdone => h.rests_waiting hi hnot hland hspaced hk hkdone⟩,
    fun j hj => h.level_done hnot hland hj, h.rests_placed hi hnot hland hs⟩
  · obtain ⟨q, hq, htarget, _⟩ := exists_of_getElem?_giveWay hp
    rw [h.target k q hq, htarget]
  · obtain ⟨q, hq, _, hplaced⟩ := exists_of_getElem?_giveWay hp
    rw [hplaced, h.placed k q hq, List.mem_append, List.mem_singleton]

/-- all slots of `left` placed in turn: those that were done stay, and each rests at what it wants -/
theorem Placing.foldl (h : Placing spacing heights targets done row) (left : List Nat)
    (hnodup : (done ++ left).Nodup) (hleft : ∀ i ∈ left, i < heights.length) :
    Placing spacing heights targets (done ++ left) (left.foldl (placeSlot spacing) row) ∧
      (∀ j ∈ done, level spacing ((left.foldl (placeSlot spacing) row).map Slot.height) j
        = level spacing (row.map Slot.height) j) ∧
      ∀ before i after, left = before ++ i :: after →
        Rests spacing ((left.foldl (placeSlot spacing) row).map Slot.height) (· ∈ done ++ before) i
          (wanted heights targets i) := by
  induction left generalizing done row with
  | nil =>
    refine ⟨by rw [List.append_nil]; exact h, fun _ _ => rfl, fun before i after heq => ?_⟩
    exact absurd heq (by simp)
  | cons i left ih =>
    have hnot : i ∉ done := fun hmem =>
      (List.nodup_append.1 hnodup).2.2 i hmem i List.mem_cons_self rfl
    have hi := hleft i List.mem_cons_self
    obtain ⟨hplaced, hkept, hrests⟩ := h.place hi hnot
    have hassoc : done ++ [i] ++ left = done ++ i :: left := List.append_assoc ..
    obtain ⟨hall, hkept', hrests'⟩ := ih hplaced (hassoc ▸ hnodup) fun j hj =>
      hleft j (List.mem_cons_of_mem i hj)
    rw [List.foldl_cons]
    refine ⟨hassoc ▸ hall, fun j hj => ?_, fun before k after heq => ?_⟩
    · rw [hkept' j (List.mem_append_left _ hj), hkept j hj]
    · cases before with
      | nil =>
        obtain ⟨rfl, rfl⟩ := List.cons.inj heq
        rw [List.append_nil]
        refine hrests.congr ?_ (hkept' i (List.mem_append_right _ (List.mem_singleton_self i)))
          fun j hj => hkept' j (List.mem_append_left _ hj)
        rw [List.length_map, List.length_map, hall.length, hplaced.length]
      | cons j before =>
        obtain ⟨rfl, rfl⟩ := List.cons.inj heq
        rw [List.append_cons]
        exact hrests' before k after rfl

end

/-! ## the whole row -/

/-- each slot rests at what it wants, as far as those before it in the order allow -/
structure Settled (spacing : Rat) (heights : List Rat) (targets : List (Option Rat)) (order : List Nat)
    (ys : List Rat) : Prop where
  length : ys.length = heights.length
  spaced : Spaced spacing ys
  rests : ∀ before i after, order = before ++ i :: after →
    Rests spacing ys (· ∈ before) i (wanted heights targets i)

section
variable {spacing : Rat} {heights : List Rat} {targets : List (Option Rat)} {order : List Nat}
  {ys zs : List Rat}

theorem placing_start (hgaps : heights.IsChain fun y z => y + spacing ≤ z)
    (ht : targets.length = heights.length) :
    Placing spacing heights targets [] (unplacedRow heights targets) := by
  have hheights : (unplacedRow heights targets).map Slot.height = heights := height_unplacedRow ht.ge
  have hget {k : Nat} {s : Slot Rat} (hs : (unplacedRow heights targets)[k]? = some s) :
      targets[k]? = some s.target ∧ s.placed = false := by
    rw [unplacedRow, List.getElem?_zipWith] at hs
    cases hy : heights[k]? with
    | none => rw [hy] at hs; cases hs
    | some y =>
      cases htk : targets[k]? with
      | none => rw [hy, htk] at hs; cases hs
      | some t =>
        rw [hy, htk] at hs
        obtain rfl := Option.some.inj hs
        exact ⟨rfl, rfl⟩
  refine ⟨?_, ?_, fun k s hs => ?_, fun k s hs => ?_, fun k hk _ => ?_⟩
  · rw [unplacedRow, List.length_zipWith, ht, Nat.min_self]
  · rw [hheights]
    exact spaced_iff_isChain.2 hgaps
  · rw [List.getD_eq_getElem?_getD, (hget hs).1]
    rfl
  · rw [(hget hs).2]
    simp
  · rw [hheights]
    exact ⟨fun hlt => absurd hlt (lt_irrefl _), fun hlt => absurd hlt (lt_irrefl _)⟩

theorem settled_foldl (hgaps : heights.IsChain fun y z => y + spacing ≤ z)
    (ht : targets.length = heights.length) (horder : order.Perm (List.range heights.length)) :
    Settled spacing heights targets order
      ((order.foldl (placeSlot spacing) (unplacedRow heights targets)).map Slot.height) := by
  have hnodup : order.Nodup := horder.nodup_iff.2 List.nodup_range
  obtain ⟨hplacing, _, hrests⟩ := (placing_start hgaps ht).foldl order hnodup fun i hi =>
    List.mem_range.1 (horder.mem_iff.1 hi)
  exact ⟨by rw [List.length_map, hplacing.length], hplacing.spaced, hrests⟩

/-- placed again, a settled row stays as it is: what a slot gets depends on those before it alone -/
theorem Settled.eq_of_again (h : Settled spacing heights targets order ys)
    (h' : Settled spacing ys targets order zs) (horder : order.Perm (List.range heights.length)) :
    zs = ys := by
  have hlevel (n : Nat) : ∀ before i after, before.length = n → order = before ++ i :: after →
      level spacing zs i = level spacing ys i := by
    induction n using Nat.strongRecOn with
    | ind n ih =>
      intro before i after hn heq
      have hdone (j : Nat) (_ : j < ys.length) (hj : j ∈ before) :
          level spacing zs j = level spacing ys j := by
        obtain ⟨before', after', rfl⟩ := List.append_of_mem hj
        refine ih before'.length ?_ before' j (after' ++ i :: after) rfl ?_
        · rw [← hn, List.length_append, List.length_cons]
          omega
        · rw [heq, List.append_assoc, List.cons_append]
      have hi : i < ys.length := by
        rw [h.length]
        refine List.mem_range.1 (horder.mem_iff.1 ?_)
        rw [heq]
        exact List.mem_append_right _ List.mem_cons_self
      have hrests := h'.rests before i after heq
      -- a slot that wants nothing counts as wanting to stay, and stays
      have hsame : Rests spacing ys (· ∈ before) i (wanted ys targets i) := by
        cases ht : targets.getD i none with
        | none =>
          rw [wanted, ht, Option.getD_none]
          exact ⟨fun hlt => absurd hlt (lt_irrefl _), fun hlt => absurd hlt (lt_irrefl _)⟩
        | some t =>
          have hrests := h.rests before i after heq
          rw [wanted, ht, Option.getD_some] at hrests ⊢
          exact hrests
      exact hsame.unique hrests h.spaced h'.spaced h'.length hi hdone
  refine List.ext_getElem h'.length fun i hi _ => ?_
  have hmem : i ∈ order := by
    rw [horder.mem_iff, List.mem_range, ← h.length, ← h'.length]
    exact hi
  obtain ⟨before, after, heq⟩ := List.append_of_mem hmem
  have hget := level_inj (hlevel before.length before i after rfl heq)
  rwa [List.getD_eq_getElem _ _ hi, List.getD_eq_getElem] at hget

end

/-! ## the nearest slots placed before -/

theorem nearestBefore_some {p : Nat → Bool} {i j : Nat} (h : nearestBefore p i = some j) :
    j < i ∧ p j = true := by
  induction i with
  | zero => cases h
  | succ i ih =>
    unfold nearestBefore at h
    split at h
    · rename_i hp
      obtain rfl := Option.some.inj h
      exact ⟨Nat.lt_succ_self i, hp⟩
    · obtain ⟨hlt, hp⟩ := ih h
      exact ⟨Nat.lt_succ_of_lt hlt, hp⟩

theorem exists_nearestBefore {p : Nat → Bool} {i j : Nat} (hj : j < i) (hp : p j = true) :
    ∃ m, nearestBefore p i = some m ∧ j ≤ m := by
  induction i with
  | zero => omega
  | succ i ih =>
    unfold nearestBefore
    split
    · exact ⟨i, rfl, Nat.le_of_lt_succ hj⟩
    · rename_i hi
      have hne : j ≠ i := fun heq => hi (heq ▸ hp)
      exact ih (by omega)

theorem nearestBehind_some {p : Nat → Bool} {n i j : Nat} (h : nearestBehind p n i = some j) :
    i < j ∧ j < n ∧ p j = true := by
  have hmem := List.mem_range'_1.1 (List.mem_of_find?_eq_some h)
  exact ⟨by omega, by omega, List.find?_some h⟩

theorem exists_nearestBehind {p : Nat → Bool} {n i j : Nat} (hij : i < j) (hjn : j < n)
    (hp : p j = true) : ∃ m, nearestBehind p n i = some m ∧ m ≤ j := by
  cases hfind : nearestBehind p n i with
  | none =>
    have hnone := List.find?_eq_none.1 hfind j (List.mem_range'_1.2 (by omega))
    exact absurd hp hnone
  | some m =>
    refine ⟨m, rfl, ?_⟩
    by_contra hlt
    obtain ⟨_, _, hfirst⟩ := List.find?_range'_eq_some.1 hfind
    have hnot := hfirst j (by omega) (not_le.1 hlt)
    rw [hp] at hnot
    cases hnot

/-- a number within the bounds that is off `t` only where a bound stops it -/
theorem clamp_eq {lo hi : Option Rat} {t y : Rat} (hlo : ∀ a, lo = some a → a ≤ y)
    (hhi : ∀ b, hi = some b → y ≤ b) (hfall : t < y → lo = some y) (hrise : y < t → hi = some y) :
    clamp lo hi t = y := by
  have hraise : lo.elim t (max t) = max t y := by
    rcases lt_or_ge t y with hlt | hle
    · rw [hfall hlt]
      rfl
    · rw [max_eq_left hle]
      cases lo with
      | none => rfl
      | some a => exact max_eq_left ((hlo a rfl).trans hle)
  show hi.elim (lo.elim t (max t)) (min (lo.elim t (max t))) = y
  rw [hraise]
  rcases lt_or_ge y t with hlt | hle
  · rw [hrise hlt]
    exact min_eq_right (le_max_right t y)
  · rw [max_eq_right hle]
    cases hi with
    | none => rfl
    | some b => exact min_eq_left (hhi b rfl)

theorem Rests.eq_projected {spacing : Rat} {ys : List Rat} {p : Nat → Bool} {i : Nat} {t : Rat}
    (h : Rests spacing ys (fun j => p j = true) i t) (hys : Spaced spacing ys) (hi : i < ys.length) :
    ys.getD i 0 = projected spacing ys p i t := by
  have hlevel {j : Nat} : level spacing ys j = ys.getD j 0 - j * spacing := rfl
  refine (clamp_eq ?_ ?_ ?_ ?_).symm
  · intro a ha
    obtain ⟨j, hj, rfl⟩ := Option.map_eq_some_iff.1 ha
    have hle := hys j i (nearestBefore_some hj).1.le hi
    rw [hlevel, hlevel] at hle
    linarith
  · intro b hb
    obtain ⟨j, hj, rfl⟩ := Option.map_eq_some_iff.1 hb
    have hle := hys i j (nearestBehind_some hj).1.le (nearestBehind_some hj).2.1
    rw [hlevel, hlevel] at hle
    linarith
  · intro hlt
    obtain ⟨j, hji, hj, heq⟩ := h.falls (by rw [hlevel]; linarith)
    obtain ⟨m, hm, hjm⟩ := exists_nearestBefore hji hj
    have hmi := (nearestBefore_some hm).1
    -- the levels do not fall from `j` over `m` to `i`, so `m` holds the slot as well
    have hsame : level spacing ys m = level spacing ys i :=
      le_antisymm (hys m i hmi.le hi) (heq ▸ hys j m hjm (hmi.trans hi))
    rw [hm, Option.map_some]
    rw [hlevel, hlevel] at hsame
    congr 1
    linarith
  · intro hlt
    obtain ⟨j, hij, hjlen, hj, heq⟩ := h.rises (by rw [hlevel]; linarith)
    obtain ⟨m, hm, hmj⟩ := exists_nearestBehind hij hjlen hj
    have him := (nearestBehind_some hm).1
    have hsame : level spacing ys m = level spacing ys i :=
      le_antisymm (heq ▸ hys m j hmj hjlen) (hys i m him.le (hmj.trans_lt hjlen))
    rw [hm, Option.map_some]
    rw [hlevel, hlevel] at hsame
    congr 1
    linarith

theorem mem_before_iff {priorities : List (Priority Rat)} {before after : List Nat} {i j : Nat}
    (h : placingOrder priorities = before ++ i :: after) (hj : j ∈ placingOrder priorities) :
    j ∈ before ↔ sooner priorities j i = true := by
  have hpairs := pairwise_placingOrder priorities
  rw [h, List.pairwise_append, List.pairwise_cons] at hpairs
  obtain ⟨_, ⟨hafter, _⟩, hbefore⟩ := hpairs
  refine ⟨fun hmem => hbefore j hmem i List.mem_cons_self, fun hsooner => ?_⟩
  rw [h, List.mem_append, List.mem_cons] at hj
  rcases hj with hj | rfl | hj
  · exact hj
  · rw [not_sooner_of_sooner hsooner] at hsooner
    cases hsooner
  · rw [not_sooner_of_sooner (hafter j hj)] at hsooner
    cases hsooner

/-! ## the whole row -/

section
variable {spacing : Rat} {heights ys : List Rat} {targets : List (Option Rat)}
  {priorities : List (Priority Rat)}

theorem placeRow_eq (ht : targets.length = heights.length) (hp : priorities.length = heights.length) :
    placeRow spacing heights targets priorities = .ok (placeSlots spacing heights targets priorities) := by
  have hlen : ¬ (targets.length < heights.length ∨ priorities.length < heights.length) := by omega
  rw [placeRow, if_neg hlen, ← hp, List.take_length]

/-- the slots that are done when the turn of `i` comes are those placed sooner -/
theorem Settled.rests_sooner (h : Settled spacing heights targets (placingOrder priorities) ys)
    (hperm : (placingOrder priorities).Perm (List.range heights.length)) {i : Nat}
    (hi : i < heights.length) :
    Rests spacing ys (fun j => sooner priorities j i = true) i (wanted heights targets i) := by
  have hmem {j : Nat} (hj : j < heights.length) : j ∈ placingOrder priorities :=
    hperm.mem_iff.2 (List.mem_range.2 hj)
  obtain ⟨before, after, heq⟩ := List.append_of_mem (hmem hi)
  have hrests := h.rests before i after heq
  have hin {j : Nat} (hj : j ∈ before) : sooner priorities j i = true := by
    refine (mem_before_iff heq ?_).1 hj
    rw [heq]
    exact List.mem_append_left _ hj
  refine ⟨fun hlt => ?_, fun hlt => ?_⟩
  · obtain ⟨j, hji, hj, hlevel⟩ := hrests.falls hlt
    exact ⟨j, hji, hin hj, hlevel⟩
  · obtain ⟨j, hij, hjlen, hj, hlevel⟩ := hrests.rises hlt
    exact ⟨j, hij, hjlen, hin hj, hlevel⟩

theorem wanted_of_target (heights : List Rat) {i : Nat} {t : Rat} (h : targets[i]? = some (some t)) :
    wanted heights targets i = t := by
  rw [wanted, List.getD_eq_getElem?_getD, h]
  rfl

/-- the first slot of all gets what it wants -/
theorem Settled.getElem?_head {order : List Nat} (h : Settled spacing heights targets order ys) {i : Nat}
    (hfirst : order.head? = some i) (hi : i < heights.length) :
    ys[i]? = some (wanted heights targets i) := by
  obtain ⟨after, heq⟩ := List.head?_eq_some_iff.1 hfirst
  have hrests := h.rests [] i after heq
  have hlevel : level spacing ys i = wanted heights targets i - i * spacing := by
    rcases lt_trichotomy (wanted heights targets i - i * spacing) (level spacing ys i)
      with hlt | heq | hlt
    · obtain ⟨j, _, hj, _⟩ := hrests.falls hlt
      cases hj
    · exact heq.symm
    · obtain ⟨j, _, _, hj, _⟩ := hrests.rises hlt
      cases hj
  rw [level, List.getD_eq_getElem _ _ (h.length ▸ hi)] at hlevel
  rw [List.getElem?_eq_getElem (h.length ▸ hi), sub_left_injective hlevel]

/-- the slots placed in the first `k` steps stand where they will stand in the end -/
theorem getElem?_rowAfter (hgaps : heights.IsChain fun y z => y + spacing ≤ z)
    (ht : targets.length = heights.length)
    (hperm : (placingOrder priorities).Perm (List.range heights.length)) {k i : Nat}
    (hi : i ∈ (placingOrder priorities).take k) :
    ((rowAfter spacing heights targets priorities k).map Slot.height)[i]?
      = (placeSlots spacing heights targets priorities)[i]? := by
  have hlt {j : Nat} (hj : j ∈ placingOrder priorities) : j < heights.length :=
    List.mem_range.1 (hperm.mem_iff.1 hj)
  have hnodup : ((placingOrder priorities).take k ++ (placingOrder priorities).drop k).Nodup := by
    rw [List.take_append_drop]
    exact hperm.nodup_iff.2 List.nodup_range
  obtain ⟨hrow, _, _⟩ := (placing_start hgaps ht).foldl ((placingOrder priorities).take k)
    (hnodup.sublist (List.sublist_append_left _ _)) fun j hj => hlt (List.mem_of_mem_take hj)
  obtain ⟨hall, hkept, _⟩ := hrow.foldl ((placingOrder priorities).drop k) hnodup
    fun j hj => hlt (List.mem_of_mem_drop hj)
  have hsame := level_inj (hkept i hi)
  rw [← List.foldl_append, List.take_append_drop] at hsame hall
  have hin := hlt (List.mem_of_mem_take hi)
  rw [List.getD_eq_getElem _ _ (by rw [List.length_map, hall.length]; exact hin),
    List.getD_eq_getElem _ _ (by rw [List.length_map, hrow.length]; exact hin)] at hsame
  have hlen : i < ((rowAfter spacing heights targets priorities k).map Slot.height).length := by
    rw [List.length_map]
    exact hrow.length ▸ hin
  rw [List.getElem?_eq_getElem hlen, placeSlots,
    List.getElem?_eq_getElem (by rw [List.length_map, hall.length]; exact hin)]
  exact congrArg some hsame.symm

/-- a row that keeps its distances is placed by the priority projection -/
theorem placeRow_projects (hgaps : heights.IsChain fun y z => y + spacing ≤ z)
    (ht : targets.length = heights.length) (hp : priorities.length = heights.length) :
    ∃ result, placeRow spacing heights targets priorities = .ok result ∧
      Projects spacing heights targets priorities result := by
  have hperm : (placingOrder priorities).Perm (List.range heights.length) := by
    rw [← hp]
    exact placingOrder_perm priorities
  have hsettled : Settled spacing heights targets (placingOrder priorities)
      (placeSlots spacing heights targets priorities) := settled_foldl hgaps ht hperm
  have hrests {i : Nat} (hi : i < heights.length) := hsettled.rests_sooner hperm hi
  have hchain := spaced_iff_isChain.1 hsettled.spaced
  have hlen := hsettled.length
  refine ⟨_, placeRow_eq ht hp, hlen, ⟨hperm, pairwise_placingOrder priorities⟩,
    fun i hi => (hrests hi).eq_projected hsettled.spaced (hlen ▸ hi), fun i t hfirst htarget => ?_,
    fun i t hi htarget zs hzlen hzs hsooner => ?_, fun k i hi => ?_, hchain, ?_⟩
  · have hi : i < heights.length :=
      List.mem_range.1 (hperm.mem_iff.1 (List.mem_of_mem_head? hfirst))
    rw [hsettled.getElem?_head hfirst hi, wanted_of_target heights htarget]
  · rw [← wanted_of_target heights htarget]
    refine (hrests hi).abs_le (spaced_iff_isChain.2 hzs) (hzlen.trans hlen.symm) (hlen ▸ hi) ?_
    exact fun j hj hdone => level_congr (hsooner j (hlen ▸ hj) hdone)
  · exact getElem?_rowAfter hgaps ht hperm hi
  · rw [placeRow_eq (ht.trans hlen.symm) (hp.trans hlen.symm)]
    have hagain : Settled spacing (placeSlots spacing heights targets priorities) targets
        (placingOrder priorities) (placeSlots spacing (placeSlots spacing heights targets priorities)
          targets priorities) := settled_foldl hchain (ht.trans hlen.symm) (hlen ▸ hperm)
    rw [hsettled.eq_of_again hagain hperm]

end

/-- the third of four slots goes first and gets what it wants, and the others make room as far as they
may: the second wants to stay, but there is one place left for it -/
theorem placeRow_projects_four :
    [(0 : Rat), 2, 4, 6].IsChain (fun y z => y + 2 ≤ z) ∧
      Projects 2 [0, 2, 4, 6] [some 9, none, some 7, none] [.value 1, .value 0, .top, .value 1]
        [3, 5, 7, 9] := by
  have hgaps : [(0 : Rat), 2, 4, 6].IsChain fun y z => y + 2 ≤ z := by decide +kernel
  obtain ⟨result, hok, hprojects⟩ : ∃ result, placeRow (2 : Rat) [0, 2, 4, 6]
        [some 9, none, some 7, none] [.value 1, .value 0, .top, .value 1] = .ok result ∧
      Projects 2 [0, 2, 4, 6] [some 9, none, some 7, none] [.value 1, .value 0, .top, .value 1]
        result := placeRow_projects hgaps rfl rfl
  have hresult : placeRow (2 : Rat) [0, 2, 4, 6] [some 9, none, some 7, none]
      [.value 1, .value 0, .top, .value 1] = .ok [3, 5, 7, 9] := by decide +kernel
  rw [← Except.ok.inj (hok.symm.trans hresult)]
  exact ⟨hgaps, hprojects⟩

end LayeredDrawing
