import LayeredDrawing.Proofs.Placement.Row
import Mathlib.Algebra.Order.Group.MinMax
import Mathlib.Data.List.TakeWhile

/-!
# Levels

The level of a slot is its height less the room that the slots before it need, so a row keeps its
distances exactly if its levels never fall.  When a slot is placed at some level, every slot above it
comes to stand at no higher level and every slot below it at no lower one, and no slot moves further
than that.  How far the loop has to push does not matter: slots beyond have the right levels already.

* `spaced_iff_isChain`        distances as levels;
* `pushUp_eq_mapIdx`          pushed slots one by one;
* `heightUp_spec`, `heightDown_spec`   the height that a moving slot gets;
* `placeSlot_eq_giveWay`      what placing one slot does to the whole row.
-/

namespace LayeredDrawing

open Scalar

variable {spacing : Rat}

/-- the height at a position less the room that the positions before it need -/
def level (spacing : Rat) (ys : List Rat) (k : Nat) : Rat := ys.getD k 0 - k * spacing

/-- levels never fall along the row -/
def Spaced (spacing : Rat) (ys : List Rat) : Prop :=
  ∀ j k, j ≤ k → k < ys.length → level spacing ys j ≤ level spacing ys k

theorem level_of_getElem? {ys : List Rat} {k : Nat} {y : Rat} (h : ys[k]? = some y) :
    level spacing ys k = y - k * spacing := by
  rw [level, List.getD_eq_getElem?_getD, h]
  rfl

theorem spaced_iff_isChain {ys : List Rat} :
    Spaced spacing ys ↔ ys.IsChain fun y z => y + spacing ≤ z := by
  have hstep (k : Nat) (hk : k + 1 < ys.length) :
      level spacing ys k ≤ level spacing ys (k + 1) ↔ ys[k] + spacing ≤ ys[k + 1] := by
    rw [level_of_getElem? (List.getElem?_eq_getElem (Nat.lt_of_succ_lt hk)),
      level_of_getElem? (List.getElem?_eq_getElem hk)]
    push_cast
    constructor <;> intro h <;> linarith
  rw [List.isChain_iff_getElem]
  constructor
  · intro h k hk
    exact (hstep k hk).1 (h k (k + 1) (Nat.le_succ k) hk)
  · intro h j k hjk
    induction k, hjk using Nat.le_induction with
    | base => exact fun _ => le_refl _
    | succ k _ ih =>
      intro hk
      exact (ih (Nat.lt_of_succ_lt hk)).trans ((hstep k hk).2 (h k hk))

/-! ## pushing -/

/-- a slot `m + 1` places above another one -/
theorem room_getElem? {s p : Slot Rat} {l : List (Slot Rat)} {m : Nat}
    (h : (s :: l).IsChain (ClearAbove spacing)) (hp : l[m]? = some p) :
    p.height + (m + 1) * spacing ≤ s.height := by
  obtain ⟨hm, rfl⟩ := List.getElem?_eq_some_iff.1 hp
  have hsplit : l = l.take m ++ l[m] :: l.drop (m + 1) := by
    rw [List.getElem_cons_drop, List.take_append_drop]
  rw [hsplit] at h
  have hroom := room_of_isChain h
  rw [List.length_take_of_le hm.le] at hroom
  push_cast at hroom
  exact hroom

theorem pushUp_eq_mapIdx {l : List (Slot Rat)} (h : l.IsChain (ClearAbove spacing)) (y : Rat) :
    pushUp spacing y l
      = l.mapIdx fun m p => { p with height := min p.height (y - (m + 1) * spacing) } := by
  induction l generalizing y with
  | nil => rfl
  | cons s l ih =>
    rw [pushUp, List.mapIdx_cons, ih h.tail, smaller_rat]
    refine congrArg₂ List.cons (by simp) (List.ext_getElem? fun m => ?_)
    rw [List.getElem?_mapIdx, List.getElem?_mapIdx]
    cases hp : l[m]? with
    | none => rfl
    | some p =>
      -- `s` itself is far enough from `p`, so only where `s` is pushed to can matter
      have hroom := room_getElem? h hp
      have hmin : min p.height (min s.height (y - spacing) - (m + 1) * spacing)
          = min p.height (y - ((m + 1 : Nat) + 1) * spacing) := by
        rw [← min_sub_sub_right, ← min_assoc, min_eq_left (by linarith : p.height ≤ _)]
        push_cast
        congr 1
        ring
      simp only [Option.map_some, hmin]

theorem mirror_injective : Function.Injective Slot.mirror := by
  intro a b hab
  obtain ⟨ha, ta, pa⟩ := a
  obtain ⟨hb, tb, pb⟩ := b
  simpa [Slot.mirror] using hab

theorem neg_max_add (a b c : Rat) : -max a (b + c) = min (-a) (-b - c) := by
  rw [← min_neg_neg]
  congr 1
  ring

/-! ## the height of a moving slot -/

/-- the first slot behind the loose ones, if there is any, is placed -/
theorem getElem?_behindLoose {l more : List (Slot Rat)} {p : Slot Rat}
    (h : behindLoose l = p :: more) : l[(loose l).length]? = some p ∧ p.placed = true := by
  have hl : l = loose l ++ p :: more := by rw [← h, loose_append_behindLoose]
  refine ⟨?_, ?_⟩
  · rw [hl, List.getElem?_append_right (Nat.le_of_eq (by rw [← hl]))]
    rw [← hl, Nat.sub_self]
    rfl
  · have hhead := List.head?_dropWhile_not (fun s : Slot Rat => !s.placed) l
    rw [show List.dropWhile (fun s : Slot Rat => !s.placed) l = p :: more from h] at hhead
    simpa using hhead

theorem not_placed_of_lt_loose {l : List (Slot Rat)} {m : Nat} {q : Slot Rat}
    (hm : m < (loose l).length) (hq : l[m]? = some q) : q.placed = false := by
  rw [← loose_append_behindLoose l, List.getElem?_append_left hm] at hq
  simpa using List.mem_takeWhile_imp (List.mem_of_getElem? hq)

/-- the height leaves room to every placed slot above, and differs from the target only if one of
them leaves no more -/
theorem heightUp_spec {s : Slot Rat} {above : List (Slot Rat)}
    (h : (s :: above).IsChain (ClearAbove spacing)) (t : Rat) :
    t ≤ heightUp spacing above t ∧
      (∀ (m : Nat) (p : Slot Rat), above[m]? = some p → p.placed = true →
        p.height + (m + 1) * spacing ≤ heightUp spacing above t) ∧
      (heightUp spacing above t = t ∨ ∃ (m : Nat) (p : Slot Rat), above[m]? = some p ∧ p.placed = true ∧
        heightUp spacing above t = p.height + (m + 1) * spacing) := by
  cases hb : behindLoose above with
  | nil =>
    have hy : heightUp spacing above t = t := by rw [heightUp, hb]
    rw [hy]
    refine ⟨le_refl t, fun m p hp hplaced => ?_, .inl rfl⟩
    have hlen : above = loose above := by
      conv_lhs => rw [← loose_append_behindLoose above, hb, List.append_nil]
    have hm : m < (loose above).length := by
      rw [← hlen]
      exact (List.getElem?_eq_some_iff.1 hp).1
    rw [not_placed_of_lt_loose hm hp] at hplaced
    cases hplaced
  | cons q more =>
    obtain ⟨hq, hqplaced⟩ := getElem?_behindLoose hb
    have hy : heightUp spacing above t
        = max t (q.height + ((loose above).length + 1) * spacing) := by
      rw [heightUp, hb]
      show larger t (q.height + ofNat ((loose above).length + 1) * spacing) = _
      rw [larger_rat, ofNat_eq_cast]
      push_cast
      rfl
    rw [hy]
    refine ⟨le_max_left _ _, fun m p hp hplaced => le_max_of_le_right ?_, ?_⟩
    · have hm : (loose above).length ≤ m := by
        by_contra hlt
        rw [not_placed_of_lt_loose (not_le.1 hlt) hp] at hplaced
        cases hplaced
      rcases hm.eq_or_lt with rfl | hm
      · rw [Option.some.inj (hq.symm.trans hp)]
      · -- further away, behind `q`
        obtain ⟨d, rfl⟩ : ∃ d, m = (loose above).length + 1 + d := ⟨m - (loose above).length - 1, by omega⟩
        have habove : loose above ++ q :: more = above := by rw [← hb, loose_append_behindLoose]
        have hpmore : more[d]? = some p := by
          have hd : (loose above).length + 1 + d - (loose above).length = d + 1 := by omega
          rw [← List.getElem?_cons_succ (a := q), ← hd, ← List.getElem?_append_right (by omega), habove]
          exact hp
        have hchain : (q :: more).IsChain (ClearAbove spacing) := by
          have htail : (loose above ++ q :: more).IsChain (ClearAbove spacing) := by
            rw [habove]
            exact h.tail
          exact htail.right_of_append
        have hroom := room_getElem? hchain hpmore
        push_cast
        linarith
    · rcases max_choice t (q.height + ((loose above).length + 1) * spacing) with hmax | hmax
      · exact .inl hmax
      · exact .inr ⟨_, q, hq, hqplaced, hmax⟩

theorem heightDown_spec {s : Slot Rat} {below : List (Slot Rat)}
    (h : (s :: below).IsChain (Clear spacing)) (t : Rat) :
    heightDown spacing below t ≤ t ∧
      (∀ (m : Nat) (p : Slot Rat), below[m]? = some p → p.placed = true →
        heightDown spacing below t + (m + 1) * spacing ≤ p.height) ∧
      (heightDown spacing below t = t ∨ ∃ (m : Nat) (p : Slot Rat), below[m]? = some p ∧ p.placed = true ∧
        heightDown spacing below t + (m + 1) * spacing = p.height) := by
  obtain ⟨hle, hroom, htight⟩ := heightUp_spec (isChain_mirror.2 h) (-t)
  rw [← heightDown_eq_mirror] at hle hroom htight
  refine ⟨by linarith, fun m p hp hplaced => ?_, ?_⟩
  · have hm := hroom m p.mirror (by rw [List.getElem?_map, hp]; rfl) hplaced
    change -p.height + _ ≤ _ at hm
    linarith
  · rcases htight with heq | ⟨m, p, hp, hplaced, heq⟩
    · exact .inl (by linarith)
    · rw [List.getElem?_map, Option.map_eq_some_iff] at hp
      obtain ⟨q, hq, rfl⟩ := hp
      change _ = -q.height + _ at heq
      exact .inr ⟨m, q, hq, hplaced, by linarith⟩

/-! ## placing one slot -/

/-- the row after its slot `i` has been placed at level `u` and the others have given way -/
def giveWay (spacing : Rat) (row : List (Slot Rat)) (i : Nat) (u : Rat) : List (Slot Rat) :=
  row.mapIdx fun k s =>
    if k < i then { s with height := min s.height (u + k * spacing) }
    else if i < k then { s with height := max s.height (u + k * spacing) }
    else s.moveTo (u + k * spacing)

theorem getElem?_giveWay (spacing : Rat) (row : List (Slot Rat)) (i k : Nat) (u : Rat) :
    (giveWay spacing row i u)[k]? = (row[k]?).map fun s =>
      if k < i then { s with height := min s.height (u + k * spacing) }
      else if i < k then { s with height := max s.height (u + k * spacing) }
      else s.moveTo (u + k * spacing) := List.getElem?_mapIdx ..

/-- the slots above are pushed as far as the first placed one, which stands far enough away -/
theorem pushUp_loose {s : Slot Rat} {above : List (Slot Rat)} {t : Rat}
    (h : (s :: above).IsChain (ClearAbove spacing)) :
    pushUp spacing (heightUp spacing above t) (loose above) ++ behindLoose above
      = above.mapIdx fun m p =>
          { p with height := min p.height (heightUp spacing above t - (m + 1) * spacing) } := by
  have hsplit : loose above ++ behindLoose above = above := loose_append_behindLoose above
  have hchain : (loose above ++ behindLoose above).IsChain (ClearAbove spacing) := by
    rw [hsplit]
    exact h.tail
  obtain ⟨_, hroom, _⟩ := heightUp_spec h t
  generalize heightUp spacing above t = y at hroom
  conv_rhs => rw [← hsplit, List.mapIdx_append]
  rw [pushUp_eq_mapIdx hchain.left_of_append]
  congr 1
  cases hb : behindLoose above with
  | nil => rfl
  | cons q more =>
    obtain ⟨hq, hqplaced⟩ := getElem?_behindLoose hb
    have hqroom := hroom _ q hq hqplaced
    have hstay {m : Nat} {p : Slot Rat} (hp : p.height + m * spacing ≤ q.height) :
        min p.height (y - (((m + (loose above).length : Nat) : Rat) + 1) * spacing) = p.height := by
      refine min_eq_left ?_
      push_cast
      linarith
    rw [hb] at hchain
    rw [List.mapIdx_cons]
    refine congrArg₂ List.cons ?_ (List.ext_getElem? fun m => ?_)
    · have hself := hstay (m := 0) (p := q) (by simp)
      rw [hself]
    · rw [List.getElem?_mapIdx]
      cases hp : more[m]? with
      | none => rfl
      | some p =>
        have hroom' := room_getElem? hchain.right_of_append hp
        have hself := hstay (m := m + 1) (p := p) (by push_cast; exact hroom')
        rw [Option.map_some, hself]

theorem pushDown_loose {s : Slot Rat} {below : List (Slot Rat)} {t : Rat}
    (h : (s :: below).IsChain (Clear spacing)) :
    pushDown spacing (heightDown spacing below t) (loose below) ++ behindLoose below
      = below.mapIdx fun m p =>
          { p with height := max p.height (heightDown spacing below t + (m + 1) * spacing) } := by
  have hup := pushUp_loose (t := -t) (isChain_mirror.2 h)
  rw [← heightDown_eq_mirror, loose_mirror, ← pushDown_eq_mirror, behindLoose_mirror,
    ← List.map_append] at hup
  refine List.map_injective_iff.2 mirror_injective (hup.trans (List.ext_getElem? fun m => ?_))
  rw [List.getElem?_mapIdx, List.getElem?_map, List.getElem?_map, List.getElem?_mapIdx]
  cases below[m]? with
  | none => rfl
  | some p => simp only [Option.map_some, Slot.mirror, neg_max_add]

section
variable {row : List (Slot Rat)} {i : Nat} {s : Slot Rat}

theorem mapIdx_eq_self {β : Type} {l : List β} {f : Nat → β → β}
    (h : ∀ k p, l[k]? = some p → f k p = p) : l.mapIdx f = l := by
  refine List.ext_getElem? fun k => ?_
  rw [List.getElem?_mapIdx]
  cases hp : l[k]? with
  | none => rfl
  | some p => rw [Option.map_some, h k p hp]

theorem giveWay_around (hs : row[i]? = some s) (u : Rat) : giveWay spacing row i u
    = (row.take i).mapIdx (fun k p => { p with height := min p.height (u + k * spacing) })
      ++ s.moveTo (u + i * spacing) :: (row.drop (i + 1)).mapIdx fun m p =>
        { p with height := max p.height (u + (i + 1 + m : Nat) * spacing) } := by
  obtain ⟨hi, hget⟩ := List.getElem?_eq_some_iff.1 hs
  have hlen : (row.take i).length = i := List.length_take_of_le hi.le
  refine List.ext_getElem? fun k => ?_
  rw [getElem?_giveWay]
  rcases Nat.lt_trichotomy k i with hk | rfl | hk
  · rw [List.getElem?_append_left (by rw [List.length_mapIdx, hlen]; exact hk), List.getElem?_mapIdx,
      List.getElem?_take_of_lt hk]
    simp only [if_pos hk]
  · rw [List.getElem?_append_right (by rw [List.length_mapIdx, hlen]), List.length_mapIdx, hlen,
      Nat.sub_self, hs]
    simp only [Option.map_some, lt_irrefl, if_false, List.getElem?_cons_zero]
  · obtain ⟨m, rfl⟩ : ∃ m, k = i + 1 + m := ⟨k - i - 1, by omega⟩
    rw [List.getElem?_append_right (by rw [List.length_mapIdx, hlen]; omega), List.length_mapIdx, hlen]
    have hindex : i + 1 + m - i = m + 1 := by omega
    rw [hindex, List.getElem?_cons_succ, List.getElem?_mapIdx, List.getElem?_drop]
    simp only [if_neg (by omega : ¬ i + 1 + m < i), if_pos hk]

/-- what is asked of the level `u` at which the slot `i` is placed: the placed slots have room, and a
slot misses its target only where one of them leaves no more -/
structure Landing (spacing : Rat) (row : List (Slot Rat)) (i : Nat) (s : Slot Rat) (u : Rat) : Prop where
  above : ∀ k p, k < i → row[k]? = some p → p.placed = true →
    level spacing (row.map Slot.height) k ≤ u
  below : ∀ k p, i < k → row[k]? = some p → p.placed = true →
    u ≤ level spacing (row.map Slot.height) k
  stays : s.target = none → u = level spacing (row.map Slot.height) i
  falls : ∀ t, s.target = some t → t - i * spacing < u → ∃ k p, k < i ∧ row[k]? = some p ∧
    p.placed = true ∧ level spacing (row.map Slot.height) k = u
  rises : ∀ t, s.target = some t → u < t - i * spacing → ∃ k p, i < k ∧ row[k]? = some p ∧
    p.placed = true ∧ level spacing (row.map Slot.height) k = u

/-- a slot with a target is there, or off it where a placed slot stops it -/
theorem landing_of_target {t u : Rat} (htarget : s.target = some t)
    (habove : ∀ k p, k < i → row[k]? = some p → p.placed = true →
      level spacing (row.map Slot.height) k ≤ u)
    (hbelow : ∀ k p, i < k → row[k]? = some p → p.placed = true →
      u ≤ level spacing (row.map Slot.height) k)
    (hfalls : t - i * spacing < u → ∃ k p, k < i ∧ row[k]? = some p ∧ p.placed = true ∧
      level spacing (row.map Slot.height) k = u)
    (hrises : u < t - i * spacing → ∃ k p, i < k ∧ row[k]? = some p ∧ p.placed = true ∧
      level spacing (row.map Slot.height) k = u) : Landing spacing row i s u := by
  refine ⟨habove, hbelow, fun hnone => ?_, fun t' ht' => ?_, fun t' ht' => ?_⟩
  · rw [htarget] at hnone
    cases hnone
  · rw [← Option.some.inj (htarget.symm.trans ht')]
    exact hfalls
  · rw [← Option.some.inj (htarget.symm.trans ht')]
    exact hrises

/-- counted upwards from the slot `i`, position `k` of the row is position `i - 1 - k` -/
theorem getElem?_upwards {k : Nat} (hi : i ≤ row.length) (hk : k < i) :
    (row.take i).reverse[i - 1 - k]? = row[k]? := by
  have hlen : (row.take i).length = i := List.length_take_of_le hi
  rw [List.getElem?_reverse (by omega), hlen, ← List.getElem?_take_of_lt hk]
  congr 1
  omega

theorem cast_upwards {k : Nat} (hk : k < i) : ((i - 1 - k : Nat) : Rat) + 1 = i - k := by
  rw [Nat.sub_sub, Nat.cast_sub (by omega)]
  push_cast
  ring

theorem level_height {k : Nat} {p : Slot Rat} (hp : row[k]? = some p) :
    level spacing (row.map Slot.height) k = p.height - k * spacing :=
  level_of_getElem? (by rw [List.getElem?_map, hp]; rfl)

variable (h : Spaced spacing (row.map Slot.height)) (hs : row[i]? = some s)
include h hs

theorem Spaced.height_le {k : Nat} {p : Slot Rat} (hk : k < i) (hp : row[k]? = some p) :
    p.height + ((i : Rat) - k) * spacing ≤ s.height := by
  have hle := h k i hk.le (by rw [List.length_map]; exact (List.getElem?_eq_some_iff.1 hs).1)
  rw [level_height hp, level_height hs] at hle
  linarith

theorem Spaced.le_height {k : Nat} {p : Slot Rat} (hk : i < k) (hp : row[k]? = some p) :
    s.height + ((k : Rat) - i) * spacing ≤ p.height := by
  have hle := h i k hk.le (by rw [List.length_map]; exact (List.getElem?_eq_some_iff.1 hp).1)
  rw [level_height hp, level_height hs] at hle
  linarith

/-- slots above one that moves down, or stays, need not give way -/
theorem Spaced.take_eq {u : Rat} (hu : s.height ≤ u + i * spacing) :
    (row.take i).mapIdx (fun k p => { p with height := min p.height (u + k * spacing) })
      = row.take i := by
  refine mapIdx_eq_self fun k p hp => ?_
  have hk : k < i := by
    have hlt := (List.getElem?_eq_some_iff.1 hp).1
    rw [List.length_take] at hlt
    omega
  rw [List.getElem?_take_of_lt hk] at hp
  have hle := h.height_le hs hk hp
  rw [min_eq_left (by linarith)]

/-- nor need slots below one that moves up, or stays -/
theorem Spaced.drop_eq {u : Rat} (hu : u + i * spacing ≤ s.height) :
    ((row.drop (i + 1)).mapIdx fun m p =>
        { p with height := max p.height (u + (i + 1 + m : Nat) * spacing) }) = row.drop (i + 1) := by
  refine mapIdx_eq_self fun m p hp => ?_
  rw [List.getElem?_drop] at hp
  have hle := h.le_height hs (by omega) hp
  rw [max_eq_left (by linarith)]

theorem giveWay_level : giveWay spacing row i (level spacing (row.map Slot.height) i)
    = row.set i (s.moveTo s.height) := by
  have hlevel : level spacing (row.map Slot.height) i + i * spacing = s.height := by
    rw [level_height hs]
    ring
  obtain ⟨hi, hget⟩ := List.getElem?_eq_some_iff.1 hs
  rw [giveWay_around hs, h.take_eq hs (by rw [hlevel]), h.drop_eq hs (by rw [hlevel]), hlevel,
    List.set_eq_take_append_cons_drop, if_pos hi]

theorem landing_level (ht : ∀ t, s.target = some t → t = s.height) :
    Landing spacing row i s (level spacing (row.map Slot.height) i) where
  above k p hk hp _ := h k i hk.le (by rw [List.length_map]; exact (List.getElem?_eq_some_iff.1 hs).1)
  below k p hk hp _ := h i k hk.le (by rw [List.length_map]; exact (List.getElem?_eq_some_iff.1 hp).1)
  stays _ := rfl
  falls t htarget hlt := by
    rw [ht t htarget, level_height hs] at hlt
    exact absurd hlt (lt_irrefl _)
  rises t htarget hlt := by
    rw [ht t htarget, level_height hs] at hlt
    exact absurd hlt (lt_irrefl _)

theorem Spaced.isChain_above : (s :: (row.take i).reverse).IsChain (ClearAbove spacing) := by
  obtain ⟨hi, hget⟩ := List.getElem?_eq_some_iff.1 hs
  have haround : (row.take i).reverse.reverse ++ s :: row.drop (i + 1) = row := by
    rw [List.reverse_reverse, ← hget, List.getElem_cons_drop, List.take_append_drop]
  have hchain := isChain_heights.1 (spaced_iff_isChain.1 h)
  rw [← haround, isChain_around] at hchain
  exact hchain.1

theorem Spaced.isChain_below : (s :: row.drop (i + 1)).IsChain (Clear spacing) := by
  obtain ⟨hi, hget⟩ := List.getElem?_eq_some_iff.1 hs
  rw [← hget, List.getElem_cons_drop]
  exact (isChain_heights.1 (spaced_iff_isChain.1 h)).drop i

/-- a slot that wants to go up gets as far as those above leave room, and they give way -/
theorem moveUp_eq_giveWay {t : Rat} (ht : t < s.height) :
    (pushUp spacing (heightUp spacing (row.take i).reverse t) (loose (row.take i).reverse)
          ++ behindLoose (row.take i).reverse).reverse
        ++ s.moveTo (heightUp spacing (row.take i).reverse t) :: row.drop (i + 1)
      = giveWay spacing row i (heightUp spacing (row.take i).reverse t - i * spacing) := by
  obtain ⟨hi, hget⟩ := List.getElem?_eq_some_iff.1 hs
  have hlen : (row.take i).length = i := List.length_take_of_le hi.le
  have hchain := h.isChain_above hs
  have hdown : heightUp spacing (row.take i).reverse t ≤ s.height := (isChain_moveUp hchain ht.le).1
  rw [pushUp_loose hchain]
  generalize heightUp spacing (row.take i).reverse t = y at hdown ⊢
  have hy : y - i * spacing + i * spacing = y := by ring
  rw [giveWay_around hs, h.drop_eq hs (by rw [hy]; exact hdown), hy, List.mapIdx_reverse,
    List.reverse_reverse]
  congr 1
  refine List.ext_getElem? fun k => ?_
  rw [List.getElem?_mapIdx, List.getElem?_mapIdx, hlen]
  by_cases hk : k < i
  · have hshift : y - (((i - 1 - k : Nat) : Rat) + 1) * spacing = y - i * spacing + k * spacing := by
      rw [cast_upwards hk]
      ring
    rw [hshift]
  · rw [List.getElem?_eq_none (by omega)]
    rfl

theorem landing_moveUp {t : Rat} (htarget : s.target = some t) (ht : t < s.height) :
    Landing spacing row i s (heightUp spacing (row.take i).reverse t - i * spacing) := by
  have hi : i < row.length := (List.getElem?_eq_some_iff.1 hs).1
  have hchain := h.isChain_above hs
  obtain ⟨hle, hroom, htight⟩ := heightUp_spec hchain t
  have hdown : heightUp spacing (row.take i).reverse t ≤ s.height := (isChain_moveUp hchain ht.le).1
  refine landing_of_target htarget (fun k p hk hp hplaced => ?_) (fun k p hk hp _ => ?_)
    (fun hlt => ?_) (fun hlt => ?_)
  · have hle' := hroom (i - 1 - k) p (by rw [getElem?_upwards hi.le hk, hp]) hplaced
    rw [cast_upwards hk] at hle'
    rw [level_height hp]
    linarith
  · have hle' := h.le_height hs hk hp
    rw [level_height hp]
    linarith
  · rcases htight with heq | ⟨m, p, hp, hplaced, heq⟩
    · rw [heq] at hlt
      exact absurd hlt (lt_irrefl _)
    · have hm : m < i := by
        have hlt' := (List.getElem?_eq_some_iff.1 hp).1
        rwa [List.length_reverse, List.length_take_of_le hi.le] at hlt'
      -- the slot `m + 1` places above `i`
      obtain ⟨k, hk, rfl⟩ : ∃ k, k < i ∧ m = i - 1 - k := ⟨i - 1 - m, by omega, by omega⟩
      rw [getElem?_upwards hi.le hk] at hp
      refine ⟨k, p, hk, hp, hplaced, ?_⟩
      rw [level_height hp, heq, cast_upwards hk]
      ring
  · linarith

/-- a slot that wants to go down gets as far as those below leave room, and they give way -/
theorem moveDown_eq_giveWay {t : Rat} (ht : s.height < t) :
    row.take i ++ s.moveTo (heightDown spacing (row.drop (i + 1)) t) ::
        (pushDown spacing (heightDown spacing (row.drop (i + 1)) t) (loose (row.drop (i + 1)))
          ++ behindLoose (row.drop (i + 1)))
      = giveWay spacing row i (heightDown spacing (row.drop (i + 1)) t - i * spacing) := by
  have hchain := h.isChain_below hs
  have hup : s.height ≤ heightDown spacing (row.drop (i + 1)) t := (isChain_moveDown hchain ht.le).1
  rw [pushDown_loose hchain]
  generalize heightDown spacing (row.drop (i + 1)) t = y at hup ⊢
  have hy : y - i * spacing + i * spacing = y := by ring
  rw [giveWay_around hs, h.take_eq hs (by rw [hy]; exact hup), hy]
  congr 2
  refine List.ext_getElem? fun m => ?_
  rw [List.getElem?_mapIdx, List.getElem?_mapIdx]
  have hshift : y + ((m : Rat) + 1) * spacing = y - i * spacing + (i + 1 + m : Nat) * spacing := by
    push_cast
    ring
  rw [hshift]

theorem landing_moveDown {t : Rat} (htarget : s.target = some t) (ht : s.height < t) :
    Landing spacing row i s (heightDown spacing (row.drop (i + 1)) t - i * spacing) := by
  have hchain := h.isChain_below hs
  obtain ⟨hle, hroom, htight⟩ := heightDown_spec hchain t
  have hup : s.height ≤ heightDown spacing (row.drop (i + 1)) t := (isChain_moveDown hchain ht.le).1
  refine landing_of_target htarget (fun k p hk hp _ => ?_) (fun k p hk hp hplaced => ?_)
    (fun hlt => ?_) (fun hlt => ?_)
  · have hle' := h.height_le hs hk hp
    rw [level_height hp]
    linarith
  · obtain ⟨m, rfl⟩ : ∃ m, k = i + 1 + m := ⟨k - i - 1, by omega⟩
    have hle' := hroom m p (by rw [List.getElem?_drop, hp]) hplaced
    rw [level_height hp]
    push_cast
    linarith
  · linarith
  · rcases htight with heq | ⟨m, p, hp, hplaced, heq⟩
    · rw [heq] at hlt
      exact absurd hlt (lt_irrefl _)
    · rw [List.getElem?_drop] at hp
      refine ⟨i + 1 + m, p, by omega, hp, hplaced, ?_⟩
      rw [level_height hp, ← heq]
      push_cast
      ring

/-- placing a slot lands it at some level, and all others give way -/
theorem placeSlot_eq_giveWay :
    ∃ u, placeSlot spacing row i = giveWay spacing row i u ∧ Landing spacing row i s u := by
  obtain ⟨hi, hget⟩ := List.getElem?_eq_some_iff.1 hs
  have hdrop : row.drop i = s :: row.drop (i + 1) := by rw [← hget, List.getElem_cons_drop]
  have hstay (ht : ∀ t, s.target = some t → t = s.height) :
      ∃ u, row.set i (s.moveTo s.height) = giveWay spacing row i u ∧ Landing spacing row i s u :=
    ⟨_, (giveWay_level h hs).symm, landing_level h hs ht⟩
  unfold placeSlot
  rw [hdrop]
  dsimp only
  cases htarget : s.target with
  | none =>
    refine hstay fun t ht => ?_
    rw [htarget] at ht
    cases ht
  | some t =>
    dsimp only
    by_cases hup : t < s.height
    · rw [if_pos hup]
      exact ⟨_, moveUp_eq_giveWay h hs hup, landing_moveUp h hs htarget hup⟩
    · rw [if_neg hup]
      by_cases hdown : s.height < t
      · rw [if_pos hdown]
        exact ⟨_, moveDown_eq_giveWay h hs hdown, landing_moveDown h hs htarget hdown⟩
      · rw [if_neg hdown]
        refine hstay fun t' ht' => ?_
        rw [htarget] at ht'
        rw [← Option.some.inj ht']
        exact le_antisymm (not_lt.1 hdown) (not_lt.1 hup)

end

end LayeredDrawing
