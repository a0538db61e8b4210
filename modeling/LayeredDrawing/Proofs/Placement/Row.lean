import LayeredDrawing.Placement.Row
import LayeredDrawing.Scalar.Exact
import Mathlib.Algebra.Order.Field.Rat
import Mathlib.Data.List.Chain
import Mathlib.Tactic.Linarith
import Mathlib.Tactic.Ring

/-!
# Rows keep their distances

Over the rationals, placing a row leaves neighbouring slots at least `spacing` apart.  A slot that
moves up pushes the slots above it, and the height it is given leaves them room up to the first slot
that stays; moving down is the same in the mirror (`Slot.mirror`).

* `isChain_moveUp`      one slot moves up;
* `isChain_placeSlot`   one slot is placed;
* `pairwise_placeRow`   the heights of a whole row.
-/

namespace LayeredDrawing

open Scalar

section
variable {α : Type} [Scalar α] {spacing : α} {heights : List α} {targets : List (Option α)}
  {priorities : List (Priority α)}

theorem length_placeSlots (h : heights.length ≤ targets.length) :
    (placeSlots spacing heights targets priorities).length = heights.length := by
  have hfold (order : List Nat) (row : List (Slot α)) :
      (order.foldl (placeSlot spacing) row).length = row.length := by
    induction order generalizing row with
    | nil => rfl
    | cons i order ih => rw [List.foldl_cons, ih, length_placeSlot]
  rw [placeSlots, List.length_map, hfold, unplacedRow, List.length_zipWith, Nat.min_eq_left h]

omit [Scalar α] in
theorem height_unplacedRow (h : heights.length ≤ targets.length) :
    (unplacedRow heights targets).map Slot.height = heights := by
  rw [unplacedRow, List.map_zipWith]
  conv_rhs => rw [← List.map_fst_zip h, List.zip, List.map_zipWith]

/-- a row with a target and a priority for each height is placed -/
theorem placeRow_of_length (ht : targets.length = heights.length)
    (hp : priorities.length = heights.length) :
    ∃ result, placeRow spacing heights targets priorities = .ok result ∧
      result.length = heights.length := by
  have hlen : ¬ (targets.length < heights.length ∨ priorities.length < heights.length) := by omega
  refine ⟨_, if_neg hlen, length_placeSlots (by omega)⟩

end

theorem smaller_rat (a b : Rat) : smaller a b = min a b := by
  show (if b < a then b else a) = min a b
  split
  · rename_i h
    rw [min_eq_right h.le]
  · rename_i h
    rw [min_eq_left (not_lt.1 h)]

theorem larger_rat (a b : Rat) : larger a b = max a b := by
  show (if a < b then b else a) = max a b
  split
  · rename_i h
    rw [max_eq_right h.le]
  · rename_i h
    rw [max_eq_left (not_lt.1 h)]

theorem ofNat_eq_cast (n : Nat) : (ofNat n : Rat) = (n : Rat) := by
  rw [ofNat_rat, Int.cast_natCast]

variable {spacing : Rat}

/-- the second slot is far enough below the first -/
def Clear (spacing : Rat) (s t : Slot Rat) : Prop := s.height + spacing ≤ t.height

/-- the second slot is far enough above the first -/
def ClearAbove (spacing : Rat) (s t : Slot Rat) : Prop := Clear spacing t s

/-- a row around one of its slots: the slots above, the nearest first, and those below -/
theorem isChain_around {s : Slot Rat} {above below : List (Slot Rat)} :
    (above.reverse ++ s :: below).IsChain (Clear spacing) ↔
      (s :: above).IsChain (ClearAbove spacing) ∧ (s :: below).IsChain (Clear spacing) := by
  rw [List.isChain_split, ← List.reverse_cons, List.isChain_reverse]
  rfl

/-- the first slot may go away from the others -/
theorem isChain_cons_of_imp {R : Slot Rat → Slot Rat → Prop} {s t : Slot Rat}
    {l : List (Slot Rat)} (h : (s :: l).IsChain R) (himp : ∀ p, R s p → R t p) :
    (t :: l).IsChain R := by
  obtain ⟨hp, hrest⟩ := List.isChain_cons.1 h
  exact List.isChain_cons.2 ⟨fun p hpl => himp p (hp p hpl), hrest⟩

theorem Clear.of_le {s t p : Slot Rat} (h : Clear spacing s p) (hle : t.height ≤ s.height) :
    Clear spacing t p := by
  have hp : s.height + spacing ≤ p.height := h
  show t.height + spacing ≤ p.height
  linarith

theorem ClearAbove.of_le {s t p : Slot Rat} (h : ClearAbove spacing s p)
    (hle : s.height ≤ t.height) : ClearAbove spacing t p := by
  have hp : p.height + spacing ≤ s.height := h
  show p.height + spacing ≤ t.height
  linarith

/-! ## moving up -/

/-- between two slots of a row there is room for those that stand there -/
theorem room_of_isChain {s p : Slot Rat} {l more : List (Slot Rat)}
    (h : (s :: (l ++ p :: more)).IsChain (ClearAbove spacing)) :
    p.height + ((l.length + 1 : Nat) : Rat) * spacing ≤ s.height := by
  induction l generalizing s with
  | nil =>
    have hp : p.height + spacing ≤ s.height := (List.isChain_cons_cons.1 h).1
    simpa using hp
  | cons t l ih =>
    obtain ⟨ht, hrest⟩ := List.isChain_cons_cons.1 h
    have hroom := ih hrest
    have ht' : t.height + spacing ≤ s.height := ht
    rw [List.length_cons]
    push_cast at hroom ⊢
    linarith

/-- slots that are pushed up keep their distances, if there is room to the first one that stays -/
theorem isChain_pushUp {s : Slot Rat} {l more : List (Slot Rat)}
    (h : (l ++ more).IsChain (ClearAbove spacing))
    (hroom : ∀ p ∈ more.head?, p.height + ((l.length + 1 : Nat) : Rat) * spacing ≤ s.height) :
    (s :: (pushUp spacing s.height l ++ more)).IsChain (ClearAbove spacing) := by
  induction l generalizing s with
  | nil =>
    cases more with
    | nil => exact List.isChain_singleton s
    | cons p more =>
      refine List.isChain_cons_cons.2 ⟨?_, h⟩
      have hp := hroom p rfl
      show p.height + spacing ≤ s.height
      simpa using hp
  | cons t l ih =>
    have hz : smaller t.height (s.height - spacing) = min t.height (s.height - spacing) :=
      smaller_rat _ _
    have hzs : smaller t.height (s.height - spacing) + spacing ≤ s.height := by
      rw [hz]
      linarith [min_le_right t.height (s.height - spacing)]
    refine List.isChain_cons_cons.2 ⟨hzs, ih (List.IsChain.tail h) fun p hp => ?_⟩
    obtain ⟨rest, rfl⟩ := List.head?_eq_some_iff.1 hp
    have hs := hroom p hp
    have ht := room_of_isChain h
    show p.height + _ ≤ smaller t.height (s.height - spacing)
    rw [hz, le_min_iff]
    rw [List.length_cons] at hs
    push_cast at hs ht ⊢
    constructor <;> linarith

theorem isChain_moveUp {s : Slot Rat} {above : List (Slot Rat)} {t : Rat}
    (h : (s :: above).IsChain (ClearAbove spacing)) (ht : t ≤ s.height) :
    heightUp spacing above t ≤ s.height ∧
      (s.moveTo (heightUp spacing above t) ::
        (pushUp spacing (heightUp spacing above t) (loose above) ++ behindLoose above)).IsChain
          (ClearAbove spacing) := by
  have hchain : (loose above ++ behindLoose above).IsChain (ClearAbove spacing) := by
    rw [loose_append_behindLoose]
    exact List.IsChain.tail h
  cases hb : behindLoose above with
  | nil =>
    have hy : heightUp spacing above t = t := by rw [heightUp, hb]
    rw [hb] at hchain
    refine ⟨by rw [hy]; exact ht, isChain_pushUp (s := s.moveTo _) hchain fun p hp => ?_⟩
    cases hp
  | cons p more =>
    have hy : heightUp spacing above t
        = max t (p.height + ((loose above).length + 1 : Nat) * spacing) := by
      rw [heightUp, hb]
      show larger t (p.height + ofNat ((loose above).length + 1) * spacing) = _
      rw [larger_rat, ofNat_eq_cast]
    rw [hb] at hchain
    have hroom : p.height + ((loose above).length + 1 : Nat) * spacing ≤ s.height := by
      have hrow : (s :: (loose above ++ p :: more)).IsChain (ClearAbove spacing) := by
        rw [← hb, loose_append_behindLoose]
        exact h
      exact room_of_isChain hrow
    refine ⟨by rw [hy]; exact max_le ht hroom, isChain_pushUp (s := s.moveTo _) hchain ?_⟩
    intro q hq
    obtain rfl : p = q := Option.some.inj hq
    show _ ≤ heightUp spacing above t
    rw [hy]
    exact le_max_right _ _

/-! ## the mirror -/

/-- the slot seen from the other end of the row -/
def Slot.mirror (s : Slot Rat) : Slot Rat := { s with height := -s.height }

theorem clear_mirror {s t : Slot Rat} :
    ClearAbove spacing s.mirror t.mirror ↔ Clear spacing s t := by
  show -t.height + spacing ≤ -s.height ↔ s.height + spacing ≤ t.height
  constructor <;> intro h <;> linarith

theorem isChain_mirror {l : List (Slot Rat)} :
    (l.map Slot.mirror).IsChain (ClearAbove spacing) ↔ l.IsChain (Clear spacing) := by
  rw [List.isChain_map]
  exact List.IsChain.iff fun _ _ => clear_mirror

theorem loose_mirror (l : List (Slot Rat)) :
    loose (l.map Slot.mirror) = (loose l).map Slot.mirror :=
  List.takeWhile_map ..

theorem behindLoose_mirror (l : List (Slot Rat)) :
    behindLoose (l.map Slot.mirror) = (behindLoose l).map Slot.mirror :=
  List.dropWhile_map ..

theorem pushDown_eq_mirror (y : Rat) (l : List (Slot Rat)) :
    (pushDown spacing y l).map Slot.mirror = pushUp spacing (-y) (l.map Slot.mirror) := by
  induction l generalizing y with
  | nil => rfl
  | cons s l ih =>
    have hz : -larger s.height (y + spacing) = smaller (-s.height) (-y - spacing) := by
      rw [larger_rat, smaller_rat, max_def, min_def]
      split <;> split <;> linarith
    rw [pushDown, List.map_cons, ih, List.map_cons, pushUp]
    show { s with height := -larger s.height (y + spacing) }
        :: pushUp spacing (-larger s.height (y + spacing)) (l.map Slot.mirror) = _
    rw [hz]
    rfl

theorem heightDown_eq_mirror (l : List (Slot Rat)) (t : Rat) :
    -heightDown spacing l t = heightUp spacing (l.map Slot.mirror) (-t) := by
  rw [heightDown, heightUp, behindLoose_mirror, loose_mirror, List.length_map]
  cases behindLoose l with
  | nil => rfl
  | cons p more =>
    show -smaller t (p.height - ofNat ((loose l).length + 1) * spacing)
      = larger (-t) (-p.height + ofNat ((loose l).length + 1) * spacing)
    rw [smaller_rat, larger_rat, max_def, min_def]
    split <;> split <;> linarith

theorem isChain_moveDown {s : Slot Rat} {below : List (Slot Rat)} {t : Rat}
    (h : (s :: below).IsChain (Clear spacing)) (ht : s.height ≤ t) :
    s.height ≤ heightDown spacing below t ∧
      (s.moveTo (heightDown spacing below t) ::
        (pushDown spacing (heightDown spacing below t) (loose below) ++ behindLoose below)).IsChain
          (Clear spacing) := by
  obtain ⟨hy, hchain⟩ := isChain_moveUp (isChain_mirror.2 h) (neg_le_neg ht)
  rw [← heightDown_eq_mirror] at hy hchain
  rw [loose_mirror, ← pushDown_eq_mirror, behindLoose_mirror, ← List.map_append] at hchain
  exact ⟨neg_le_neg_iff.1 hy, isChain_mirror.1 hchain⟩

/-! ## placing -/

theorem isChain_heights {row : List (Slot Rat)} :
    (row.map Slot.height).IsChain (fun y z => y + spacing ≤ z) ↔ row.IsChain (Clear spacing) :=
  List.isChain_map Slot.height

theorem isChain_placeSlot {row : List (Slot Rat)} (h : row.IsChain (Clear spacing)) (i : Nat) :
    (placeSlot spacing row i).IsChain (Clear spacing) := by
  unfold placeSlot
  split
  · exact h
  · rename_i s below hdrop
    have hi : row[i]? = some s := by
      rw [← List.head?_drop, hdrop]
      rfl
    have hrow : row = (row.take i).reverse.reverse ++ s :: below := by
      rw [List.reverse_reverse, ← hdrop, List.take_append_drop]
    have haround := h
    rw [hrow, isChain_around] at haround
    obtain ⟨habove, hbelow⟩ := haround
    -- a slot that stays where it is
    have hstay : (row.set i (s.moveTo s.height)).IsChain (Clear spacing) := by
      rw [← isChain_heights, List.map_set]
      show ((row.map Slot.height).set i s.height).IsChain _
      obtain ⟨hlt, rfl⟩ := List.getElem?_eq_some_iff.1 hi
      rw [← List.getElem_map Slot.height (h := by simpa using hlt), List.set_getElem_self]
      exact isChain_heights.2 h
    dsimp only
    split
    · exact hstay
    · rename_i t ht
      split
      · rename_i hlt
        have hle : t ≤ s.height := le_of_lt hlt
        obtain ⟨hy, hchain⟩ := isChain_moveUp habove hle
        exact isChain_around.2 ⟨hchain, isChain_cons_of_imp hbelow fun p hp => hp.of_le hy⟩
      · split
        · rename_i hlt
          have hle : s.height ≤ t := le_of_lt hlt
          obtain ⟨hy, hchain⟩ := isChain_moveDown hbelow hle
          rw [← List.reverse_reverse (row.take i)]
          exact isChain_around.2 ⟨isChain_cons_of_imp habove fun p hp => hp.of_le hy, hchain⟩
        · exact hstay

theorem isChain_foldl_placeSlot {row : List (Slot Rat)} (h : row.IsChain (Clear spacing))
    (order : List Nat) : (order.foldl (placeSlot spacing) row).IsChain (Clear spacing) := by
  induction order generalizing row with
  | nil => exact h
  | cons i order ih => exact ih (isChain_placeSlot h i)

theorem isChain_iff_pairwise_heights (hspacing : 0 ≤ spacing) {ys : List Rat} :
    ys.IsChain (fun y z => y + spacing ≤ z) ↔ ys.Pairwise fun y z => y + spacing ≤ z := by
  have : Trans (fun y z : Rat => y + spacing ≤ z) (fun y z => y + spacing ≤ z)
      (fun y z => y + spacing ≤ z) := ⟨fun {a b c} hab hbc => by linarith⟩
  exact List.isChain_iff_pairwise

/-- the heights of a placed row are as far apart as those that it started with -/
theorem pairwise_placeRow (hspacing : 0 ≤ spacing) {heights result : List Rat}
    {targets : List (Option Rat)} {priorities : List (Priority Rat)}
    (h : heights.Pairwise fun y z => y + spacing ≤ z)
    (hok : placeRow spacing heights targets priorities = .ok result) :
    result.Pairwise fun y z => y + spacing ≤ z := by
  unfold placeRow at hok
  split at hok
  · cases hok
  · rename_i hlen
    cases hok
    have hstart : (unplacedRow heights targets).map Slot.height = heights :=
      height_unplacedRow (by omega)
    rw [← isChain_iff_pairwise_heights hspacing] at h ⊢
    refine isChain_heights.2 (isChain_foldl_placeSlot (isChain_heights.1 ?_) _)
    rw [hstart]
    exact h

end LayeredDrawing
