import LayeredDrawing.Proofs.Ordering.Slots
import Mathlib.Data.List.Basic

/-!
# Counting pairs

The crossings between two layers are counted by positions: for every edge, the edges from earlier
nodes that end further along.  What is counted are the pairs of edges that stand in one order at
their sources and in the other at their targets.

* `pairCount r l`             the pairs in `l`, earlier member first, that are related by `r`;
* `pairCount_perm`            their number does not depend on the order;
* `inversions_eq_pairCount`   what the counting loop counts.
-/

namespace LayeredDrawing

variable {β γ : Type}

def pairCount (r : γ → γ → Bool) : List γ → Nat
  | [] => 0
  | x :: l => l.countP (r x) + pairCount r l

/-- the related pairs with one member in each list -/
def across (r : β → γ → Bool) (l : List β) (m : List γ) : Nat :=
  (l.flatMap fun x => m.filter (r x)).length

theorem across_cons (r : β → γ → Bool) (x : β) (l : List β) (m : List γ) :
    across r (x :: l) m = m.countP (r x) + across r l m := by
  rw [across, List.flatMap_cons, List.length_append, List.countP_eq_length_filter, across]

theorem across_append_left (r : β → γ → Bool) (l l' : List β) (m : List γ) :
    across r (l ++ l') m = across r l m + across r l' m := by
  rw [across, List.flatMap_append, List.length_append, across, across]

theorem across_append_right (r : β → γ → Bool) (l : List β) (m m' : List γ) :
    across r l (m ++ m') = across r l m + across r l m' := by
  induction l with
  | nil => rfl
  | cons x l ih =>
    rw [across_cons, across_cons, across_cons, List.countP_append, ih]
    omega

theorem across_nil_right (r : β → γ → Bool) (l : List β) : across r l [] = 0 := by
  induction l with
  | nil => rfl
  | cons x l ih => rw [across_cons, ih, List.countP_nil]

theorem across_cons_right (r : β → γ → Bool) (l : List β) (y : γ) (m : List γ) :
    across r l (y :: m) = l.countP (fun x => r x y) + across r l m := by
  induction l with
  | nil => rfl
  | cons x l ih =>
    rw [across_cons, across_cons, List.countP_cons, List.countP_cons, ih]
    omega

theorem across_swap (r : β → γ → Bool) (l : List β) (m : List γ) :
    across r l m = across (fun y x => r x y) m l := by
  induction m with
  | nil => exact across_nil_right r l
  | cons y m ih => rw [across_cons_right, across_cons, ih]

theorem across_congr {r r' : β → γ → Bool} {l : List β} {m : List γ}
    (h : ∀ x ∈ l, ∀ y ∈ m, r x y = r' x y) : across r l m = across r' l m := by
  unfold across
  congr 1
  refine List.flatMap_congr fun x hx => List.filter_congr fun y hy => h x hx y hy

theorem across_perm_left (r : β → γ → Bool) {l l' : List β} (h : l.Perm l') (m : List γ) :
    across r l m = across r l' m := (h.flatMap_right _).length_eq

theorem across_perm_right (r : β → γ → Bool) (l : List β) {m m' : List γ} (h : m.Perm m') :
    across r l m = across r l m' := by
  rw [across_swap, across_perm_left _ h, across_swap]

theorem across_map_right {δ : Type} (r : β → δ → Bool) (f : γ → δ) (l : List β) (m : List γ) :
    across r l (m.map f) = across (fun x y => r x (f y)) l m := by
  induction l with
  | nil => rfl
  | cons x l ih =>
    rw [across_cons, across_cons, List.countP_map, ih]
    rfl

theorem across_map_left {δ : Type} (r : δ → γ → Bool) (f : β → δ) (l : List β) (m : List γ) :
    across r (l.map f) m = across (fun x y => r (f x) y) l m := by
  rw [across, List.flatMap_map, across]

theorem across_eq_zero_iff {r : β → γ → Bool} {l : List β} {m : List γ} :
    across r l m = 0 ↔ ∀ x ∈ l, ∀ y ∈ m, r x y = false := by
  simp only [across, List.length_eq_zero_iff, List.flatMap_eq_nil_iff, List.filter_eq_nil_iff,
    Bool.not_eq_true]

/-! ## pairs in one list -/

section
variable {r : γ → γ → Bool}

theorem pairCount_append (l m : List γ) :
    pairCount r (l ++ m) = pairCount r l + pairCount r m + across r l m := by
  induction l with
  | nil => exact (Nat.zero_add _).symm
  | cons x l ih =>
    rw [List.cons_append, pairCount, pairCount, across_cons, List.countP_append, ih]
    omega

theorem pairCount_eq_zero {l : List γ} (h : ∀ x ∈ l, ∀ y ∈ l, r x y = false) :
    pairCount r l = 0 := by
  induction l with
  | nil => rfl
  | cons x l ih =>
    have hx : l.countP (r x) = 0 := List.countP_eq_zero.2 fun y hy => by
      rw [h x List.mem_cons_self y (List.mem_cons_of_mem _ hy)]
      exact Bool.false_ne_true
    rw [pairCount, hx, ih fun y hy z hz => h y (List.mem_cons_of_mem _ hy) z (List.mem_cons_of_mem _ hz)]

/-- elements that are related to none do not count -/
theorem pairCount_filter {p : γ → Bool} {l : List γ} (h : ∀ x y, r x y = true → p x = true ∧ p y = true) :
    pairCount r (l.filter p) = pairCount r l := by
  induction l with
  | nil => rfl
  | cons x l ih =>
    rw [List.filter_cons, pairCount]
    split
    · have hcount : (l.filter p).countP (r x) = l.countP (r x) := by
        rw [List.countP_filter]
        refine List.countP_congr fun y _ => ?_
        rw [Bool.and_eq_true]
        exact and_iff_left_of_imp fun hxy => (h x y hxy).2
      rw [pairCount, hcount, ih]
    · rename_i hx
      have hnone : l.countP (r x) = 0 := List.countP_eq_zero.2 fun y _ hxy => hx (h x y hxy).1
      rw [hnone, ih, Nat.zero_add]

theorem pairCount_perm (hr : ∀ x y, r x y = r y x) {l m : List γ} (h : l.Perm m) :
    pairCount r l = pairCount r m := by
  induction h with
  | nil => rfl
  | cons x h ih => rw [pairCount, pairCount, h.countP_eq, ih]
  | swap x y l =>
    rw [pairCount, pairCount, pairCount, pairCount, List.countP_cons, List.countP_cons, hr x y]
    omega
  | trans _ _ ih ih' => exact ih.trans ih'

end

/-! ## what the counting loop counts -/

/-- the numbers seen before that are larger, counted one sorted `t` after the other -/
theorem foldr_larger {seen : List Nat} (h : seen.Pairwise (· ≤ ·)) (ts : List Nat) :
    (ts.map fun t => seen.length - slotBehind seen t).foldr (· + ·) 0
      = across (fun t n => decide (t < n)) ts seen := by
  induction ts with
  | nil => rfl
  | cons t ts ih => rw [List.map_cons, List.foldr_cons, ih, length_sub_slotBehind h, across_cons]

theorem inversions_cons {seen : List Nat} (h : seen.Pairwise (· ≤ ·)) (ts : List Nat)
    (rest : List (List Nat)) : ∃ later, later.Pairwise (· ≤ ·) ∧ later.Perm (seen ++ ts) ∧
      inversions seen (ts :: rest)
        = across (fun t n => decide (t < n)) ts seen + inversions later rest := by
  have hperm := stableSort_perm (fun a b => decide (a < b)) ts
  obtain ⟨hsorted, hall⟩ := foldl_enter h (stableSort (fun a b => decide (a < b)) ts)
  refine ⟨_, hsorted, hall.trans (hperm.append_left seen), ?_⟩
  rw [inversions, foldr_larger h, across_perm_left _ hperm]

/-- members of one group are not related, and members of different groups are if the one of the later
group comes first by position -/
theorem inversions_eq_pairCount {r : γ → γ → Bool} {p : γ → Nat} {out : β → List γ} {l : List β}
    (hsame : ∀ a ∈ l, ∀ d ∈ out a, ∀ e ∈ out a, r d e = false)
    (hlater : l.Pairwise fun a b => ∀ d ∈ out a, ∀ e ∈ out b, r d e = decide (p e < p d))
    {seen : List Nat} (hseen : seen.Pairwise (· ≤ ·)) :
    inversions seen (l.map fun a => (out a).map p)
      = across (fun e n => decide (p e < n)) (l.flatMap out) seen
        + pairCount r (l.flatMap out) := by
  induction l generalizing seen with
  | nil => rfl
  | cons a l ih =>
    obtain ⟨hfirst, hrest⟩ := List.pairwise_cons.1 hlater
    obtain ⟨later, hsorted, hperm, hcount⟩ :=
      inversions_cons hseen ((out a).map p) (l.map fun a => (out a).map p)
    have htail := ih (fun b hb => hsame b (List.mem_cons_of_mem _ hb)) hrest hsorted
    have hhead : pairCount r (out a) = 0 := pairCount_eq_zero (hsame a List.mem_cons_self)
    -- pairs of an edge from `a` and a later one
    have hcross : across (fun e n => decide (p e < n)) (l.flatMap out) ((out a).map p)
        = across r (out a) (l.flatMap out) := by
      rw [across_map_right, across_swap]
      refine across_congr fun d hd e he => ?_
      obtain ⟨b, hb, he⟩ := List.mem_flatMap.1 he
      exact (hfirst b hb d hd e he).symm
    rw [List.map_cons, hcount, htail, across_perm_right _ _ hperm, across_append_right, hcross,
      across_map_left, List.flatMap_cons, across_append_left, pairCount_append, hhead]
    omega

end LayeredDrawing
