/-!
# Stable sorting

`stableSort lt l` sorts `l` by the test `lt` and leaves elements of which neither is less than the
other in their order.  It inserts the elements from the last to the first, each in front of the
first one that is not less.
-/

namespace LayeredDrawing

variable {β : Type}

/-- puts `x` in front of the first element that is not less than `x` -/
def insertStable (lt : β → β → Bool) (x : β) : List β → List β
  | [] => [x]
  | y :: l => if lt y x then y :: insertStable lt x l else x :: y :: l

def stableSort (lt : β → β → Bool) : List β → List β
  | [] => []
  | x :: l => insertStable lt x (stableSort lt l)

theorem stableSort_nil (lt : β → β → Bool) : stableSort lt [] = [] := rfl
theorem stableSort_cons (lt : β → β → Bool) (x : β) (l : List β) :
    stableSort lt (x :: l) = insertStable lt x (stableSort lt l) := rfl

theorem insertStable_perm (lt : β → β → Bool) (x : β) (l : List β) :
    (insertStable lt x l).Perm (x :: l) := by
  induction l with
  | nil => exact List.Perm.refl _
  | cons y l ih =>
    unfold insertStable
    split
    · exact (ih.cons y).trans (List.Perm.swap x y l)
    · exact List.Perm.refl _

theorem stableSort_perm (lt : β → β → Bool) (l : List β) : (stableSort lt l).Perm l := by
  induction l with
  | nil => exact List.Perm.refl _
  | cons x l ih => exact (insertStable_perm lt x _).trans (ih.cons x)

theorem length_stableSort (lt : β → β → Bool) (l : List β) :
    (stableSort lt l).length = l.length := (stableSort_perm lt l).length_eq

theorem mem_stableSort {lt : β → β → Bool} {l : List β} {x : β} :
    x ∈ stableSort lt l ↔ x ∈ l := (stableSort_perm lt l).mem_iff

/-! ## images -/

section
variable {γ : Type} {lt : β → β → Bool} {lt' : γ → γ → Bool} {f : β → γ}
  (h : ∀ a b, lt' (f a) (f b) = lt a b)
include h

theorem insertStable_map (x : β) (l : List β) :
    insertStable lt' (f x) (l.map f) = (insertStable lt x l).map f := by
  induction l with
  | nil => rfl
  | cons y l ih =>
    simp only [List.map_cons, insertStable, h, ih]
    split <;> rfl

/-- elements are sorted as their images are, if the tests agree -/
theorem stableSort_map (l : List β) :
    stableSort lt' (l.map f) = (stableSort lt l).map f := by
  induction l with
  | nil => rfl
  | cons x l ih => rw [List.map_cons, stableSort, ih, insertStable_map h, stableSort]

end

/-! ## the order of the result -/

section
variable {lt : β → β → Bool} {r : β → β → Prop}
  (htrans : ∀ a b c, lt b a = false → lt c b = false → lt c a = false)
include htrans

/-- a new first element `x` goes to its place; `r` is the order in which the elements came -/
theorem pairwise_insertStable {x : β} {l : List β}
    (hasymm : ∀ a b, lt a b = true → lt b a = false)
    (h : l.Pairwise fun a b => lt a b = true ∨ lt b a = false ∧ r a b) (hx : ∀ y ∈ l, r x y) :
    (insertStable lt x l).Pairwise fun a b => lt a b = true ∨ lt b a = false ∧ r a b := by
  induction l with
  | nil => exact List.pairwise_singleton _ _
  | cons y l ih =>
    obtain ⟨hy, hl⟩ := List.pairwise_cons.1 h
    unfold insertStable
    split
    · rename_i hlt
      refine List.pairwise_cons.2 ⟨?_, ih hl fun z hz => hx z (List.mem_cons_of_mem y hz)⟩
      intro z hz
      rcases List.mem_cons.1 ((insertStable_perm lt x l).mem_iff.1 hz) with rfl | hz
      · exact .inl hlt
      · exact hy z hz
    · rename_i hlt
      have hyx : lt y x = false := by simpa using hlt
      refine List.pairwise_cons.2 ⟨?_, h⟩
      intro z hz
      refine .inr ⟨?_, hx z hz⟩
      rcases List.mem_cons.1 hz with rfl | hz
      · exact hyx
      · have hzy : lt z y = false := (hy z hz).elim (hasymm y z) fun h => h.1
        exact htrans x y z hyx hzy

/-- the result is sorted, and elements that the test does not tell apart stand as they came -/
theorem pairwise_stableSort {l : List β} (hasymm : ∀ a b, lt a b = true → lt b a = false)
    (h : l.Pairwise r) :
    (stableSort lt l).Pairwise fun a b => lt a b = true ∨ lt b a = false ∧ r a b := by
  induction l with
  | nil => exact List.Pairwise.nil
  | cons x l ih =>
    obtain ⟨hx, hl⟩ := List.pairwise_cons.1 h
    exact pairwise_insertStable htrans hasymm (ih hl) fun y hy => hx y (mem_stableSort.1 hy)

end

end LayeredDrawing
