import Mathlib.Data.List.Nodup

/-!
# Which element comes first

* `Precedes l a b`                `a` stands somewhere before `b` in the list;
* `precedes_iff_getElem?`         the same by positions;
* `pairwise_precedes`             earlier elements precede later ones;
* `pairwise_iff_precedes`         what holds of any two elements in their order;
* `pairwise_zipIdx`               a list with its positions is in their order;
* `precedes_or_precedes`          of two different elements one precedes the other;
* `precedes_iff_lt`, `Precedes.ne`, `Precedes.asymm`   in a list without repetitions;
* `precedes_map_iff`              in a list of images.
-/

namespace LayeredDrawing

variable {β : Type} {l : List β} {a b : β}

/-- `a` stands somewhere before `b` -/
def Precedes (l : List β) (a b : β) : Prop := [a, b].Sublist l

instance [DecidableEq β] (l : List β) (a b : β) : Decidable (Precedes l a b) :=
  inferInstanceAs (Decidable ([a, b].Sublist l))

theorem Precedes.mem_left (h : Precedes l a b) : a ∈ l := h.subset List.mem_cons_self

theorem Precedes.mem_right (h : Precedes l a b) : b ∈ l :=
  h.subset (List.mem_cons_of_mem a List.mem_cons_self)

theorem precedes_iff_append : Precedes l a b ↔ ∃ front back, l = front ++ back ∧ a ∈ front ∧ b ∈ back := by
  unfold Precedes
  rw [List.cons_sublist_iff]
  exact exists_congr fun front => exists_congr fun back => and_congr_right' (and_congr_right'
    List.singleton_sublist)

theorem precedes_iff_getElem? :
    Precedes l a b ↔ ∃ i j : Nat, i < j ∧ l[i]? = some a ∧ l[j]? = some b := by
  rw [precedes_iff_append]
  constructor
  · rintro ⟨front, back, rfl, ha, hb⟩
    obtain ⟨i, hi, rfl⟩ := List.getElem_of_mem ha
    obtain ⟨j, hj, rfl⟩ := List.getElem_of_mem hb
    refine ⟨i, front.length + j, by omega, ?_, ?_⟩
    · rw [List.getElem?_append_left hi, List.getElem?_eq_getElem hi]
    · rw [List.getElem?_append_right (by omega), Nat.add_sub_cancel_left, List.getElem?_eq_getElem hj]
  · rintro ⟨i, j, hij, ha, hb⟩
    obtain ⟨hi, rfl⟩ := List.getElem?_eq_some_iff.1 ha
    obtain ⟨hj, rfl⟩ := List.getElem?_eq_some_iff.1 hb
    refine ⟨l.take j, l.drop j, (List.take_append_drop j l).symm, ?_, ?_⟩
    · exact List.mem_take_iff_getElem.2 ⟨i, by omega, rfl⟩
    · exact List.mem_drop_iff_getElem.2 ⟨0, by omega, by simp only [Nat.add_zero]⟩

/-- earlier elements precede later ones -/
theorem pairwise_precedes (l : List β) : l.Pairwise (Precedes l) :=
  List.pairwise_iff_forall_sublist.2 fun h => h

theorem pairwise_iff_precedes {R : β → β → Prop} :
    l.Pairwise R ↔ ∀ a b, Precedes l a b → R a b := List.pairwise_iff_forall_sublist.trans
  ⟨fun h _ _ hab => h hab, fun h _ _ hab => h _ _ hab⟩

/-- elements stand in the order of their positions -/
theorem pairwise_zipIdx (l : List β) : l.zipIdx.Pairwise fun p q => p.2 < q.2 := by
  have hplaces : (l.zipIdx.map Prod.snd).Pairwise (· < ·) := by
    rw [List.zipIdx_map_snd]
    exact List.pairwise_lt_range'
  exact List.pairwise_map.1 hplaces

/-- of two different elements one precedes the other -/
theorem precedes_or_precedes (ha : a ∈ l) (hb : b ∈ l) (hne : a ≠ b) :
    Precedes l a b ∨ Precedes l b a := by
  rw [precedes_iff_getElem?, precedes_iff_getElem?]
  obtain ⟨i, hi⟩ := List.getElem?_of_mem ha
  obtain ⟨j, hj⟩ := List.getElem?_of_mem hb
  rcases Nat.lt_trichotomy i j with hij | hij | hij
  · exact .inl ⟨i, j, hij, hi, hj⟩
  · rw [hij, hj] at hi
    exact absurd (Option.some.inj hi).symm hne
  · exact .inr ⟨j, i, hij, hj, hi⟩

/-- in a list sorted by an order, elements stand as the order says -/
theorem precedes_iff_of_pairwise {R : β → β → Prop} (hR : l.Pairwise R)
    (hasymm : ∀ a b, R a b → ¬ R b a) (ha : a ∈ l) (hb : b ∈ l) (hne : a ≠ b) :
    Precedes l a b ↔ R a b := by
  refine ⟨pairwise_iff_precedes.1 hR a b, fun hab => ?_⟩
  exact (precedes_or_precedes ha hb hne).resolve_right fun hba =>
    hasymm a b hab (pairwise_iff_precedes.1 hR b a hba)

/-! ## lists without repetitions -/

section
variable (hl : l.Nodup)
include hl

theorem precedes_iff_lt {i j : Nat} (ha : l[i]? = some a) (hb : l[j]? = some b) :
    Precedes l a b ↔ i < j := by
  rw [precedes_iff_getElem?]
  constructor
  · rintro ⟨i', j', hij, ha', hb'⟩
    obtain ⟨hi', _⟩ := List.getElem?_eq_some_iff.1 ha'
    obtain ⟨hj', _⟩ := List.getElem?_eq_some_iff.1 hb'
    obtain rfl := (List.getElem?_inj hi' hl).1 (ha'.trans ha.symm)
    obtain rfl := (List.getElem?_inj hj' hl).1 (hb'.trans hb.symm)
    exact hij
  · intro hij
    exact ⟨i, j, hij, ha, hb⟩

theorem Precedes.ne (h : Precedes l a b) : a ≠ b := by
  have hpair : [a, b].Nodup := List.Sublist.nodup h hl
  rw [List.nodup_cons, List.mem_singleton] at hpair
  exact hpair.1

theorem Precedes.asymm (h : Precedes l a b) : ¬ Precedes l b a := by
  obtain ⟨i, j, hij, ha, hb⟩ := precedes_iff_getElem?.1 h
  rw [precedes_iff_lt hl hb ha]
  omega

end

/-- images stand in the order of what they are images of -/
theorem precedes_map_iff {γ : Type} {m : List γ} {f : γ → β} (hm : (m.map f).Nodup) {c d : γ}
    (hc : c ∈ m) (hd : d ∈ m) : Precedes (m.map f) (f c) (f d) ↔ Precedes m c d := by
  obtain ⟨i, hi⟩ := List.getElem?_of_mem hc
  obtain ⟨j, hj⟩ := List.getElem?_of_mem hd
  have himage {k : Nat} {x : γ} (hk : m[k]? = some x) : (m.map f)[k]? = some (f x) := by
    rw [List.getElem?_map, hk, Option.map_some]
  rw [precedes_iff_lt hm (himage hi) (himage hj), precedes_iff_lt hm.of_map hi hj]

end LayeredDrawing
