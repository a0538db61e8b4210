import LayeredDrawing.Proofs.OrderedMap.Entries
import Mathlib.Data.List.Forall2

/-!
# Ordered maps with related values

Two ordered maps are related if they have the same keys in the same order, with related values.  Every
way of changing a map keeps them so.

* `Related.keys`, `Related.values`, `Related.get?`   what is the same and what is related;
* `Related.insert`, `Related.filter`, `Related.foldl_erase`   the changes.
-/

namespace LayeredDrawing.OrderedMap

variable {κ ν ν' : Type}

/-- the same keys in the same order, with related values -/
def Related (R : ν → ν' → Prop) (m : OrderedMap κ ν) (m' : OrderedMap κ ν') : Prop :=
  List.Forall₂ (fun a b => b.1 = a.1 ∧ R a.2 b.2) m.entries m'.entries

section
variable {R : ν → ν' → Prop} {m : OrderedMap κ ν} {m' : OrderedMap κ ν'}

theorem related_empty : (∅ : OrderedMap κ ν).Related R (∅ : OrderedMap κ ν') := .nil

theorem Related.keys (h : m.Related R m') : m'.keys = m.keys := by
  have heq : List.Forall₂ Eq m'.keys m.keys :=
    List.rel_map (fun _ _ hab => hab.1) h.flip
  rwa [List.forall₂_eq_eq_eq] at heq

theorem Related.values (h : m.Related R m') : List.Forall₂ R m.values m'.values :=
  List.rel_map (fun _ _ hab => hab.2) h

theorem Related.filter (h : m.Related R m') (p : κ → Bool) : (m.filter p).Related R (m'.filter p) :=
  List.rel_filter (fun a b hab => by
    show p a.1 = true ↔ p b.1 = true
    rw [hab.1]) h

variable [DecidableEq κ]

theorem Related.contains (h : m.Related R m') (k : κ) : m'.contains k = m.contains k := by
  rw [OrderedMap.contains, OrderedMap.contains, h.keys]

theorem Related.get? (h : m.Related R m') (k : κ) : Option.Rel R (m.get? k) (m'.get? k) := by
  show Option.Rel R ((m.entries.find? fun a => a.1 = k).map Prod.snd)
    ((m'.entries.find? fun b => b.1 = k).map Prod.snd)
  unfold Related at h
  generalize m.entries = l at h ⊢
  generalize m'.entries = l' at h ⊢
  induction h with
  | nil => exact .none
  | @cons a b l l' hab _ ih =>
    rw [List.find?_cons, List.find?_cons, hab.1]
    by_cases hk : a.1 = k
    · simp only [hk, decide_true, Option.map_some]
      exact .some hab.2
    · simp only [hk, decide_false]
      exact ih

theorem Related.insert (h : m.Related R m') (k : κ) {v : ν} {v' : ν'} (hv : R v v') :
    (m.insert k v).Related R (m'.insert k v') := by
  by_cases hk : k ∈ m.keys
  · have hk' : k ∈ m'.keys := h.keys ▸ hk
    rw [OrderedMap.insert, dif_pos hk, OrderedMap.insert, dif_pos hk']
    refine List.rel_map (fun a b hab => ⟨hab.1, ?_⟩) h
    show R (if a.1 = k then v else a.2) (if b.1 = k then v' else b.2)
    rw [hab.1]
    split
    · exact hv
    · exact hab.2
  · have hk' : k ∉ m'.keys := h.keys ▸ hk
    rw [OrderedMap.insert, dif_neg hk, OrderedMap.insert, dif_neg hk']
    exact List.rel_append h (.cons ⟨rfl, hv⟩ .nil)

theorem Related.foldl_erase {ι ι' : Type} {f : ι → κ} {f' : ι' → κ} {l : List ι} {l' : List ι'}
    (h : m.Related R m') (hkeys : l'.map f' = l.map f) :
    (l.foldl (fun m i => m.erase (f i)) m).Related R (l'.foldl (fun m i => m.erase (f' i)) m') := by
  rw [OrderedMap.foldl_erase, OrderedMap.foldl_erase, hkeys]
  exact h.filter _

end

end LayeredDrawing.OrderedMap
