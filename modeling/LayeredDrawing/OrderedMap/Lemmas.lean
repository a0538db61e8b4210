import LayeredDrawing.OrderedMap.Basic

/-!
# Lemmas about ordered maps

What each operation does to `keys` and to `get?`.  Outside this file no operation is unfolded.
-/

namespace LayeredDrawing.OrderedMap

variable {κ ν μ : Type}

/-! ## keys -/

@[simp] theorem keys_empty : (empty : OrderedMap κ ν).keys = [] := rfl

@[simp] theorem keys_mapValues (f : κ → ν → μ) (m : OrderedMap κ ν) :
    (m.mapValues f).keys = m.keys := by
  simp [keys, mapValues, Function.comp_def]

@[simp] theorem keys_filter (p : κ → Bool) (m : OrderedMap κ ν) :
    (m.filter p).keys = m.keys.filter p := by
  simp [keys, filter, List.filter_map, Function.comp_def]

theorem length_keys (m : OrderedMap κ ν) : m.keys.length = m.size := by simp [keys, size]

@[ext] theorem ext {a b : OrderedMap κ ν} (h : a.entries = b.entries) : a = b := by
  cases a; cases b; cases h; rfl

section
variable [DecidableEq κ]

theorem contains_iff (m : OrderedMap κ ν) (k : κ) : m.contains k = true ↔ k ∈ m.keys := by
  simp [contains]

@[simp] theorem keys_modify (m : OrderedMap κ ν) (k : κ) (f : ν → ν) :
    (m.modify k f).keys = m.keys := keys_mapValues _ _

theorem keys_erase (m : OrderedMap κ ν) (k : κ) :
    (m.erase k).keys = m.keys.filter fun j => decide (j ≠ k) := keys_filter _ _

theorem keys_insert_of_mem {m : OrderedMap κ ν} {k : κ} (h : k ∈ m.keys) (v : ν) :
    (m.insert k v).keys = m.keys := by
  rw [insert, dif_pos h, keys_modify]

theorem keys_insert_of_not_mem {m : OrderedMap κ ν} {k : κ} (h : k ∉ m.keys) (v : ν) :
    (m.insert k v).keys = m.keys ++ [k] := by
  rw [insert, dif_neg h]
  simp [keys]

theorem mem_keys_insert {m : OrderedMap κ ν} {k j : κ} {v : ν} :
    j ∈ (m.insert k v).keys ↔ j ∈ m.keys ∨ j = k := by
  by_cases h : k ∈ m.keys
  · rw [keys_insert_of_mem h]
    constructor
    · exact Or.inl
    · rintro (hj | rfl)
      · exact hj
      · exact h
  · simp [keys_insert_of_not_mem h]

/-! ## look-up -/

@[simp] theorem get?_empty (k : κ) : (empty : OrderedMap κ ν).get? k = none := rfl

theorem get?_isSome_iff {m : OrderedMap κ ν} {k : κ} : (m.get? k).isSome ↔ k ∈ m.keys := by
  simp [get?, keys]

theorem get?_eq_none_iff {m : OrderedMap κ ν} {k : κ} : m.get? k = none ↔ k ∉ m.keys := by
  rw [← get?_isSome_iff, Option.not_isSome_iff_eq_none]

theorem get?_mapValues (f : κ → ν → μ) (m : OrderedMap κ ν) (k : κ) :
    (m.mapValues f).get? k = (m.get? k).map (f k) := by
  obtain ⟨l, hl⟩ := m
  simp only [get?, mapValues]
  clear hl
  induction l with
  | nil => rfl
  | cons e l ih =>
    by_cases h : e.1 = k
    · simp [h]
    · simpa [h] using ih

theorem get?_modify_self (m : OrderedMap κ ν) (k : κ) (f : ν → ν) :
    (m.modify k f).get? k = (m.get? k).map f := by
  simp [modify, get?_mapValues]

theorem get?_modify_of_ne {m : OrderedMap κ ν} {k j : κ} (h : j ≠ k) (f : ν → ν) :
    (m.modify k f).get? j = m.get? j := by
  simp [modify, get?_mapValues, h]

theorem get?_insert_self (m : OrderedMap κ ν) (k : κ) (v : ν) : (m.insert k v).get? k = some v := by
  by_cases h : k ∈ m.keys
  · rw [insert, dif_pos h, get?_modify_self]
    obtain ⟨w, hw⟩ := Option.isSome_iff_exists.1 (get?_isSome_iff.2 h)
    simp [hw]
  · rw [insert, dif_neg h]
    have hn : m.entries.find? (fun e => decide (e.1 = k)) = none := by
      have := get?_eq_none_iff.2 h
      simpa [get?] using this
    simp [get?, List.find?_append, hn]

theorem get?_insert_of_ne {m : OrderedMap κ ν} {k j : κ} (hj : j ≠ k) (v : ν) :
    (m.insert k v).get? j = m.get? j := by
  by_cases h : k ∈ m.keys
  · rw [insert, dif_pos h, get?_modify_of_ne hj]
  · rw [insert, dif_neg h]
    have hk : ¬ k = j := fun e => hj e.symm
    simp [get?, List.find?_append, hk]

theorem get?_filter (p : κ → Bool) (m : OrderedMap κ ν) (k : κ) :
    (m.filter p).get? k = if p k then m.get? k else none := by
  obtain ⟨l, hl⟩ := m
  simp only [get?, filter]
  clear hl
  induction l with
  | nil => simp
  | cons e l ih =>
    by_cases h : e.1 = k
    · by_cases hp : p k
      · simp [h, hp]
      · have hpe : p e.1 = false := by rw [h]; simpa using hp
        rw [List.filter_cons, hpe]
        simpa [hp] using ih
    · by_cases hp : p e.1
      · simpa [hp, h] using ih
      · simpa [hp, h] using ih

theorem get?_erase_self (m : OrderedMap κ ν) (k : κ) : (m.erase k).get? k = none := by
  simp [erase, get?_filter]

theorem get?_erase_of_ne {m : OrderedMap κ ν} {k j : κ} (h : j ≠ k) :
    (m.erase k).get? j = m.get? j := by
  simp [erase, get?_filter, h]

end

end LayeredDrawing.OrderedMap
