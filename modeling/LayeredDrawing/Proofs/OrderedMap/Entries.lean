import LayeredDrawing.OrderedMap.Lemmas

/-!
# Entries of ordered maps

What a look-up says about the entries of an ordered map, and what the operations do to its list of
values.

* `get?_eq_some_iff`         a look-up finds an entry;
* `values_insert_of_not_mem` a new key puts its value at the end;
* `get?_foldl_erase`         look-up after a list of keys has been erased;
* `get?_foldl_insert`        look-up after a list of entries has been inserted;
* `keys_foldl_insert_of_mem`, `keys_foldl_insert_of_nodup`   the keys then.
-/

namespace LayeredDrawing.OrderedMap

variable {κ ν : Type}

theorem filter_filter (p q : κ → Bool) (m : OrderedMap κ ν) :
    (m.filter p).filter q = m.filter fun k => p k && q k := by
  apply ext
  simp only [filter, List.filter_filter]
  congr 1
  funext e
  exact Bool.and_comm _ _

theorem filter_congr {p q : κ → Bool} {m : OrderedMap κ ν} (h : ∀ k ∈ m.keys, p k = q k) :
    m.filter p = m.filter q := by
  apply ext
  exact List.filter_congr fun e he => h e.1 (List.mem_map.2 ⟨e, he, rfl⟩)

theorem filter_mapValues {μ : Type} (p : κ → Bool) (f : κ → ν → μ) (m : OrderedMap κ ν) :
    (m.mapValues f).filter p = (m.filter p).mapValues f := by
  apply ext
  simp only [filter, mapValues, List.filter_map]
  rfl

section
variable [DecidableEq κ]

theorem filter_not_mem_nil (m : OrderedMap κ ν) : (m.filter fun k => decide (k ∉ ([] : List κ))) = m := by
  apply ext
  exact List.filter_eq_self.2 fun _ _ => decide_eq_true List.not_mem_nil

theorem get?_eq_some_iff {m : OrderedMap κ ν} {k : κ} {v : ν} :
    m.get? k = some v ↔ (k, v) ∈ m.entries := by
  obtain ⟨l, hl⟩ := m
  simp only [get?]
  induction l with
  | nil => simp
  | cons e l ih =>
    rw [List.map_cons, List.nodup_cons] at hl
    by_cases h : e.1 = k
    · have hn : (k, v) ∉ l := fun hm => hl.1 (List.mem_map.2 ⟨(k, v), hm, h.symm⟩)
      have he : (k, v) = e ↔ e.2 = v := by
        rw [← h, Prod.ext_iff]
        exact ⟨fun e => e.2.symm, fun e => ⟨rfl, e.symm⟩⟩
      simp [h, hn, he]
    · have he : (k, v) ≠ e := fun hk => h (by rw [← hk])
      simpa [h, he] using ih hl.2

theorem mem_values_iff {m : OrderedMap κ ν} {v : ν} : v ∈ m.values ↔ ∃ k, m.get? k = some v := by
  simp only [values, List.mem_map, get?_eq_some_iff]
  constructor
  · intro hx
    obtain ⟨⟨k, w⟩, he, rfl⟩ := hx
    exact ⟨k, he⟩
  · intro hx
    obtain ⟨k, hk⟩ := hx
    exact ⟨(k, v), hk, rfl⟩

theorem mem_keys_of_get? {m : OrderedMap κ ν} {k : κ} {v : ν} (h : m.get? k = some v) :
    k ∈ m.keys := get?_isSome_iff.1 (by rw [h]; rfl)

theorem exists_get?_of_mem {m : OrderedMap κ ν} {k : κ} (h : k ∈ m.keys) :
    ∃ v, m.get? k = some v := Option.isSome_iff_exists.1 (get?_isSome_iff.2 h)

/-- a map is settled by its keys in order and by what is found under them -/
theorem ext_get? {a b : OrderedMap κ ν} (hkeys : a.keys = b.keys)
    (hget : ∀ k, a.get? k = b.get? k) : a = b := by
  have hentries (m : OrderedMap κ ν) :
      (m.entries.map fun e => (e.1, some e.2)) = m.keys.map fun k => (k, m.get? k) := by
    rw [keys, List.map_map]
    refine List.map_congr_left fun e he => ?_
    rw [Function.comp_apply, get?_eq_some_iff.2 (show (e.1, e.2) ∈ m.entries from he)]
  have hmap : (a.entries.map fun e => (e.1, some e.2)) = b.entries.map fun e => (e.1, some e.2) := by
    rw [hentries, hentries, hkeys]
    exact List.map_congr_left fun k _ => by rw [hget]
  refine ext ((List.map_inj_right fun e f hef => ?_).1 hmap)
  obtain ⟨hfst, hsnd⟩ := Prod.mk.inj hef
  exact Prod.ext hfst (Option.some.inj hsnd)

theorem values_insert_of_not_mem {m : OrderedMap κ ν} {k : κ} (h : k ∉ m.keys) (v : ν) :
    (m.insert k v).values = m.values ++ [v] := by
  rw [insert, dif_neg h]
  simp [values]

theorem get?_insert {m : OrderedMap κ ν} {k j : κ} {v : ν} :
    (m.insert k v).get? j = if j = k then some v else m.get? j := by
  by_cases h : j = k
  · rw [if_pos h, h, get?_insert_self]
  · rw [if_neg h, get?_insert_of_ne h]

theorem get?_modify {m : OrderedMap κ ν} {k j : κ} {f : ν → ν} :
    (m.modify k f).get? j = if j = k then (m.get? j).map f else m.get? j := by
  by_cases h : j = k
  · rw [if_pos h, h, get?_modify_self]
  · rw [if_neg h, get?_modify_of_ne h]

theorem mapValues_modify {μ : Type} {g : κ → ν → μ} {k : κ} {f : ν → ν} (m : OrderedMap κ ν)
    (h : ∀ v, g k (f v) = g k v) : (m.modify k f).mapValues g = m.mapValues g := by
  apply ext
  simp only [modify, mapValues, List.map_map]
  refine List.map_congr_left fun e _ => ?_
  by_cases hk : e.1 = k
  · simp [hk, h]
  · simp [hk]

theorem mapValues_insert_of_not_mem {μ : Type} (g : κ → ν → μ) {k : κ} {m : OrderedMap κ ν}
    (h : k ∉ m.keys) (v : ν) : (m.insert k v).mapValues g = (m.mapValues g).insert k (g k v) := by
  have h' : k ∉ (m.mapValues g).keys := by rwa [keys_mapValues]
  rw [insert, dif_neg h, insert, dif_neg h']
  apply ext
  simp [mapValues]

/-- a new key without the property makes no difference to the keys with it -/
theorem filter_insert_of_not_mem {p : κ → Bool} {k : κ} {m : OrderedMap κ ν} (h : k ∉ m.keys)
    (hp : p k = false) (v : ν) : (m.insert k v).filter p = m.filter p := by
  rw [insert, dif_neg h]
  apply ext
  simp [filter, hp]

theorem foldl_erase {ι : Type} (f : ι → κ) (l : List ι) (m : OrderedMap κ ν) :
    l.foldl (fun m i => m.erase (f i)) m = m.filter fun k => decide (k ∉ l.map f) := by
  induction l generalizing m with
  | nil => exact (filter_not_mem_nil m).symm
  | cons i l ih =>
    rw [List.foldl_cons, ih, erase, filter_filter]
    refine filter_congr fun k _ => ?_
    simp [not_or]

theorem get?_foldl_erase {ι : Type} (f : ι → κ) (l : List ι) (m : OrderedMap κ ν) (k : κ) :
    (l.foldl (fun m i => m.erase (f i)) m).get? k = if k ∈ l.map f then none else m.get? k := by
  rw [foldl_erase, get?_filter]
  by_cases hk : k ∈ l.map f
  · rw [if_pos hk, if_neg (by simpa using hk)]
  · rw [if_neg hk, if_pos (by simpa using hk)]

/-! ## a list of entries -/

section
variable {ι : Type} {f : ι → κ} {v : ι → ν} {l : List ι} {m : OrderedMap κ ν}

theorem get?_foldl_insert_of_not_mem {k : κ} (h : k ∉ l.map f) :
    (l.foldl (fun m i => m.insert (f i) (v i)) m).get? k = m.get? k := by
  induction l generalizing m with
  | nil => rfl
  | cons i l ih =>
    rw [List.map_cons, List.mem_cons, not_or] at h
    rw [List.foldl_cons, ih h.2, get?_insert_of_ne h.1]

theorem get?_foldl_insert (h : (l.map f).Nodup) {i : ι} (hi : i ∈ l) :
    (l.foldl (fun m i => m.insert (f i) (v i)) m).get? (f i) = some (v i) := by
  induction l generalizing m with
  | nil => cases hi
  | cons j l ih =>
    rw [List.map_cons, List.nodup_cons] at h
    rw [List.foldl_cons]
    rcases List.mem_cons.1 hi with rfl | hi
    · rw [get?_foldl_insert_of_not_mem h.1, get?_insert_self]
    · exact ih h.2 hi

theorem mem_keys_foldl_insert {k : κ} :
    k ∈ (l.foldl (fun m i => m.insert (f i) (v i)) m).keys ↔ k ∈ m.keys ∨ k ∈ l.map f := by
  induction l generalizing m with
  | nil => simp
  | cons i l ih => rw [List.foldl_cons, ih, mem_keys_insert, List.map_cons, List.mem_cons, or_assoc]

theorem keys_foldl_insert_of_mem (h : ∀ k ∈ l.map f, k ∈ m.keys) :
    (l.foldl (fun m i => m.insert (f i) (v i)) m).keys = m.keys := by
  induction l generalizing m with
  | nil => rfl
  | cons i l ih =>
    have hi := keys_insert_of_mem (h (f i) List.mem_cons_self) (v i)
    rw [List.foldl_cons, ih, hi]
    rw [hi]
    exact fun k hk => h k (List.mem_cons_of_mem _ hk)

/-- new keys go to the end in their order -/
theorem keys_foldl_insert_of_nodup (h : (m.keys ++ l.map f).Nodup) :
    (l.foldl (fun m i => m.insert (f i) (v i)) m).keys = m.keys ++ l.map f := by
  induction l generalizing m with
  | nil => exact (List.append_nil _).symm
  | cons i l ih =>
    rw [List.map_cons] at h
    have hi : (m.insert (f i) (v i)).keys = m.keys ++ [f i] :=
      keys_insert_of_not_mem (fun hin => (List.nodup_append.1 h).2.2 _ hin _ List.mem_cons_self rfl) (v i)
    rw [List.append_cons, ← hi] at h
    rw [List.foldl_cons, ih h, hi, List.map_cons, ← List.append_cons]

end

end

end LayeredDrawing.OrderedMap
