import LayeredDrawing.Proofs.OrderedMap.Entries
import Mathlib.Data.List.Nodup

/-!
# Images of ordered maps

The image of an ordered map has every key and every value replaced by its image, in the same order.
No two keys may have the same image.

* `get?_image`      a look-up;
* `image_insert`    one more entry;
* `image_foldl_insert`   a list of further entries.
-/

namespace LayeredDrawing.OrderedMap

variable {κ κ' ν ν' μ : Type}

/-- the map with the images of all keys and values -/
def image (f : κ → κ') (hf : Function.Injective f) (k : ν → ν') (m : OrderedMap κ ν) :
    OrderedMap κ' ν' where
  entries := m.entries.map fun e => (f e.1, k e.2)
  nodup := by
    have hkeys : (m.entries.map fun e => (f e.1, k e.2)).map Prod.fst = m.keys.map f := by
      simp [keys, Function.comp_def]
    rw [hkeys]
    exact List.Nodup.map hf m.nodup

section
variable {f : κ → κ'} {hf : Function.Injective f} {k : ν → ν'} {m : OrderedMap κ ν}

theorem keys_image : (m.image f hf k).keys = m.keys.map f := by
  simp [image, keys, Function.comp_def]

theorem values_image : (m.image f hf k).values = m.values.map k := by
  simp [image, values, Function.comp_def]

theorem mem_keys_image {a : κ} : f a ∈ (m.image f hf k).keys ↔ a ∈ m.keys := by
  rw [keys_image, List.mem_map_of_injective hf]

/-- changing all values before or after -/
theorem mapValues_image {k' : ν' → ν'} {g : ν → ν} (h : ∀ v, k' (k v) = k (g v)) :
    (m.image f hf k).mapValues (fun _ => k') = (m.mapValues fun _ => g).image f hf k := by
  apply ext
  simp only [image, mapValues, List.map_map]
  exact List.map_congr_left fun e _ => Prod.ext rfl (h e.2)

theorem image_id (m : OrderedMap κ ν) : m.image id Function.injective_id id = m :=
  ext (List.map_id _)

variable [DecidableEq κ] [DecidableEq κ']

theorem get?_image {a : κ} : (m.image f hf k).get? (f a) = (m.get? a).map k := by
  by_cases ha : a ∈ m.keys
  · obtain ⟨v, hv⟩ := exists_get?_of_mem ha
    rw [hv, Option.map_some, get?_eq_some_iff]
    exact List.mem_map.2 ⟨(a, v), get?_eq_some_iff.1 hv, rfl⟩
  · rw [get?_eq_none_iff.2 ha, Option.map_none, get?_eq_none_iff, mem_keys_image]
    exact ha

theorem image_insert {a : κ} {v : ν} :
    (m.insert a v).image f hf k = (m.image f hf k).insert (f a) (k v) := by
  by_cases ha : a ∈ m.keys
  · rw [insert, dif_pos ha, insert, dif_pos (mem_keys_image.2 ha)]
    apply ext
    simp only [image, modify, mapValues, List.map_map]
    refine List.map_congr_left fun e _ => ?_
    by_cases he : e.1 = a
    · simp [he]
    · simp [he, hf.eq_iff]
  · rw [insert, dif_neg ha, insert, dif_neg fun h => ha (mem_keys_image.1 h)]
    apply ext
    simp [image]

/-- entries that come from a list, whose elements may have images of their own -/
theorem image_foldl_insert {ι ι' : Type} {a : ι → κ} {v : ι → ν} {a' : ι' → κ'} {v' : ι' → ν'}
    {j : ι → ι'} {l : List ι} (h : ∀ i ∈ l, a' (j i) = f (a i) ∧ v' (j i) = k (v i)) :
    (l.foldl (fun m i => m.insert (a i) (v i)) m).image f hf k
      = (l.map j).foldl (fun m i => m.insert (a' i) (v' i)) (m.image f hf k) := by
  induction l generalizing m with
  | nil => rfl
  | cons i l ih =>
    obtain ⟨hkey, hvalue⟩ := h i List.mem_cons_self
    rw [List.foldl_cons, ih fun x hx => h x (List.mem_cons_of_mem _ hx), image_insert, List.map_cons,
      List.foldl_cons, hkey, hvalue]

end

end LayeredDrawing.OrderedMap
