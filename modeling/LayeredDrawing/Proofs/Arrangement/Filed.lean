import LayeredDrawing.Phase.Expansion
import LayeredDrawing.Proofs.Graph.Layering
import Mathlib.Data.List.GetD

/-!
# Arrangements that match a table of layers

`Filed layers lists` says that the lists hold each node that has a layer once, in the list with the
number of its layer, and no other node.  `Reordered new old` says that each list of `new` is the one
of `old` in another order.

* `filed_arrange`        the lists made after layering are filed;
* `Filed.insertBeside`   they stay so when a new node is listed in the layer above a listed one;
* `Filed.reordered`      and when each list is reordered.
-/

namespace LayeredDrawing

def Reordered (new old : Arrangement) : Prop := List.Forall₂ List.Perm new old

theorem Reordered.refl (lists : Arrangement) : Reordered lists lists :=
  List.forall₂_same.2 fun l _ => List.Perm.refl l

theorem Reordered.trans {a b c : Arrangement} (hab : Reordered a b) (hbc : Reordered b c) :
    Reordered a c := by
  induction hab generalizing c with
  | nil => exact hbc
  | cons hl _ ih =>
    obtain ⟨l, rest, hp, hrest, rfl⟩ := List.forall₂_cons_left_iff.1 hbc
    exact .cons (hl.trans hp) (ih hrest)

theorem Reordered.perm_flatten {new old : Arrangement} (h : Reordered new old) :
    new.flatten.Perm old.flatten := by
  induction h with
  | nil => exact List.Perm.refl _
  | cons hl _ ih =>
    rw [List.flatten_cons, List.flatten_cons]
    exact hl.append ih

structure Filed (layers : OrderedMap NodeId Int) (lists : Arrangement) : Prop where
  mem_iff : ∀ id layer, layers.get? id = some layer ↔
    ∃ i : Nat, (i : Int) = layer ∧ ∃ l, lists[i]? = some l ∧ id ∈ l
  nodup : ∀ l ∈ lists, l.Nodup

section
variable {layers : OrderedMap NodeId Int} {lists : Arrangement} (h : Filed layers lists)
include h

theorem Filed.get?_of_mem {i : Nat} {l : List NodeId} {id : NodeId} (hl : lists[i]? = some l)
    (hid : id ∈ l) : layers.get? id = some (i : Int) :=
  (h.mem_iff id i).2 ⟨i, rfl, l, hl, hid⟩

theorem Filed.exists_list {id : NodeId} {layer : Int} (hl : layers.get? id = some layer) :
    ∃ i : Nat, (i : Int) = layer ∧ i < lists.length ∧ ∃ l, lists[i]? = some l ∧ id ∈ l := by
  obtain ⟨i, hi, l, hget, hid⟩ := (h.mem_iff id layer).1 hl
  exact ⟨i, hi, (List.getElem?_eq_some_iff.1 hget).1, l, hget, hid⟩

theorem Filed.mem_flatten {id : NodeId} : id ∈ lists.flatten ↔ id ∈ layers.keys := by
  rw [List.mem_flatten]
  constructor
  · intro hx
    obtain ⟨l, hl, hid⟩ := hx
    obtain ⟨i, hi⟩ := List.mem_iff_getElem?.1 hl
    exact OrderedMap.mem_keys_of_get? (h.get?_of_mem hi hid)
  · intro hid
    obtain ⟨layer, hlayer⟩ := OrderedMap.exists_get?_of_mem hid
    obtain ⟨i, _, _, l, hl, hmem⟩ := h.exists_list hlayer
    exact ⟨l, List.mem_of_getElem? hl, hmem⟩

theorem Filed.nodup_flatten : lists.flatten.Nodup := by
  rw [List.nodup_flatten]
  refine ⟨h.nodup, List.pairwise_iff_getElem.2 fun i j hi hj hij => ?_⟩
  intro id hid hid'
  have h1 := h.get?_of_mem (List.getElem?_eq_getElem hi) hid
  have h2 := h.get?_of_mem (List.getElem?_eq_getElem hj) hid'
  have : (i : Int) = j := Option.some.inj (h1.symm.trans h2)
  omega

/-- reordering each list keeps every node in the list of its layer -/
theorem Filed.reordered {lists' : Arrangement} (hp : Reordered lists' lists) :
    Filed layers lists' := by
  have hlen := List.Forall₂.length_eq hp
  have hget {i : Nat} (hi : i < lists'.length) :
      (lists'.get ⟨i, hi⟩).Perm (lists.get ⟨i, hlen ▸ hi⟩) :=
    (List.forall₂_iff_get.1 hp).2 i hi (hlen ▸ hi)
  refine ⟨fun id layer => ?_, fun l hl => ?_⟩
  · rw [h.mem_iff]
    constructor
    · intro hx
      obtain ⟨i, hi, l, hl, hid⟩ := hx
      obtain ⟨hlt, rfl⟩ := List.getElem?_eq_some_iff.1 hl
      have hlt' : i < lists'.length := by omega
      exact ⟨i, hi, _, List.getElem?_eq_getElem hlt', (hget hlt').mem_iff.2 hid⟩
    · intro hx
      obtain ⟨i, hi, l, hl, hid⟩ := hx
      obtain ⟨hlt', rfl⟩ := List.getElem?_eq_some_iff.1 hl
      exact ⟨i, hi, _, List.getElem?_eq_getElem (by omega), (hget hlt').mem_iff.1 hid⟩
  · obtain ⟨i, hi, rfl⟩ := List.mem_iff_getElem.1 hl
    exact (hget hi).nodup_iff.2 (h.nodup _ (List.getElem_mem _))

/-- leaving nodes out of the table and out of the lists -/
theorem Filed.filter (p : NodeId → Bool) : Filed (layers.filter p) (lists.map (List.filter p)) := by
  refine ⟨fun id layer => ?_, fun l hl => ?_⟩
  · rw [OrderedMap.get?_filter]
    constructor
    · intro hget
      split at hget
      · rename_i hp
        obtain ⟨i, hi, l, hl, hid⟩ := (h.mem_iff id layer).1 hget
        refine ⟨i, hi, l.filter p, by rw [List.getElem?_map, hl]; rfl, ?_⟩
        exact List.mem_filter.2 ⟨hid, hp⟩
      · cases hget
    · intro hx
      obtain ⟨i, hi, l, hl, hid⟩ := hx
      rw [List.getElem?_map, Option.map_eq_some_iff] at hl
      obtain ⟨m, hm, rfl⟩ := hl
      obtain ⟨hid, hp⟩ := List.mem_filter.1 hid
      rw [if_pos hp]
      exact (h.mem_iff id layer).2 ⟨i, hi, m, hm, hid⟩
  · obtain ⟨m, hm, rfl⟩ := List.mem_map.1 hl
    exact (h.nodup m hm).filter _

end

/-! ## the lists made after layering -/

theorem getElem?_arrange {ids : List NodeId} {layers : OrderedMap NodeId Int} {i : Nat}
    {l : List NodeId} (h : (arrange ids layers)[i]? = some l) :
    l = ids.filter fun id => layers.get? id = some (i : Int) := by
  unfold arrange at h
  rw [List.getElem?_map] at h
  obtain ⟨j, hj, rfl⟩ := Option.map_eq_some_iff.1 h
  obtain ⟨_, rfl⟩ := List.getElem?_eq_some_iff.1 hj
  rw [List.getElem_range]

/-- the lists go on as far as there are nodes that high -/
theorem lt_length_arrange_iff {ids : List NodeId} {layers : OrderedMap NodeId Int} {i : Nat} :
    i < (arrange ids layers).length ↔ ∃ id layer, layers.get? id = some layer ∧ (i : Int) ≤ layer := by
  have hvalues : (∃ id layer, layers.get? id = some layer ∧ (i : Int) ≤ layer) ↔
      ∃ layer ∈ layers.values, (i : Int) ≤ layer := by
    constructor
    · intro hx
      obtain ⟨id, layer, hid, hle⟩ := hx
      exact ⟨layer, OrderedMap.mem_values_iff.2 ⟨id, hid⟩, hle⟩
    · intro hx
      obtain ⟨layer, hlayer, hle⟩ := hx
      obtain ⟨id, hid⟩ := OrderedMap.mem_values_iff.1 hlayer
      exact ⟨id, layer, hid, hle⟩
  rw [hvalues]
  unfold arrange
  rw [List.length_map, List.length_range]
  split
  · rename_i hv
    rw [hv]
    simp
  · rename_i a l hv
    rw [hv]
    have hmax := foldl_max_mem l a
    constructor
    · intro hi
      exact ⟨_, hmax, by omega⟩
    · intro hx
      obtain ⟨layer, hlayer, hle⟩ := hx
      have := le_foldl_max hlayer
      omega

/-- no layer is beyond the last list -/
theorem lt_length_arrange {ids : List NodeId} {layers : OrderedMap NodeId Int} {id : NodeId}
    {i : Nat} (h : layers.get? id = some (i : Int)) : i < (arrange ids layers).length :=
  lt_length_arrange_iff.2 ⟨id, i, h, Int.le_refl _⟩

/-- the order in which the table has got its entries does not matter -/
theorem arrange_congr {layers layers' : OrderedMap NodeId Int} (h : layers.get? = layers'.get?)
    (ids : List NodeId) : arrange ids layers = arrange ids layers' := by
  have hlt (i : Nat) : i < (arrange ids layers).length ↔ i < (arrange ids layers').length := by
    rw [lt_length_arrange_iff, lt_length_arrange_iff, h]
  have hlength : (arrange ids layers).length = (arrange ids layers').length :=
    Nat.le_antisymm (Nat.le_of_not_lt fun hx => Nat.lt_irrefl _ ((hlt _).1 hx))
      (Nat.le_of_not_lt fun hx => Nat.lt_irrefl _ ((hlt _).2 hx))
  refine List.ext_getElem hlength fun i hi hi' => ?_
  rw [getElem?_arrange (List.getElem?_eq_getElem hi), getElem?_arrange (List.getElem?_eq_getElem hi'),
    h]

theorem filed_arrange {ids : List NodeId} {layers : OrderedMap NodeId Int} (hids : ids.Nodup)
    (hkeys : ∀ id, id ∈ layers.keys ↔ id ∈ ids)
    (hnonneg : ∀ id a, layers.get? id = some a → 0 ≤ a) : Filed layers (arrange ids layers) := by
  refine ⟨fun id layer => ?_, fun l hl => ?_⟩
  · constructor
    · intro hget
      have hcast : ((layer.toNat : Nat) : Int) = layer := Int.toNat_of_nonneg (hnonneg id layer hget)
      have hlt : layer.toNat < (arrange ids layers).length :=
        lt_length_arrange (by rw [hcast]; exact hget)
      refine ⟨layer.toNat, hcast, _, List.getElem?_eq_getElem hlt, ?_⟩
      rw [getElem?_arrange (List.getElem?_eq_getElem hlt), List.mem_filter]
      exact ⟨(hkeys id).1 (OrderedMap.mem_keys_of_get? hget), by rw [hcast, hget]; simp⟩
    · intro hx
      obtain ⟨i, rfl, l, hl, hid⟩ := hx
      rw [getElem?_arrange hl, List.mem_filter] at hid
      simpa using hid.2
  · obtain ⟨i, hi⟩ := List.mem_iff_getElem?.1 hl
    rw [getElem?_arrange hi]
    exact hids.filter _

/-- no list is empty -/
theorem occupied_arrange {ids : List NodeId} {layers : OrderedMap NodeId Int} {arcs : List Edge}
    (h : Longest arcs layers) {i : Nat} (hi : i < (arrange ids layers).length) :
    ∃ id, layers.get? id = some (i : Int) := by
  obtain ⟨id, layer, hid, hle⟩ := lt_length_arrange_iff.1 hi
  exact h.exists_below hid (Int.natCast_nonneg i) hle

/-! ## listing a new node -/

theorem position_natCast {count i : Nat} (h : i < count) : position count (i : Int) = .ok i :=
  position_eq_ok_iff.2 (position?_natCast h)

/-- the new node is put into the next list at some slot -/
theorem insertBeside_of_mem {lists : Arrangement} {i : Nat} {prev : NodeId}
    (hi : i + 1 < lists.length) (hprev : prev ∈ lists[i]) (id : NodeId) :
    ∃ k ≤ lists[i + 1].length, insertBeside lists ((i : Int) + 1) prev id
      = .ok (lists.set (i + 1) (lists[i + 1].insertIdx k id)) := by
  obtain ⟨slot, hslot⟩ : ∃ slot, lists[i].idxOf? prev = some slot := by
    rw [← Option.isSome_iff_exists, List.isSome_idxOf?]
    exact hprev
  have hbelow : position lists.length ((i : Int) + 1 - 1) = .ok i := by
    rw [Int.add_sub_cancel]
    exact position_natCast (by omega)
  have hhere : position lists.length ((i : Int) + 1) = .ok (i + 1) := position_natCast hi
  have hgetBelow : lists.getD i [] = lists[i] := List.getD_eq_getElem _ _ _
  have hgetHere : lists.getD (i + 1) [] = lists[i + 1] := List.getD_eq_getElem _ _ hi
  refine ⟨min slot lists[i + 1].length, Nat.min_le_right _ _, ?_⟩
  simp only [insertBeside, hbelow, hhere, bind, Except.bind, pure, Except.pure, hgetBelow, hslot,
    hgetHere]

theorem exists_mem_set_iff {lists : Arrangement} {i j k : Nat} {id a : NodeId}
    (hi : i < lists.length) (hk : k ≤ lists[i].length) :
    (∃ l, (lists.set i (lists[i].insertIdx k id))[j]? = some l ∧ a ∈ l)
      ↔ (j = i ∧ a = id) ∨ ∃ l, lists[j]? = some l ∧ a ∈ l := by
  have hperm := List.perm_insertIdx id lists[i] hk
  rw [List.getElem?_set]
  by_cases hij : i = j
  · subst hij
    rw [if_pos rfl, if_pos hi, List.getElem?_eq_getElem hi]
    simp only [Option.some.injEq, exists_eq_left', hperm.mem_iff, List.mem_cons, true_and]
  · rw [if_neg hij]
    exact (or_iff_right fun hj => hij hj.1.symm).symm

/-- a new node in the list of its layer -/
theorem Filed.insert {layers : OrderedMap NodeId Int} {lists : Arrangement} (h : Filed layers lists)
    {id : NodeId} (hid : id ∉ layers.keys) {i k : Nat} (hi : i < lists.length)
    (hk : k ≤ lists[i].length) :
    Filed (layers.insert id (i : Int)) (lists.set i (lists[i].insertIdx k id)) := by
  have hlisted {j : Nat} {l : List NodeId} (hl : lists[j]? = some l) : id ∉ l := fun hmem =>
    hid (OrderedMap.mem_keys_of_get? (h.get?_of_mem hl hmem))
  refine ⟨fun a layer => ?_, fun l hl => ?_⟩
  · simp only [exists_mem_set_iff hi hk]
    rw [OrderedMap.get?_insert]
    by_cases ha : a = id
    · subst ha
      rw [if_pos rfl]
      constructor
      · intro heq
        exact ⟨i, Option.some.inj heq, .inl ⟨rfl, rfl⟩⟩
      · intro hx
        obtain ⟨j, rfl, hj | hj⟩ := hx
        · rw [hj.1]
        · obtain ⟨l, hl, hal⟩ := hj
          exact absurd hal (hlisted hl)
    · rw [if_neg ha, h.mem_iff]
      exact exists_congr fun j => and_congr_right fun _ => (or_iff_right fun hj => ha hj.2).symm
  · rcases List.mem_or_eq_of_mem_set hl with hl | rfl
    · exact h.nodup l hl
    · rw [(List.perm_insertIdx id lists[i] hk).nodup_iff, List.nodup_cons]
      exact ⟨hlisted (List.getElem?_eq_getElem hi), h.nodup _ (List.getElem_mem _)⟩

theorem Filed.insertBeside {layers : OrderedMap NodeId Int} {lists : Arrangement}
    (h : Filed layers lists) {layer : Int} {prev id : NodeId}
    (hprev : layers.get? prev = some (layer - 1)) (hid : id ∉ layers.keys)
    (hlt : layer < lists.length) :
    ∃ lists', LayeredDrawing.insertBeside lists layer prev id = .ok lists' ∧
      lists'.length = lists.length ∧ Filed (layers.insert id layer) lists' := by
  obtain ⟨i, hi, hlen, l, hl, hmem⟩ := h.exists_list hprev
  obtain rfl : (i : Int) + 1 = layer := by omega
  obtain ⟨_, rfl⟩ := List.getElem?_eq_some_iff.1 hl
  have hnext : i + 1 < lists.length := by omega
  obtain ⟨k, hk, hins⟩ := insertBeside_of_mem hnext hmem id
  exact ⟨_, hins, List.length_set, h.insert hid hnext hk⟩

end LayeredDrawing
