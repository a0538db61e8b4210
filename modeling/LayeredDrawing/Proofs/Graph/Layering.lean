import LayeredDrawing.Proofs.Graph.TopologicalOrder

/-!
# Layerings

The layers that a graph is given grow along every edge (`Ascending`), no faster than they have to
(`Longest`), and an acyclic graph is given layers for exactly its nodes.  The layers are computed along
the topological order, so the layers of all predecessors are known when the layer of a node is asked
for.

* `layering_ok`     what the layers computed are like;
* `Longest.unique`  there is only one way to give such layers.
-/

namespace LayeredDrawing

theorem foldl_max_le_iff {l : List Int} {a b : Int} :
    l.foldl max a ≤ b ↔ a ≤ b ∧ ∀ x ∈ l, x ≤ b := by
  induction l generalizing a with
  | nil => simp
  | cons x l ih => rw [List.foldl_cons, ih, Int.max_le, List.forall_mem_cons, and_assoc]

theorem le_foldl_max {l : List Int} {a x : Int} (hx : x ∈ a :: l) : x ≤ l.foldl max a := by
  obtain ⟨ha, hl⟩ := foldl_max_le_iff.1 (Int.le_refl (l.foldl max a))
  rcases List.mem_cons.1 hx with rfl | hx
  · exact ha
  · exact hl x hx

theorem foldl_max_mem (l : List Int) (a : Int) : l.foldl max a ∈ a :: l := by
  induction l generalizing a with
  | nil => exact List.mem_cons_self
  | cons x l ih =>
    rw [List.foldl_cons]
    rcases List.mem_cons.1 (ih (max a x)) with heq | hin
    · rw [heq]
      rcases Int.le_total a x with hle | hle
      · rw [Int.max_eq_right hle]
        exact List.mem_cons_of_mem _ List.mem_cons_self
      · rw [Int.max_eq_left hle]
        exact List.mem_cons_self
    · exact List.mem_cons_of_mem _ (List.mem_cons_of_mem _ hin)

/-! ## lists of requests -/

/-- a list of requests of which each is granted -/
theorem mapM_of_forall {β γ : Type} {f : β → Except Fault γ} {l : List β}
    (h : ∀ b ∈ l, ∃ c, f b = .ok c) : ∃ cs, l.mapM f = .ok cs ∧ cs.length = l.length := by
  induction l with
  | nil => exact ⟨[], rfl, rfl⟩
  | cons b l ih =>
    obtain ⟨c, hc⟩ := h b List.mem_cons_self
    obtain ⟨cs, hcs, hlen⟩ := ih fun x hx => h x (List.mem_cons_of_mem _ hx)
    refine ⟨c :: cs, ?_, by rw [List.length_cons, List.length_cons, hlen]⟩
    rw [List.mapM_cons, hc, hcs]
    rfl

theorem forM_of_forall {β : Type} {f : β → Except Fault Unit} {l : List β}
    (h : ∀ b ∈ l, f b = .ok ()) : l.forM f = .ok () := by
  induction l with
  | nil => rfl
  | cons b l ih =>
    show (f b >>= fun _ => l.forM f) = .ok ()
    rw [h b List.mem_cons_self]
    exact ih fun x hx => h x (List.mem_cons_of_mem _ hx)

namespace OrderedMap

variable {ν : Type} {m : OrderedMap NodeId ν}

theorem entry_eq_ok_iff {id : NodeId} {v : ν} : m.entry id = .ok v ↔ m.get? id = some v := by
  unfold entry
  split <;> simp_all

theorem entry_of_mem {id : NodeId} (h : id ∈ m.keys) : ∃ v, m.entry id = .ok v := by
  obtain ⟨v, hv⟩ := exists_get?_of_mem h
  exact ⟨v, entry_eq_ok_iff.2 hv⟩

/-- looking up a list of present nodes gives their entries in order -/
theorem mapM_entry {l : List NodeId} (h : ∀ id ∈ l, id ∈ m.keys) :
    ∃ vs, l.mapM m.entry = .ok vs ∧ l.map m.get? = vs.map some := by
  induction l with
  | nil => exact ⟨[], rfl, rfl⟩
  | cons id l ih =>
    obtain ⟨v, hv⟩ := entry_of_mem (h id List.mem_cons_self)
    obtain ⟨vs, hvs, hmap⟩ := ih fun j hj => h j (List.mem_cons_of_mem _ hj)
    refine ⟨v :: vs, ?_, ?_⟩
    · rw [List.mapM_cons, hv, hvs]
      rfl
    · rw [List.map_cons, List.map_cons, hmap, entry_eq_ok_iff.1 hv]

end OrderedMap

/-- the layers grow along every edge into a node that has one, and none is below zero -/
structure Ascending (arcs : List Edge) (layers : OrderedMap NodeId Int) : Prop where
  source_mem : ∀ e ∈ arcs, e.target ∈ layers.keys → e.source ∈ layers.keys
  lt : ∀ e ∈ arcs, ∀ a b, layers.get? e.source = some a → layers.get? e.target = some b → a < b
  nonneg : ∀ id a, layers.get? id = some a → 0 ≤ a

/-- a node above the lowest layer has a predecessor in the layer below its own -/
structure Longest (arcs : List Edge) (layers : OrderedMap NodeId Int) : Prop
    extends Ascending arcs layers where
  attained : ∀ id a, layers.get? id = some a → a = 0 ∨
    ∃ e ∈ arcs, e.target = id ∧ layers.get? e.source = some (a - 1)

section
variable {arcs arcs' : List Edge} {layers layers' : OrderedMap NodeId Int}

/-- below a node there is one in each layer -/
theorem Longest.exists_below (h : Longest arcs layers) {id : NodeId} {a b : Int}
    (hid : layers.get? id = some a) (hb : 0 ≤ b) (hle : b ≤ a) :
    ∃ j, layers.get? j = some b := by
  obtain ⟨n, rfl⟩ := Int.le.dest hle
  induction n generalizing id with
  | zero => exact ⟨id, by rw [hid]; congr 1; omega⟩
  | succ n ih =>
    rcases h.attained id _ hid with hzero | ⟨e, _, _, hsource⟩
    · omega
    · exact ih (by rw [hsource]; congr 1; omega) (by omega)

/-- there are fewer layers below a node than nodes -/
theorem Longest.lt_size (h : Longest arcs layers) {id : NodeId} {a : Int}
    (hid : layers.get? id = some a) : a < layers.size := by
  have hnonneg := h.nonneg id a hid
  have hsub : ((List.range (a.toNat + 1)).map Int.ofNat).Subperm layers.values := by
    refine (List.nodup_range.map fun _ _ => Int.ofNat.inj).subperm fun b hb => ?_
    obtain ⟨i, hi, rfl⟩ := List.mem_map.1 hb
    have hle : (Int.ofNat i) ≤ a := by
      have := List.mem_range.1 hi
      show (i : Int) ≤ a
      omega
    obtain ⟨j, hj⟩ := h.exists_below hid (Int.natCast_nonneg i) hle
    exact OrderedMap.mem_values_iff.2 ⟨j, hj⟩
  have hlength := hsub.length_le
  rw [List.length_map, List.length_range, OrderedMap.values, List.length_map] at hlength
  have hsize : layers.size = layers.entries.length := rfl
  omega

/-- where both tables have all nodes, the first is nowhere above the second -/
theorem Longest.le (h : Longest arcs layers) (h' : Ascending arcs' layers')
    (harcs : ∀ e ∈ arcs, e ∈ arcs') (hkeys : ∀ id ∈ layers.keys, id ∈ layers'.keys) {id : NodeId}
    {a b : Int} (ha : layers.get? id = some a) (hb : layers'.get? id = some b) : a ≤ b := by
  obtain ⟨n, rfl⟩ := Int.eq_ofNat_of_zero_le (h.nonneg id a ha)
  induction n generalizing id b with
  | zero => exact h'.nonneg id b hb
  | succ n ih =>
    rcases h.attained id _ ha with hzero | ⟨e, he, rfl, hsource⟩
    · omega
    · have hprev : layers.get? e.source = some (n : Int) := by
        rw [hsource]
        congr 1
        omega
      obtain ⟨k, hk⟩ := OrderedMap.exists_get?_of_mem (hkeys _ (OrderedMap.mem_keys_of_get? hprev))
      have hle := ih hk hprev
      have hlt := h'.lt e (harcs e he) k b hk hb
      omega

theorem Longest.unique (h : Longest arcs layers) (h' : Longest arcs' layers')
    (harcs : ∀ e, e ∈ arcs ↔ e ∈ arcs') (hkeys : ∀ id, id ∈ layers.keys ↔ id ∈ layers'.keys)
    (id : NodeId) : layers.get? id = layers'.get? id := by
  by_cases hid : id ∈ layers.keys
  · obtain ⟨a, ha⟩ := OrderedMap.exists_get?_of_mem hid
    obtain ⟨b, hb⟩ := OrderedMap.exists_get?_of_mem ((hkeys id).1 hid)
    have hle := h.le h'.toAscending (fun e => (harcs e).1) (fun j => (hkeys j).1) ha hb
    have hge := h'.le h.toAscending (fun e => (harcs e).2) (fun j => (hkeys j).2) hb ha
    rw [ha, hb, Int.le_antisymm hle hge]
  · rw [OrderedMap.get?_eq_none_iff.2 hid, OrderedMap.get?_eq_none_iff.2 fun h => hid ((hkeys id).2 h)]

end

/-- the layer of a node as a natural number, and zero for what is no node -/
def rankOf (layers : OrderedMap NodeId Int) (id : NodeId) : Nat := ((layers.get? id).getD 0).toNat

section
variable {arcs : List Edge} {layers : OrderedMap NodeId Int} {id : NodeId}

theorem Ascending.get?_eq_rankOf (h : Ascending arcs layers) (hid : id ∈ layers.keys) :
    layers.get? id = some (rankOf layers id : Int) := by
  obtain ⟨a, ha⟩ := OrderedMap.exists_get?_of_mem hid
  have hnonneg := h.nonneg id a ha
  rw [rankOf, ha, Option.getD_some, Int.toNat_of_nonneg hnonneg]

theorem Ascending.rankOf_lt (h : Ascending arcs layers) {e : Edge} (he : e ∈ arcs)
    (hs : e.source ∈ layers.keys) (ht : e.target ∈ layers.keys) :
    rankOf layers e.source < rankOf layers e.target := by
  have hlt := h.lt e he _ _ (h.get?_eq_rankOf hs) (h.get?_eq_rankOf ht)
  omega

end

namespace Graph

variable {α : Type} {g : Graph α} {layers : OrderedMap NodeId Int}

theorem mem_predecessors {id p : NodeId} :
    p ∈ g.predecessors id ↔ ∃ e ∈ g.arcs, e.target = id ∧ e.source = p := by
  simp [predecessors, inEdges, and_assoc]

theorem mem_successors {id p : NodeId} :
    p ∈ g.successors id ↔ ∃ e ∈ g.arcs, e.source = id ∧ e.target = p := by
  simp [successors, outEdges, and_assoc]

/-- the layer of a node is above those of its predecessors, and no higher than that takes -/
theorem layerFrom_spec {id : NodeId} (hpred : ∀ p ∈ g.predecessors id, p ∈ layers.keys)
    (hnonneg : ∀ id a, layers.get? id = some a → 0 ≤ a) :
    ∃ b, g.layerFrom layers id = .ok b ∧ 0 ≤ b ∧
      (∀ p ∈ g.predecessors id, ∀ a, layers.get? p = some a → a < b) ∧
        (b = 0 ∨ ∃ p ∈ g.predecessors id, layers.get? p = some (b - 1)) := by
  obtain ⟨below, hbelow, hmap⟩ := OrderedMap.mapM_entry hpred
  have hmem {p : NodeId} {a : Int} (hp : p ∈ g.predecessors id) (ha : layers.get? p = some a) :
      a ∈ below := by
    have : some a ∈ below.map some := by
      rw [← hmap, ← ha]
      exact List.mem_map_of_mem hp
    simpa using this
  cases below with
  | nil =>
    refine ⟨0, by unfold layerFrom; rw [hbelow]; rfl, Int.le_refl 0, fun p hp a ha => ?_, .inl rfl⟩
    cases hmem hp ha
  | cons x l =>
    -- the largest layer below is that of some predecessor
    have hmax : some (l.foldl max x) ∈ (g.predecessors id).map layers.get? := by
      rw [hmap]
      exact List.mem_map_of_mem (foldl_max_mem l x)
    obtain ⟨p, hp, hget⟩ := List.mem_map.1 hmax
    refine ⟨l.foldl max x + 1, by unfold layerFrom; rw [hbelow]; rfl, ?_, fun p hp a ha => ?_, .inr ?_⟩
    · have := hnonneg p _ hget
      omega
    · have := le_foldl_max (hmem hp ha)
      omega
    · exact ⟨p, hp, by rw [hget, Int.add_sub_cancel]⟩

/-- one more node gets its layer -/
theorem ascending_insert (h : Ascending g.arcs layers) {id : NodeId} {b : Int}
    (hid : id ∉ layers.keys) (hpred : ∀ e ∈ g.arcs, e.target = id → e.source ∈ layers.keys)
    (hb : 0 ≤ b) (hlt : ∀ p ∈ g.predecessors id, ∀ a, layers.get? p = some a → a < b) :
    Ascending g.arcs (layers.insert id b) := by
  have hne {e : Edge} (he : e ∈ g.arcs) (ht : e.target ∈ layers.keys ∨ e.target = id) :
      e.source ∈ layers.keys ∧ e.source ≠ id := by
    have hs : e.source ∈ layers.keys := by
      rcases ht with ht | ht
      · exact h.source_mem e he ht
      · exact hpred e he ht
    exact ⟨hs, fun heq => hid (heq ▸ hs)⟩
  refine ⟨fun e he ht => ?_, fun e he a c ha hc => ?_, fun j a ha => ?_⟩
  · exact OrderedMap.mem_keys_insert.2 (.inl (hne he (OrderedMap.mem_keys_insert.1 ht)).1)
  · obtain ⟨_, hs⟩ := hne he (OrderedMap.mem_keys_insert.1 (OrderedMap.mem_keys_of_get? hc))
    rw [OrderedMap.get?_insert_of_ne hs] at ha
    rw [OrderedMap.get?_insert] at hc
    split at hc
    · rename_i ht
      obtain rfl := Option.some.inj hc
      exact hlt e.source (mem_predecessors.2 ⟨e, he, ht, rfl⟩) a ha
    · exact h.lt e he a c ha hc
  · rw [OrderedMap.get?_insert] at ha
    split at ha
    · obtain rfl := Option.some.inj ha
      exact hb
    · exact h.nonneg j a ha

theorem longest_insert (h : Longest g.arcs layers) {id : NodeId} {b : Int} (hid : id ∉ layers.keys)
    (hpred : ∀ e ∈ g.arcs, e.target = id → e.source ∈ layers.keys) (hb : 0 ≤ b)
    (hlt : ∀ p ∈ g.predecessors id, ∀ a, layers.get? p = some a → a < b)
    (hattained : b = 0 ∨ ∃ p ∈ g.predecessors id, layers.get? p = some (b - 1)) :
    Longest g.arcs (layers.insert id b) := by
  have hkept {j : NodeId} {a : Int} (hj : layers.get? j = some a) :
      (layers.insert id b).get? j = some a := by
    have hne : j ≠ id := fun heq => hid (heq ▸ OrderedMap.mem_keys_of_get? hj)
    rw [OrderedMap.get?_insert_of_ne hne, hj]
  refine ⟨ascending_insert h.toAscending hid hpred hb hlt, fun j a ha => ?_⟩
  rw [OrderedMap.get?_insert] at ha
  split at ha
  · rename_i hj
    obtain rfl := Option.some.inj ha
    refine hattained.imp_right fun hx => ?_
    obtain ⟨p, hp, hget⟩ := hx
    obtain ⟨e, he, ht, rfl⟩ := mem_predecessors.1 hp
    exact ⟨e, he, ht.trans hj.symm, hkept hget⟩
  · refine (h.attained j a ha).imp_right fun hx => ?_
    obtain ⟨e, he, ht, hget⟩ := hx
    exact ⟨e, he, ht, hkept hget⟩

theorem foldlM_layerFrom {done order : List NodeId} (horder : InOrder g.arcs done order)
    (hkeys : ∀ id, id ∈ layers.keys ↔ id ∈ done) (h : Longest g.arcs layers) :
    ∃ result, order.foldlM
        (fun layers id => return layers.insert id (← g.layerFrom layers id)) layers
          = (.ok result : Except Fault _) ∧
      result.keys = layers.keys ++ order ∧ Longest g.arcs result := by
  induction order generalizing done layers with
  | nil => exact ⟨layers, rfl, by rw [List.append_nil], h⟩
  | cons id order ih =>
    obtain ⟨hdone, hready, hrest⟩ := horder
    have hid : id ∉ layers.keys := fun hm => hdone ((hkeys id).1 hm)
    have hedges : ∀ e ∈ g.arcs, e.target = id → e.source ∈ layers.keys := fun e he ht =>
      (hkeys _).2 (hready e he ht)
    have hpred : ∀ p ∈ g.predecessors id, p ∈ layers.keys := by
      intro p hp
      obtain ⟨e, he, ht, rfl⟩ := mem_predecessors.1 hp
      exact hedges e he ht
    obtain ⟨b, hb, h0, hlt, hattained⟩ := layerFrom_spec hpred h.nonneg
    have hkeys' : ∀ j, j ∈ (layers.insert id b).keys ↔ j ∈ id :: done := by
      intro j
      rw [OrderedMap.mem_keys_insert, hkeys, List.mem_cons, or_comm]
    obtain ⟨result, hfold, hk, hlongest⟩ :=
      ih hrest hkeys' (longest_insert h hid hedges h0 hlt hattained)
    refine ⟨result, ?_, ?_, hlongest⟩
    · rw [List.foldlM_cons, hb]
      exact hfold
    · rw [hk, OrderedMap.keys_insert_of_not_mem hid, List.append_assoc, List.singleton_append]

/-- a graph without a cycle in sight gets layers along its topological order -/
theorem layering_of_someCycle (h : g.someCycle = []) : ∃ layers, g.layering = .ok layers ∧
    layers.keys = g.topologicalOrder ∧ Longest g.arcs layers := by
  have hempty : Longest g.arcs ∅ := by
    refine ⟨⟨fun _ _ ht => ?_, fun _ _ _ _ ha => ?_, fun _ _ ha => ?_⟩, fun _ _ ha => ?_⟩
    · cases ht
    · cases ha
    · cases ha
    · cases ha
  obtain ⟨layers, hfold, hkeys, hlongest⟩ :=
    foldlM_layerFrom g.inOrder_topologicalOrder (fun _ => Iff.rfl) hempty
  refine ⟨layers, ?_, hkeys, hlongest⟩
  rw [layering, h]
  exact hfold

theorem layering_ok (h : g.layering = .ok layers) :
    layers.keys = g.topologicalOrder ∧ Longest g.arcs layers := by
  have hcycle : g.someCycle = [] := by
    unfold layering at h
    split at h
    · assumption
    · cases h
  obtain ⟨layers', h', hkeys, hlongest⟩ := layering_of_someCycle hcycle
  obtain rfl := Except.ok.inj (h'.symm.trans h)
  exact ⟨hkeys, hlongest⟩

theorem mem_layers_iff (hg : g.Joined) (hacyclic : g.Acyclic) (h : g.layering = .ok layers)
    (id : NodeId) : id ∈ layers.keys ↔ id ∈ g.nodeIds := by
  rw [(layering_ok h).1]
  exact ⟨mem_nodeIds_of_mem_topologicalOrder hg, mem_topologicalOrder hg hacyclic⟩

/-- layers that grow along every edge leave no room for a cycle -/
theorem acyclic_of_ascending (hg : g.Coherent) (h : Ascending g.arcs layers)
    (hkeys : ∀ id ∈ g.nodeIds, id ∈ layers.keys) : g.Acyclic := by
  exact acyclic_of_rank (rankOf layers) fun e he =>
    h.rankOf_lt he (hkeys _ (hg.source_mem e he)) (hkeys _ (hg.target_mem e he))

theorem layering_of_acyclic (hacyclic : g.Acyclic) : ∃ layers, g.layering = .ok layers := by
  obtain ⟨layers, h, _⟩ := layering_of_someCycle (someCycle_of_acyclic hacyclic)
  exact ⟨layers, h⟩

end Graph

end LayeredDrawing
