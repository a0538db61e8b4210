import LayeredDrawing.Placement.Heights
import LayeredDrawing.Proofs.Arrangement.Precedence
import LayeredDrawing.Proofs.Graph.Layering
import LayeredDrawing.Proofs.Placement.Row

/-!
# Heights keep their distances

Over the rationals, whatever the number of passes, the heights computed for the nodes of a layer
grow along the layer by at least `spacing` (`Apart`), and every node listed gets one, so the check
for swapped nodes has nothing to refuse.  For that the layers need not be those of a drawing, nor
hold every node of the graph: edges may lead from anywhere to anywhere among the nodes listed.

* `Closed`        nodes are listed once, and with a node its neighbours;
* `Spread`        every node listed has a height, and every layer is apart;
* `alignLayer_spec`   aligning one layer keeps this;
* `heights_spread`, `heights_spec`  the heights in the end.
-/

namespace LayeredDrawing

open Scalar

theorem wish_of_mem {α : Type} [Scalar α] {g : Graph α} {hs : Heights α} {side : Side} {id : NodeId}
    (hkeys : ∀ n ∈ g.neighbours side id, n ∈ hs.keys) (hid : id ∈ g.nodeIds) :
    ∃ answer, wish g hs side id = .ok answer := by
  obtain ⟨wanted, hwanted, _⟩ := OrderedMap.mapM_entry hkeys
  obtain ⟨n, hn⟩ := OrderedMap.entry_of_mem hid
  have hnode : g.node id = .ok n := hn
  refine ⟨(mean? wanted, if n.isDummy then .top else .value (ofNat (g.neighbours side id).length)),
    ?_⟩
  simp only [wish, Graph.require_eq_ok_iff.2 (Graph.hasNode_iff.2 hid), hwanted, hnode, bind,
    Except.bind, pure, Except.pure]

/-! ## who has a height -/

section
variable {β γ : Type} {P : β → Prop}

/-- what the request grants has the property -/
def Grants (P : β → Prop) (r : Except Fault β) : Prop := ∀ b, r = .ok b → P b

theorem grants_ok {b : β} (h : P b) : Grants P (.ok b : Except Fault β) := by
  intro b' heq
  cases heq
  exact h

theorem grants_bind {r : Except Fault γ} {f : γ → Except Fault β} (hf : ∀ c, Grants P (f c)) :
    Grants P (r >>= f) := by
  cases r with
  | ok c => exact hf c
  | error fault => exact fun b h => by cases h

theorem Grants.bind {Q : γ → Prop} {r : Except Fault γ} {f : γ → Except Fault β} (h : Grants Q r)
    (hf : ∀ c, Q c → Grants P (f c)) : Grants P (r >>= f) := by
  cases r with
  | ok c => exact hf c (h c rfl)
  | error fault => exact fun b h => by cases h

theorem grants_foldlM {f : β → γ → Except Fault β} {l : List γ} {b : β} (hb : P b)
    (h : ∀ b c, P b → Grants P (f b c)) : Grants P (l.foldlM f b) := by
  induction l generalizing b with
  | nil => exact grants_ok hb
  | cons c l ih =>
    rw [List.foldlM_cons]
    exact (h b c hb).bind fun b' hb' => ih hb'

end

section
variable {α : Type} [Scalar α] {g : Graph α} {spacing : α} {lists : Arrangement} {hs : Heights α}
  {id : NodeId}

/-- one more layer evenly spaced -/
def evenLayer (spacing : α) (hs : Heights α) (layer : List NodeId) : Heights α :=
  layer.zipIdx.foldl (fun hs p => hs.insert p.1 (ofNat p.2 * spacing)) hs

theorem evenHeights_eq (spacing : α) (lists : Arrangement) :
    evenHeights spacing lists = lists.foldl (evenLayer spacing) ∅ := rfl

theorem mem_keys_evenLayer {layer : List NodeId} :
    id ∈ (evenLayer spacing hs layer).keys ↔ id ∈ hs.keys ∨ id ∈ layer := by
  rw [evenLayer, OrderedMap.mem_keys_foldl_insert, List.zipIdx_map_fst]

theorem keys_evenLayer (spacing : α) {layer : List NodeId} (h : (hs.keys ++ layer).Nodup) :
    (evenLayer spacing hs layer).keys = hs.keys ++ layer := by
  rw [evenLayer, OrderedMap.keys_foldl_insert_of_nodup (by rwa [List.zipIdx_map_fst]),
    List.zipIdx_map_fst]

theorem get?_evenLayer_of_not_mem {layer : List NodeId} (h : id ∉ layer) :
    (evenLayer spacing hs layer).get? id = hs.get? id :=
  OrderedMap.get?_foldl_insert_of_not_mem (by rwa [List.zipIdx_map_fst])

theorem mem_keys_evenHeights (h : id ∈ lists.flatten) : id ∈ (evenHeights spacing lists).keys := by
  have hall (lists : Arrangement) (hs : Heights α) (h : id ∈ hs.keys ∨ id ∈ lists.flatten) :
      id ∈ (lists.foldl (evenLayer spacing) hs).keys := by
    induction lists generalizing hs with
    | nil => exact h.elim (fun h => h) fun h => (List.not_mem_nil h).elim
    | cons layer lists ih =>
      refine ih _ ?_
      rwa [mem_keys_evenLayer, or_assoc, ← List.mem_append, ← List.flatten_cons]
  rw [evenHeights_eq]
  exact hall lists ∅ (.inr h)

theorem grants_alignLayer (hid : id ∈ hs.keys) (side : Side) (layer : List NodeId) :
    Grants (fun hs' : Heights α => id ∈ hs'.keys) (alignLayer g spacing side hs layer) :=
  grants_bind fun _ => grants_bind fun _ => grants_bind fun _ =>
    grants_ok (OrderedMap.mem_keys_foldl_insert.2 (.inl hid))

theorem grants_alignPass (hid : id ∈ hs.keys) :
    Grants (fun hs' : Heights α => id ∈ hs'.keys) (alignPass g spacing lists hs) := by
  have hlayers (side : Side) (lists : Arrangement) (hs : Heights α) (hid : id ∈ hs.keys) :
      Grants (fun hs' : Heights α => id ∈ hs'.keys) (lists.foldlM (alignLayer g spacing side) hs) :=
    grants_foldlM (P := fun hs : Heights α => id ∈ hs.keys) hid fun _ layer hid =>
      grants_alignLayer hid side layer
  exact (hlayers .incoming _ hs hid).bind fun hs hid => hlayers .outgoing _ hs hid

theorem grants_alignPasses (hid : id ∈ hs.keys) (passes : Nat) :
    Grants (fun hs' : Heights α => id ∈ hs'.keys) (alignPasses g spacing lists passes hs) := by
  induction passes generalizing hs with
  | zero => exact grants_ok hid
  | succ passes ih => exact (grants_alignPass hid).bind fun _ hid => ih hid

/-- every node listed gets a height, if heights are computed at all -/
theorem grants_heights {c : Config α} (h : id ∈ lists.flatten) :
    Grants (fun hs : Heights α => id ∈ hs.keys) (heights g c lists) := by
  refine (grants_alignPasses (mem_keys_evenHeights h) _).bind fun hs hid => grants_ok ?_
  unfold LayeredDrawing.fromZero
  split
  · exact hid
  · rw [OrderedMap.keys_mapValues]
    exact hid

end

/-! ## layers apart -/

def Apart (spacing : Rat) (hs : Heights Rat) (layer : List NodeId) : Prop :=
  layer.Pairwise fun a b => ∀ y z, hs.get? a = some y → hs.get? b = some z → y + spacing ≤ z

section
variable {spacing : Rat} {hs : Heights Rat} {layer : List NodeId}

theorem Apart.pairwise (h : Apart spacing hs layer) {ys : List Rat}
    (hys : layer.map hs.get? = ys.map some) : ys.Pairwise fun y z => y + spacing ≤ z := by
  have hp : (layer.map hs.get?).Pairwise
      fun a b => ∀ y z, a = some y → b = some z → y + spacing ≤ z :=
    List.pairwise_map.2 h
  rw [hys, List.pairwise_map] at hp
  exact hp.imp fun {y z} hyz => hyz y z rfl rfl

/-- different nodes of a layer are apart, whichever comes first -/
theorem Apart.le_abs (h : Apart spacing hs layer) {a b : NodeId} (ha : a ∈ layer) (hb : b ∈ layer)
    (hne : a ≠ b) {y z : Rat} (hy : hs.get? a = some y) (hz : hs.get? b = some z) :
    spacing ≤ |y - z| := by
  induction layer with
  | nil => cases ha
  | cons d layer ih =>
    obtain ⟨hd, hrest⟩ := List.pairwise_cons.1 h
    rcases List.mem_cons.1 ha with had | hin <;> rcases List.mem_cons.1 hb with hbd | hin'
    · exact absurd (had.trans hbd.symm) hne
    · subst had
      have hyz := hd b hin' y z hy hz
      rw [abs_sub_comm]
      exact le_trans (by linarith) (le_abs_self (z - y))
    · subst hbd
      have hzy := hd a hin z y hz hy
      exact le_trans (by linarith) (le_abs_self (y - z))
    · exact ih hrest hin hin'

/-- a layer whose nodes get new heights -/
theorem apart_foldl_insert {ι : Type} {f : ι → NodeId} {v : ι → Rat} {l : List ι}
    (hnodup : (l.map f).Nodup) (h : l.Pairwise fun i j => v i + spacing ≤ v j) :
    Apart spacing (l.foldl (fun hs i => hs.insert (f i) (v i)) hs) (l.map f) := by
  unfold Apart
  rw [List.pairwise_map]
  refine h.imp_of_mem fun {i j} hi hj hij y z hy hz => ?_
  rw [OrderedMap.get?_foldl_insert hnodup hi] at hy
  rw [OrderedMap.get?_foldl_insert hnodup hj] at hz
  obtain rfl := Option.some.inj hy
  obtain rfl := Option.some.inj hz
  exact hij

/-- a layer whose nodes keep their heights -/
theorem Apart.congr {hs' : Heights Rat} (h : Apart spacing hs layer)
    (heq : ∀ id ∈ layer, hs'.get? id = hs.get? id) : Apart spacing hs' layer := by
  refine h.imp_of_mem fun {a b} ha hb hab y z hy hz => ?_
  rw [heq a ha] at hy
  rw [heq b hb] at hz
  exact hab y z hy hz

theorem requireAscending_of_apart (hspacing : 0 < spacing) (h : Apart spacing hs layer)
    (hkeys : ∀ id ∈ layer, id ∈ hs.keys) (i : Nat) : requireAscending hs i layer = .ok () := by
  induction layer with
  | nil => rfl
  | cons upper layer ih =>
    cases layer with
    | nil => rfl
    | cons lower rest =>
      obtain ⟨hfirst, hrest⟩ := List.pairwise_cons.1 h
      obtain ⟨y, hy⟩ := OrderedMap.entry_of_mem (hkeys upper List.mem_cons_self)
      obtain ⟨z, hz⟩ :=
        OrderedMap.entry_of_mem (hkeys lower (List.mem_cons_of_mem _ List.mem_cons_self))
      have hyz : y + spacing ≤ z := hfirst lower List.mem_cons_self y z
        (OrderedMap.entry_eq_ok_iff.1 hy) (OrderedMap.entry_eq_ok_iff.1 hz)
      have hlt : y < z := by linarith
      have hnot : ¬ ¬ (y < z) := not_not_intro hlt
      have hnext := ih hrest fun id hid => hkeys id (List.mem_cons_of_mem _ hid)
      simp only [requireAscending, hy, hz, bind, Except.bind]
      rw [if_neg hnot]
      exact hnext

end

/-- the layers hold every node once -/
structure Partition {α : Type} (g : Graph α) (lists : Arrangement) : Prop where
  nodup : lists.flatten.Nodup
  mem_iff : ∀ id, id ∈ lists.flatten ↔ id ∈ g.nodeIds

theorem Partition.mem_nodeIds {α : Type} {g : Graph α} {lists : Arrangement} (hp : Partition g lists)
    {l : List NodeId} (hl : l ∈ lists) {id : NodeId} (hid : id ∈ l) : id ∈ g.nodeIds :=
  (hp.mem_iff id).1 (List.mem_flatten.2 ⟨l, hl, hid⟩)

/-- the layers hold nodes of the graph, none twice, and with a node all its neighbours -/
structure Closed {α : Type} (g : Graph α) (lists : Arrangement) : Prop where
  nodup : lists.flatten.Nodup
  mem_nodeIds : ∀ id ∈ lists.flatten, id ∈ g.nodeIds
  mem_neighbours : ∀ id ∈ lists.flatten, ∀ side, ∀ n ∈ g.neighbours side id, n ∈ lists.flatten

theorem Partition.closed {α : Type} {g : Graph α} {lists : Arrangement} (hp : Partition g lists)
    (hg : g.Coherent) : Closed g lists := by
  refine ⟨hp.nodup, fun id => (hp.mem_iff id).1, fun id _ side n hn => (hp.mem_iff n).2 ?_⟩
  cases side with
  | incoming =>
    obtain ⟨e, he, _, rfl⟩ := Graph.mem_predecessors.1 hn
    exact hg.source_mem e he
  | outgoing =>
    obtain ⟨e, he, _, rfl⟩ := Graph.mem_successors.1 hn
    exact hg.target_mem e he

/-- two different layers share no node -/
theorem Closed.not_mem {α : Type} {g : Graph α} {lists : Arrangement} (hc : Closed g lists)
    {l m : List NodeId} (hl : l ∈ lists) (hm : m ∈ lists) (hne : l ≠ m) {id : NodeId} (hid : id ∈ l) :
    id ∉ m := by
  have : Std.Symm (List.Disjoint : List NodeId → List NodeId → Prop) :=
    ⟨fun _ _ => List.Disjoint.symm⟩
  exact (List.nodup_flatten.1 hc.nodup).2.forall hl hm hne hid

/-- every node listed has a height, and the heights of each layer are apart -/
structure Spread (spacing : Rat) (lists : Arrangement) (hs : Heights Rat) : Prop where
  keys_eq : hs.keys = lists.flatten
  apart : ∀ l ∈ lists, Apart spacing hs l

theorem Spread.mem_keys {spacing : Rat} {lists : Arrangement} {hs : Heights Rat}
    (h : Spread spacing lists hs) {id : NodeId} (hid : id ∈ lists.flatten) : id ∈ hs.keys := by
  rw [h.keys_eq]
  exact hid

section
variable {g : Graph Rat} {spacing : Rat} {lists : Arrangement} {hs : Heights Rat}

theorem alignLayer_spec (hspacing : 0 ≤ spacing) (hc : Closed g lists) (h : Spread spacing lists hs)
    (side : Side) {layer : List NodeId} (hl : layer ∈ lists) :
    ∃ hs', alignLayer g spacing side hs layer = .ok hs' ∧ Spread spacing lists hs' := by
  have hmem : ∀ id ∈ layer, id ∈ lists.flatten := fun id hid => List.mem_flatten.2 ⟨layer, hl, hid⟩
  obtain ⟨old, hold, hmap⟩ := OrderedMap.mapM_entry fun id hid => h.mem_keys (hmem id hid)
  obtain ⟨wishes, hwishes, hlen⟩ := mapM_of_forall fun id hid =>
    wish_of_mem (fun n hn => h.mem_keys (hc.mem_neighbours id (hmem id hid) side n hn))
      (hc.mem_nodeIds id (hmem id hid))
  have hlenOld : old.length = layer.length := by
    have := congrArg List.length hmap
    simpa using this.symm
  have hrow : ∃ new, placeRow spacing old (wishes.map Prod.fst) (wishes.map Prod.snd) = .ok new ∧
      new.length = old.length :=
    placeRow_of_length (by rw [List.length_map]; omega) (by rw [List.length_map]; omega)
  obtain ⟨new, hnew, hlenNew⟩ := hrow
  have hfst : (layer.zip new).map Prod.fst = layer := List.map_fst_zip (by omega)
  have hsnd : (layer.zip new).map Prod.snd = new := List.map_snd_zip (by omega)
  refine ⟨(layer.zip new).foldl (fun hs p => hs.insert p.1 p.2) hs, ?_, ?_, fun l hl' => ?_⟩
  · simp only [alignLayer, hold, hwishes, hnew, bind, Except.bind, pure, Except.pure]
  · rw [OrderedMap.keys_foldl_insert_of_mem, h.keys_eq]
    intro id hid
    rw [hfst] at hid
    exact h.mem_keys (hmem id hid)
  · by_cases heq : l = layer
    · have hnodup : ((layer.zip new).map Prod.fst).Nodup := by
        rw [hfst]
        exact (List.nodup_flatten.1 hc.nodup).1 layer hl
      have hpair : (layer.zip new).Pairwise fun p q => p.2 + spacing ≤ q.2 := by
        rw [← List.pairwise_map (R := fun y z => y + spacing ≤ z), hsnd]
        exact pairwise_placeRow hspacing ((h.apart layer hl).pairwise hmap) hnew
      have happart : Apart spacing ((layer.zip new).foldl (fun hs p => hs.insert p.1 p.2) hs)
          ((layer.zip new).map Prod.fst) := apart_foldl_insert hnodup hpair
      rw [hfst] at happart
      rw [heq]
      exact happart
    · refine (h.apart l hl').congr fun id hid => OrderedMap.get?_foldl_insert_of_not_mem ?_
      rw [hfst]
      exact hc.not_mem hl' hl heq hid

theorem foldlM_alignLayer_spec (hspacing : 0 ≤ spacing) (hc : Closed g lists) (side : Side)
    {layers : Arrangement} (hsub : ∀ l ∈ layers, l ∈ lists) (h : Spread spacing lists hs) :
    ∃ hs', layers.foldlM (alignLayer g spacing side) hs = .ok hs' ∧ Spread spacing lists hs' := by
  induction layers generalizing hs with
  | nil => exact ⟨hs, rfl, h⟩
  | cons layer layers ih =>
    obtain ⟨next, hnext, hspread⟩ :=
      alignLayer_spec hspacing hc h side (hsub layer List.mem_cons_self)
    rw [List.foldlM_cons, hnext]
    exact ih (fun l hl => hsub l (List.mem_cons_of_mem _ hl)) hspread

theorem alignPasses_spec (hspacing : 0 ≤ spacing) (hc : Closed g lists) (passes : Nat)
    (h : Spread spacing lists hs) :
    ∃ hs', alignPasses g spacing lists passes hs = .ok hs' ∧ Spread spacing lists hs' := by
  induction passes generalizing hs with
  | zero => exact ⟨hs, rfl, h⟩
  | succ passes ih =>
    have hdown : ∀ l ∈ lists.drop 1, l ∈ lists := fun l hl => List.mem_of_mem_drop hl
    have hup : ∀ l ∈ lists.dropLast.reverse, l ∈ lists := fun l hl =>
      List.dropLast_subset _ (List.mem_reverse.1 hl)
    obtain ⟨hs₁, h₁, hspread₁⟩ := foldlM_alignLayer_spec hspacing hc .incoming hdown h
    obtain ⟨hs₂, h₂, hspread₂⟩ := foldlM_alignLayer_spec hspacing hc .outgoing hup hspread₁
    have hpass : alignPass g spacing lists hs = .ok hs₂ := by
      simp only [alignPass, h₁, h₂, bind, Except.bind]
    rw [alignPasses, hpass]
    exact ih hspread₂

/-! ## the start and the end -/

theorem apart_evenLayer (hspacing : 0 ≤ spacing) (hs : Heights Rat) {layer : List NodeId}
    (hnodup : layer.Nodup) : Apart spacing (evenLayer spacing hs layer) layer := by
  have hfst : layer.zipIdx.map Prod.fst = layer := List.zipIdx_map_fst 0 layer
  have hpair : layer.zipIdx.Pairwise fun p q =>
      (ofNat p.2 : Rat) * spacing + spacing ≤ ofNat q.2 * spacing := by
    refine (pairwise_zipIdx layer).imp fun {p q} hpq => ?_
    have hle : ((p.2 : Rat) + 1) * spacing ≤ (q.2 : Rat) * spacing :=
      mul_le_mul_of_nonneg_right (by exact_mod_cast hpq) hspacing
    rw [ofNat_eq_cast, ofNat_eq_cast]
    linarith
  have hnodup' : (layer.zipIdx.map Prod.fst).Nodup := by rwa [hfst]
  have happart : Apart spacing (evenLayer spacing hs layer) (layer.zipIdx.map Prod.fst) :=
    apart_foldl_insert hnodup' hpair
  rwa [hfst] at happart

/-- layers evenly spaced one after the other; none changes the heights given before -/
theorem foldl_evenLayer (hspacing : 0 ≤ spacing) (layers : Arrangement) (hs : Heights Rat)
    (hnodup : (hs.keys ++ layers.flatten).Nodup) :
    (layers.foldl (evenLayer spacing) hs).keys = hs.keys ++ layers.flatten ∧
      (∀ id, id ∉ layers.flatten → (layers.foldl (evenLayer spacing) hs).get? id = hs.get? id) ∧
        ∀ l ∈ layers, Apart spacing (layers.foldl (evenLayer spacing) hs) l := by
  induction layers generalizing hs with
  | nil => exact ⟨(List.append_nil _).symm, fun _ _ => rfl, fun l hl => by cases hl⟩
  | cons layer layers ih =>
    rw [List.flatten_cons, ← List.append_assoc] at hnodup
    obtain ⟨hfirst, _, hdisjoint⟩ := List.nodup_append.1 hnodup
    have hkeysFirst := keys_evenLayer spacing hfirst
    obtain ⟨hkeys, hsame, hapart⟩ := ih (evenLayer spacing hs layer) (by rwa [hkeysFirst])
    refine ⟨?_, fun id hid => ?_, fun l hl => ?_⟩
    · rw [List.foldl_cons, hkeys, hkeysFirst, List.flatten_cons, List.append_assoc]
    · rw [List.flatten_cons, List.mem_append, not_or] at hid
      rw [List.foldl_cons, hsame id hid.2, get?_evenLayer_of_not_mem hid.1]
    · rcases List.mem_cons.1 hl with rfl | hl
      · refine (apart_evenLayer hspacing hs (List.nodup_append.1 hfirst).2.1).congr fun id hid => ?_
        exact hsame id fun hid' => hdisjoint id (List.mem_append_right _ hid) id hid' rfl
      · exact hapart l hl

theorem evenHeights_spec (hspacing : 0 ≤ spacing) (hnodup : lists.flatten.Nodup) :
    Spread spacing lists (evenHeights spacing lists) := by
  rw [evenHeights_eq]
  obtain ⟨hkeys, _, hapart⟩ := foldl_evenLayer hspacing lists ∅ hnodup
  exact ⟨hkeys, hapart⟩

theorem Spread.fromZero (h : Spread spacing lists hs) :
    Spread spacing lists (LayeredDrawing.fromZero hs) := by
  unfold LayeredDrawing.fromZero
  split
  · exact h
  · rename_i y _
    refine ⟨by rw [OrderedMap.keys_mapValues]; exact h.keys_eq, fun l hl => ?_⟩
    refine (h.apart l hl).imp fun {a b} hab u v hu hv => ?_
    rw [OrderedMap.get?_mapValues, Option.map_eq_some_iff] at hu hv
    obtain ⟨u, hu, rfl⟩ := hu
    obtain ⟨v, hv, rfl⟩ := hv
    have huv := hab u v hu hv
    show u - y + spacing ≤ v - y
    linarith

/-- the heights are those of some heights of the nodes listed, shifted -/
theorem heights_spread {c : Config Rat} (hc : Closed g lists) :
    ∃ hs, heights g c lists = .ok (fromZero hs) ∧ Spread c.nodeSpacing lists hs := by
  have hspacing : 0 ≤ c.nodeSpacing := (not_le.1 c.nodeSpacing_pos).le
  obtain ⟨hs, hok, hspread⟩ :=
    alignPasses_spec hspacing hc c.coordinatePasses (evenHeights_spec hspacing hc.nodup)
  refine ⟨hs, ?_, hspread⟩
  simp only [heights, hok, bind, Except.bind, pure, Except.pure]

/-- the heights of a graph whose nodes are all listed -/
theorem heights_spec {c : Config Rat} (hg : g.Coherent) (hp : Partition g lists) :
    ∃ hs, heights g c lists = .ok hs ∧ Spread c.nodeSpacing lists hs := by
  obtain ⟨hs, hok, hspread⟩ := heights_spread (c := c) (hp.closed hg)
  exact ⟨fromZero hs, hok, hspread.fromZero⟩

theorem requireOrdered_of_spread (hspacing : 0 < spacing) (h : Spread spacing lists hs) :
    requireOrdered hs lists = .ok () := by
  refine forM_of_forall fun p hpl => ?_
  have hl : p.1 ∈ lists := by
    rw [← List.zipIdx_map_fst 0 lists]
    exact List.mem_map_of_mem hpl
  exact requireAscending_of_apart hspacing (h.apart p.1 hl)
    (fun id hid => h.mem_keys (List.mem_flatten.2 ⟨p.1, hl, hid⟩)) p.2

end

end LayeredDrawing
