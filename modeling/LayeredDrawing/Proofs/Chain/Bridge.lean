import LayeredDrawing.Phase.Expansion
import LayeredDrawing.Proofs.Graph.Cycle
import LayeredDrawing.Proofs.OrderedMap.Entries
import Mathlib.Data.List.Chain
import Mathlib.Data.List.Nodup

/-!
# Chains as bridges

`C.Bridges layers` says that the chain `C` leads from the source of its hidden edge to the target,
by dummy nodes named after the edge, each in the layer above the one before.

* `Joins a nodes edges`   the edges lead from `a` through the nodes in turn;
* `Joins.snoc`            one more edge at the end;
* `Strand.Grows`          the same for a chain under construction;
* `Chain.Bridges.layer_node`   the layers of the dummy nodes.
-/

namespace LayeredDrawing

/-! ## paths of edges -/

def Joins : NodeId → List NodeId → List Edge → Prop
  | _, [], [] => True
  | a, b :: nodes, e :: edges => (e.source = a ∧ e.target = b) ∧ Joins b nodes edges
  | _, _, _ => False

theorem Joins.snoc {a b : NodeId} {nodes : List NodeId} {edges : List Edge} {e : Edge}
    (h : Joins a nodes edges) (hs : e.source = nodes.getLastD a) (ht : e.target = b) :
    Joins a (nodes ++ [b]) (edges ++ [e]) := by
  induction nodes generalizing a edges with
  | nil =>
    cases edges with
    | nil => exact ⟨⟨hs, ht⟩, trivial⟩
    | cons d edges => exact h.elim
  | cons c nodes ih =>
    cases edges with
    | nil => exact h.elim
    | cons d edges =>
      refine ⟨h.1, ih h.2 ?_⟩
      rw [hs, List.getLastD_cons]

/-- the nodes settle where the edges lead -/
theorem Joins.map_ends {a : NodeId} {nodes : List NodeId} {edges : List Edge}
    (h : Joins a nodes edges) : edges.map Edge.ends = (a :: nodes).zip nodes := by
  induction nodes generalizing a edges with
  | nil =>
    cases edges with
    | nil => rfl
    | cons d edges => exact h.elim
  | cons b nodes ih =>
    cases edges with
    | nil => exact h.elim
    | cons d edges =>
      obtain ⟨⟨hs, ht⟩, hrest⟩ := h
      rw [List.map_cons, ih hrest, List.zip_cons_cons, Edge.ends, hs, ht]

/-- each edge ends at the next node -/
theorem Joins.map_target {a : NodeId} {nodes : List NodeId} {edges : List Edge}
    (h : Joins a nodes edges) : edges.map Edge.target = nodes := by
  have hends := congrArg (List.map Prod.snd) h.map_ends
  rwa [List.map_map, List.map_snd_zip (Nat.le_succ nodes.length)] at hends

/-- and starts where the one before has ended -/
theorem Joins.map_source {a b : NodeId} {nodes : List NodeId} {edges : List Edge}
    (h : Joins a (nodes ++ [b]) edges) : edges.map Edge.source = a :: nodes := by
  have hlength : (a :: nodes).length = (nodes ++ [b]).length := by
    rw [List.length_append, List.length_singleton, List.length_cons]
  have hzip : (a :: (nodes ++ [b])).zip (nodes ++ [b]) = (a :: nodes).zip (nodes ++ [b]) := by
    have happend : ((a :: nodes) ++ [b]).zip ((nodes ++ [b]) ++ []) = _ := List.zip_append hlength
    rwa [List.append_nil, List.zip_nil_right, List.append_nil] at happend
  have hends := congrArg (List.map Prod.fst) h.map_ends
  rwa [hzip, List.map_map, List.map_fst_zip (Nat.le_of_eq hlength)] at hends

/-- what holds of neighbouring nodes along the path holds of the ends of its edges -/
theorem Joins.rel {R : NodeId → NodeId → Prop} {a : NodeId} {nodes : List NodeId}
    {edges : List Edge} (h : Joins a nodes edges) (hR : (a :: nodes).IsChain R) :
    ∀ e ∈ edges, R e.source e.target := by
  induction nodes generalizing a edges with
  | nil =>
    cases edges with
    | nil => exact fun e he => by cases he
    | cons d edges => exact h.elim
  | cons b nodes ih =>
    cases edges with
    | nil => exact h.elim
    | cons d edges =>
      obtain ⟨⟨hs, ht⟩, hrest⟩ := h
      obtain ⟨hab, hchain⟩ := List.isChain_cons_cons.1 hR
      intro e he
      rcases List.mem_cons.1 he with rfl | he
      · rw [hs, ht]
        exact hab
      · exact ih hrest hchain e he

theorem isChain_snoc_of_forall {P : NodeId → Prop} {l : List NodeId} (h : ∀ a ∈ l, P a)
    (b : NodeId) : (l ++ [b]).IsChain fun a _ => P a := by
  induction l with
  | nil => exact List.isChain_singleton b
  | cons a l ih =>
    have hrest := ih fun c hc => h c (List.mem_cons_of_mem _ hc)
    exact List.isChain_cons.2 ⟨fun _ _ => h a List.mem_cons_self, hrest⟩

/-- an edge of a path touches the nodes between the ends -/
theorem Joins.touches {a b : NodeId} {nodes : List NodeId} {edges : List Edge}
    (h : Joins a (nodes ++ [b]) edges) (hne : nodes ≠ []) :
    ∀ e ∈ edges, e.source ∈ nodes ∨ e.target ∈ nodes := by
  refine h.rel (R := fun x y => x ∈ nodes ∨ y ∈ nodes) ?_
  obtain ⟨c, rest, rfl⟩ := List.exists_cons_of_ne_nil hne
  refine List.isChain_cons_cons.2 ⟨.inr List.mem_cons_self, ?_⟩
  exact (isChain_snoc_of_forall (P := (· ∈ c :: rest)) (fun _ hx => hx) b).imp fun _ _ hx => .inl hx

theorem Joins.mem_ends {a : NodeId} {nodes : List NodeId} {edges : List Edge}
    (h : Joins a nodes edges) {e : Edge} (he : e ∈ edges) :
    e.source ∈ a :: nodes ∧ e.target ∈ a :: nodes := by
  have htrue : (a :: nodes).IsChain fun _ _ => True := by
    induction a :: nodes with
    | nil => exact List.isChain_nil
    | cons x l ih => exact List.isChain_cons.2 ⟨fun _ _ => trivial, ih⟩
  have hmem : (a :: nodes).IsChain fun x y => x ∈ a :: nodes ∧ y ∈ a :: nodes :=
    (List.IsChain.iff_mem.1 htrue).imp fun x y hxy => ⟨hxy.1, hxy.2.1⟩
  exact h.rel hmem e he

/-! ## climbing -/

/-- the second node is in the layer above the first -/
def NextLayer (layers : OrderedMap NodeId Int) (a b : NodeId) : Prop :=
  ∃ layer, layers.get? a = some layer ∧ layers.get? b = some (layer + 1)

instance (layers : OrderedMap NodeId Int) (a b : NodeId) : Decidable (NextLayer layers a b) :=
  decidable_of_iff ((layers.get? a).any fun layer => layers.get? b = some (layer + 1))
    (by simp [NextLayer, Option.any_eq_true])

theorem nextLayer_iff {layers : OrderedMap NodeId Int} {a b : NodeId} {i j : Int}
    (ha : layers.get? a = some i) (hb : layers.get? b = some j) :
    NextLayer layers a b ↔ j = i + 1 := by
  constructor
  · intro hx
    obtain ⟨layer, ha', hb'⟩ := hx
    rw [ha] at ha'
    rw [hb] at hb'
    rw [Option.some.inj ha']
    exact Option.some.inj hb'
  · intro hij
    exact ⟨i, ha, hij ▸ hb⟩

/-- a table that agrees with another one wherever that has an entry -/
def Extends (new old : OrderedMap NodeId Int) : Prop :=
  ∀ id layer, old.get? id = some layer → new.get? id = some layer

theorem Extends.refl (layers : OrderedMap NodeId Int) : Extends layers layers := fun _ _ h => h

theorem Extends.trans {a b c : OrderedMap NodeId Int} (hab : Extends a b) (hbc : Extends b c) :
    Extends a c := fun id layer h => hab id layer (hbc id layer h)

theorem extends_insert {layers : OrderedMap NodeId Int} {id : NodeId} (hid : id ∉ layers.keys)
    (layer : Int) : Extends (layers.insert id layer) layers := by
  intro j k hj
  have hne : j ≠ id := fun heq => hid (heq ▸ OrderedMap.mem_keys_of_get? hj)
  rwa [OrderedMap.get?_insert_of_ne hne]

theorem NextLayer.mono {new old : OrderedMap NodeId Int} (hext : Extends new old) {a b : NodeId}
    (h : NextLayer old a b) : NextLayer new a b := by
  obtain ⟨layer, ha, hb⟩ := h
  exact ⟨layer, hext a _ ha, hext b _ hb⟩

/-- along a climbing list the layers count up -/
theorem get?_of_climbs {layers : OrderedMap NodeId Int} {a : NodeId} {l : List NodeId} {layer : Int}
    (h : (a :: l).IsChain (NextLayer layers)) (ha : layers.get? a = some layer) {i : Nat} {id : NodeId}
    (hid : l[i]? = some id) : layers.get? id = some (layer + i + 1) := by
  induction l generalizing a layer i with
  | nil => cases hid
  | cons b l ih =>
    obtain ⟨⟨k, hk, hb⟩, hrest⟩ := List.isChain_cons_cons.1 h
    obtain rfl : k = layer := Option.some.inj (hk.symm.trans ha)
    cases i with
    | zero =>
      obtain rfl : b = id := Option.some.inj hid
      rw [hb, Int.natCast_zero, Int.add_zero]
    | succ i =>
      rw [ih hrest hb hid]
      congr 1
      omega

/-! ## chains -/

/-- the names of the first `count` dummy nodes of an edge -/
def dummies (key : Int) (count : Nat) : List NodeId :=
  (List.range count).map fun i => .dummy key ((i + 1 : Nat) : Int)

theorem mem_dummies {key : Int} {count : Nat} {id : NodeId} :
    id ∈ dummies key count ↔ ∃ i : Nat, 1 ≤ i ∧ i ≤ count ∧ id = .dummy key i := by
  simp only [dummies, List.mem_map, List.mem_range]
  constructor
  · intro hx
    obtain ⟨i, hi, rfl⟩ := hx
    exact ⟨i + 1, by omega, by omega, rfl⟩
  · intro hx
    obtain ⟨i, h1, h2, rfl⟩ := hx
    refine ⟨i - 1, by omega, ?_⟩
    rw [Nat.sub_add_cancel h1]

theorem length_dummies (key : Int) (count : Nat) : (dummies key count).length = count := by
  simp [dummies]

theorem getElem?_dummies {key : Int} {count i : Nat} (h : i < count) :
    (dummies key count)[i]? = some (.dummy key ((i + 1 : Nat) : Int)) := by
  rw [dummies, List.getElem?_map, List.getElem?_range h]
  rfl

theorem dummies_succ (key : Int) (count : Nat) :
    dummies key (count + 1) = dummies key count ++ [.dummy key ((count + 1 : Nat) : Int)] := by
  simp [dummies, List.range_succ]

/-- the dummy nodes that lead from the source of an edge to its target -/
def Edge.detour (layers : OrderedMap NodeId Int) (e : Edge) : List NodeId :=
  match layers.get? e.source, layers.get? e.target with
  | some a, some b => dummies e.key (b - a - 1).toNat
  | _, _ => []

structure Chain.Bridges (layers : OrderedMap NodeId Int) (C : Chain) : Prop where
  nodes_eq : C.nodes = dummies C.edge.key C.nodes.length
  nonempty : C.nodes ≠ []
  joins : Joins C.edge.source (C.nodes ++ [C.edge.target]) C.edges
  climbs : (C.edge.source :: (C.nodes ++ [C.edge.target])).IsChain (NextLayer layers)

section
variable {layers : OrderedMap NodeId Int} {C : Chain} (h : C.Bridges layers)
include h

theorem Chain.Bridges.mono {new : OrderedMap NodeId Int} (hext : Extends new layers) :
    C.Bridges new :=
  ⟨h.nodes_eq, h.nonempty, h.joins, h.climbs.imp fun _ _ => NextLayer.mono hext⟩

theorem Chain.Bridges.mem_nodes {id : NodeId} :
    id ∈ C.nodes ↔ ∃ i : Nat, 1 ≤ i ∧ i ≤ C.nodes.length ∧ id = .dummy C.edge.key i := by
  rw [← mem_dummies, ← h.nodes_eq]

theorem Chain.Bridges.layer_node {layer : Int} (hs : layers.get? C.edge.source = some layer)
    {i : Nat} {id : NodeId} (hid : C.nodes[i]? = some id) :
    layers.get? id = some (layer + i + 1) := by
  obtain ⟨hi, rfl⟩ := List.getElem?_eq_some_iff.1 hid
  refine get?_of_climbs h.climbs hs ?_
  rw [List.getElem?_append_left hi, List.getElem?_eq_getElem hi]

theorem Chain.Bridges.layer_target {layer : Int} (hs : layers.get? C.edge.source = some layer) :
    layers.get? C.edge.target = some (layer + C.nodes.length + 1) := by
  refine get?_of_climbs h.climbs hs ?_
  rw [List.getElem?_append_right (Nat.le_refl _), Nat.sub_self]
  rfl

theorem Chain.Bridges.exists_layer : ∃ layer, layers.get? C.edge.source = some layer := by
  have hclimbs := h.climbs
  obtain ⟨id, rest, hnodes⟩ := List.exists_cons_of_ne_nil h.nonempty
  rw [hnodes, List.cons_append] at hclimbs
  obtain ⟨layer, hlayer, _⟩ := (List.isChain_cons_cons.1 hclimbs).1
  exact ⟨layer, hlayer⟩

theorem Chain.Bridges.nodes_eq_detour : C.nodes = C.edge.detour layers := by
  obtain ⟨layer, hs⟩ := h.exists_layer
  have hcount : layer + C.nodes.length + 1 - layer - 1 = (C.nodes.length : Int) := by omega
  rw [Edge.detour, hs, h.layer_target hs]
  show C.nodes = dummies C.edge.key (layer + C.nodes.length + 1 - layer - 1).toNat
  rw [hcount, Int.toNat_natCast]
  exact h.nodes_eq

theorem Chain.Bridges.nextLayer {d : Edge} (hd : d ∈ C.edges) :
    NextLayer layers d.source d.target := h.joins.rel h.climbs d hd

end

/-! ## chains under construction -/

/-- the strand has come from the source of `e` in layer `start` to its last node -/
structure Strand.Grows (e : Edge) (start : Int) (st : Strand) : Prop where
  nodes_eq : st.nodes = dummies e.key st.nodes.length
  last_eq : st.last = st.nodes.getLastD e.source
  joins : Joins e.source st.nodes st.edges
  climbs : (e.source :: st.nodes).IsChain (NextLayer st.layers)
  layer : st.layers.get? st.last = some (start + st.nodes.length)

theorem Strand.grows_start {e : Edge} {start : Int} {layers : OrderedMap NodeId Int}
    {arrangement : Arrangement} (hs : layers.get? e.source = some start) :
    Strand.Grows e start ⟨layers, arrangement, e.source, [], []⟩ where
  nodes_eq := rfl
  last_eq := rfl
  joins := trivial
  climbs := List.isChain_singleton _
  layer := by
    show layers.get? e.source = some (start + ((0 : Nat) : Int))
    rw [hs, Int.natCast_zero, Int.add_zero]

section
variable {e : Edge} {start : Int} {st : Strand} (h : st.Grows e start)
include h

theorem Strand.Grows.mem_nodes {id : NodeId} :
    id ∈ st.nodes ↔ ∃ i : Nat, 1 ≤ i ∧ i ≤ st.nodes.length ∧ id = .dummy e.key i := by
  rw [← mem_dummies, ← h.nodes_eq]

/-- climbing on from the last node -/
theorem Strand.Grows.climbs_snoc {layers : OrderedMap NodeId Int} (hext : Extends layers st.layers)
    {id : NodeId} (hid : layers.get? id = some (start + st.nodes.length + 1)) :
    (e.source :: (st.nodes ++ [id])).IsChain (NextLayer layers) := by
  rw [← List.cons_append, List.isChain_append]
  refine ⟨h.climbs.imp fun _ _ => NextLayer.mono hext, List.isChain_singleton id, ?_⟩
  intro x hx y hy
  obtain rfl : id = y := Option.some.inj hy
  have hlast : st.last = x := by
    rw [List.getLast?_cons, ← List.getLastD_eq_getLast?, ← h.last_eq] at hx
    exact Option.some.inj hx
  rw [← hlast]
  exact ⟨_, hext _ _ h.layer, hid⟩

theorem Strand.Grows.extend {id : NodeId} {d : Edge} (arrangement : Arrangement)
    (hid : id = .dummy e.key ((st.nodes.length + 1 : Nat) : Int)) (hnew : id ∉ st.layers.keys)
    (hs : d.source = st.last) (ht : d.target = id) :
    Strand.Grows e start ⟨st.layers.insert id (start + st.nodes.length + 1), arrangement, id,
      st.nodes ++ [id], st.edges ++ [d]⟩ := by
  have hget : (st.layers.insert id (start + st.nodes.length + 1)).get? id
      = some (start + st.nodes.length + 1) := OrderedMap.get?_insert_self ..
  refine ⟨?_, ?_, h.joins.snoc (hs.trans h.last_eq) ht,
    h.climbs_snoc (extends_insert hnew _) hget, ?_⟩
  · show st.nodes ++ [id] = dummies e.key (st.nodes ++ [id]).length
    rw [List.length_append, List.length_singleton, dummies_succ, ← h.nodes_eq, hid]
  · show id = (st.nodes ++ [id]).getLastD e.source
    rw [List.getLastD_concat]
  · show (st.layers.insert id (start + st.nodes.length + 1)).get? id
      = some (start + (st.nodes ++ [id]).length)
    rw [hget, List.length_append, List.length_singleton]
    congr 1
    omega

theorem Strand.Grows.close {d : Edge} (hne : st.nodes ≠ []) (hs : d.source = st.last)
    (ht : d.target = e.target)
    (hlayer : st.layers.get? e.target = some (start + st.nodes.length + 1)) :
    Chain.Bridges st.layers ⟨e, st.nodes, st.edges ++ [d]⟩ :=
  ⟨h.nodes_eq, hne, h.joins.snoc (hs.trans h.last_eq) ht, h.climbs_snoc (Extends.refl _) hlayer⟩

end

end LayeredDrawing
