import LayeredDrawing.Proofs.Chain.Bridge
import LayeredDrawing.Proofs.Phase.Layering
import LayeredDrawing.Proofs.Workspace.Replaced

/-!
# Graph and tables during expansion

`Expanding` relates the graph to the table of layers and to the arrangement at any moment of the
expansion, and there is one lemma for each operation.  `Hindered` is what can go wrong: a node of
the graph has the name of a dummy node, or a layer is too large for a coordinate.

* `longEdges_of_ascending`   the edges to be hidden;
* `Expanding.addNode`        a dummy node comes into the graph, the table and the arrangement.
-/

namespace LayeredDrawing

variable {α : Type} [Scalar α]

/-- a node has the name of a dummy node that some edge needs, or the number of its layer is too
large, which is the fault then -/
def Hindered (c : Config α) (w : Workspace α) (table : OrderedMap NodeId Int) (fault : Fault) :
    Prop :=
  ∃ e ∈ w.graph.arcs, ∃ a b, table.get? e.source = some a ∧ table.get? e.target = some b ∧
    ∃ i : Nat, 1 ≤ i ∧ a + i < b ∧
      (.dummy e.key i ∈ w.graph.nodeIds ∨ layerPosition? c (a + i) = .error fault)

theorem layerPosition?_ok {c : Config α} {layer : Int} {x : α}
    (h : layerPosition? c layer = .ok x) : x = layerPosition c layer := by
  unfold layerPosition? Scalar.ofInt? at h
  by_cases hl : (Scalar.limit? α).any fun limit => limit ≤ layer.natAbs
  · rw [if_pos hl] at h
    cases h
  · rw [if_neg hl] at h
    cases h
    rfl

/-! ## long edges -/

theorem span?_of_get? {layers : OrderedMap NodeId Int} {e : Edge} {a b : Int}
    (ha : layers.get? e.source = some a) (hb : layers.get? e.target = some b) :
    span? layers e = .ok (b - a) := by
  simp only [span?, OrderedMap.entry_eq_ok_iff.2 ha, OrderedMap.entry_eq_ok_iff.2 hb, bind,
    Except.bind, pure, Except.pure]

/-- the edges that do not lead to the next layer are found, if all lead to a higher one -/
theorem longEdges_of_ascending {layers : OrderedMap NodeId Int} {edges : List Edge}
    (h : ∀ e ∈ edges, ∃ a b, layers.get? e.source = some a ∧ layers.get? e.target = some b ∧ a < b) :
    longEdges layers edges
      = .ok (edges.filter fun e => ¬ NextLayer layers e.source e.target) := by
  induction edges with
  | nil => rfl
  | cons e edges ih =>
    have hlong := ih fun x hx => h x (List.mem_cons_of_mem _ hx)
    obtain ⟨a, b, ha, hb, hab⟩ := h e List.mem_cons_self
    have hnot : ¬ b - a < 1 := by omega
    have hnext : ¬ NextLayer layers e.source e.target ↔ 1 < b - a := by
      rw [nextLayer_iff ha hb]
      omega
    simp only [longEdges, span?_of_get? ha hb, hlong, bind, Except.bind, pure, Except.pure,
      if_neg hnot, List.filter_cons, decide_eq_true_eq, hnext]

/-! ## one more dummy node -/

/-- the graph and the tables while edges of `w`, whose layers are in `table`, are replaced -/
structure Expanding (c : Config α) (w : Workspace α) (table : OrderedMap NodeId Int)
    (hidden : List Edge) (nodes : List NodeId) (edges known : List Edge)
    (layers : OrderedMap NodeId Int) (lists : Arrangement) (v : Workspace α) : Prop where
  replaced : Replaced w hidden nodes edges known v
  arcs : v.graph.arcs = (w.graph.arcs.filter fun e => e ∉ hidden) ++ edges
  dummies : ∀ id ∈ nodes, v.graph.outline.get? id = some ("", none, true)
  filed : Filed layers lists
  occupied : ∀ i : Nat, i < lists.length → ∃ id, table.get? id = some (i : Int)
  mem_keys_iff : ∀ id, id ∈ layers.keys ↔ id ∈ v.graph.nodeIds
  room : ∀ id ∈ nodes, ∀ layer, layers.get? id = some layer → ∃ x, layerPosition? c layer = .ok x
  table : layers.filter (fun id => decide (id ∉ nodes)) = table
  placed : Placed c layers v.graph
  bends : ∀ e ∈ w.graph.arcs, v.bends.get e.slot = w.bends.get e.slot

section
variable {c : Config α} {w v : Workspace α} {table layers : OrderedMap NodeId Int}
  {hidden edges known : List Edge} {nodes : List NodeId} {lists : Arrangement}
  (h : Expanding c w table hidden nodes edges known layers lists v)
include h

theorem Expanding.extends : Extends layers table := by
  intro id layer hid
  rw [← h.table, OrderedMap.get?_filter] at hid
  split at hid
  · exact hid
  · cases hid

/-- dummy nodes aside, the table is the one that expansion began with -/
theorem Expanding.get?_eq {id : NodeId} (hid : id ∈ w.graph.nodeIds) :
    layers.get? id = table.get? id := by
  have hnot : id ∉ nodes := fun hdummy => h.replaced.not_mem_base hdummy hid
  rw [← h.table, OrderedMap.get?_filter, if_pos (decide_eq_true hnot)]

theorem Expanding.addNode {id prev : NodeId} {layer : Int} {x y : α} {g : Graph α}
    (hok : v.graph.addNode id (.dummy layer x y) = .ok g) (hx : layerPosition? c layer = .ok x)
    (hprev : layers.get? prev = some (layer - 1)) (hlt : layer < lists.length) :
    ∃ lists', insertBeside lists layer prev id = .ok lists' ∧ lists'.length = lists.length ∧
      Expanding c w table hidden (nodes ++ [id]) edges known (layers.insert id layer) lists'
        { v with graph := g } := by
  have hreplaced := h.replaced.addNode (Graph.addNode_ok hok).1 hok
  obtain ⟨hid, rfl⟩ := Graph.addNode_ok hok
  have hkeys : id ∉ layers.keys := fun hm => hid ((h.mem_keys_iff id).1 hm)
  have hne {j : NodeId} (hj : j ∈ nodes) : j ≠ id := fun heq => hid (heq ▸ h.replaced.nodes_mem j hj)
  obtain ⟨lists', hins, hlen, hfiled⟩ := h.filed.insertBeside hprev hkeys hlt
  refine ⟨lists', hins, hlen, hreplaced, h.arcs, fun j hj => ?_, hfiled,
    fun i hi => h.occupied i (hlen ▸ hi), fun j => ?_, fun j hj k hk => ?_, ?_, ?_, h.bends⟩
  · show ((v.graph.nodes.insert id (.dummy layer x y)).mapValues fun _ n => n.outline).get? j = _
    rw [OrderedMap.get?_mapValues]
    rcases List.mem_append.1 hj with hj | hj
    · rw [OrderedMap.get?_insert_of_ne (hne hj), ← h.dummies j hj, Graph.outline,
        OrderedMap.get?_mapValues]
    · rw [List.mem_singleton.1 hj, OrderedMap.get?_insert_self]
      rfl
  · rw [OrderedMap.mem_keys_insert, h.mem_keys_iff]
    exact OrderedMap.mem_keys_insert.symm
  · rcases List.mem_append.1 hj with hj | hj
    · rw [OrderedMap.get?_insert_of_ne (hne hj)] at hk
      exact h.room j hj k hk
    · rw [List.mem_singleton.1 hj, OrderedMap.get?_insert_self] at hk
      exact ⟨x, Option.some.inj hk ▸ hx⟩
  · rw [OrderedMap.filter_insert_of_not_mem hkeys (by simp), ← h.table]
    refine OrderedMap.filter_congr fun j hj => ?_
    have hne : j ≠ id := fun heq => hkeys (heq ▸ hj)
    simp [hne]
  · intro j n hn
    have hget : (v.graph.nodes.insert id (.dummy layer x y)).get? j = some n := hn
    rw [OrderedMap.get?_insert] at hget
    unfold InPlace
    rw [OrderedMap.get?_insert]
    split at hget
    · rename_i hj
      obtain rfl := Option.some.inj hget
      rw [if_pos hj]
      exact ⟨rfl, layerPosition?_ok hx⟩
    · rename_i hj
      rw [if_neg hj]
      exact h.placed j n hget

/-- a new edge goes to the end of the list, if it is the first between its ends -/
theorem Expanding.addEdge {source target : NodeId} {isDummy : Bool} {d : Edge} {g : Graph α}
    (hok : v.graph.addEdge v.bends.fresh source target isDummy = .ok (d, g))
    (hnew : ∀ a ∈ v.graph.arcs, a.source = source → a.target ≠ target) :
    Expanding c w table hidden nodes (edges ++ [d]) (known ++ [d]) layers lists
      ⟨g, v.bends.push []⟩ := by
  have hreplaced := h.replaced.addEdge hok
  obtain ⟨_, _, hd, rfl⟩ := Graph.addEdge_ok hok
  have harcs : Graph.placeArc d v.graph.arcs = v.graph.arcs ++ [d] := by
    rw [Graph.placeArc_eq_insertArc, Graph.insertArc_eq_append]
    · intro a ha had
      rw [hd, Edge.parallel_iff] at had
      exact absurd had.2 (hnew a ha had.1)
    · intro a ha hkey
      have hlt := h.replaced.sound.coherent.key_lt a ha
      rw [hkey, hd] at hlt
      exact Int.lt_irrefl _ hlt
  refine ⟨hreplaced, ?_, h.dummies, h.filed, h.occupied, h.mem_keys_iff, h.room, h.table, h.placed,
    fun e he => ?_⟩
  · rw [← List.append_assoc, ← h.arcs]
    exact harcs
  · show (v.bends.push []).get e.slot = w.bends.get e.slot
    rw [Bends.get_push_of_lt (h.replaced.sound.slot_lt e (h.replaced.known_of_mem e he))]
    exact h.bends e he

theorem Expanding.detach {e : Edge} (he : e ∈ v.graph.arcs) (hw : e ∈ w.graph.arcs) :
    ∃ g, v.graph.detach e = .ok g ∧ Expanding c w table (hidden ++ [e]) nodes edges known layers
      lists { v with graph := g } := by
  obtain ⟨g, hok, hnodes, harcs, hreplaced⟩ := h.replaced.detach he hw
  have hout : g.outline = v.graph.outline := by rw [Graph.outline, hnodes, Graph.outline]
  refine ⟨g, hok, hreplaced, ?_, fun j hj => ?_, h.filed, h.occupied, fun j => ?_, h.room, h.table,
    fun j n hn => ?_, h.bends⟩
  · have hedges : e ∉ edges := fun hin =>
      (List.nodup_append.1 h.replaced.nodup_arcs).2.2 e hw e hin rfl
    show g.arcs = _
    rw [harcs, h.arcs, List.filter_append, List.filter_filter]
    congr 1
    · exact List.filter_congr fun a _ => by simp [and_comm]
    · exact List.filter_eq_self.2 fun a ha => decide_eq_true fun heq => hedges (heq ▸ ha)
  · show g.outline.get? j = _
    rw [hout]
    exact h.dummies j hj
  · rw [h.mem_keys_iff]
    show j ∈ v.graph.nodes.keys ↔ j ∈ g.nodes.keys
    rw [hnodes]
  · have hn' : g.nodes.get? j = some n := hn
    rw [hnodes] at hn'
    exact h.placed j n hn'

theorem Expanding.redrawn {u : Workspace α} (hr : Redrawn v u) (hp : Placed c layers u.graph) :
    Expanding c w table hidden nodes edges known layers lists u where
  replaced := h.replaced.redrawn hr
  arcs := hr.arcs.trans h.arcs
  dummies := by
    rw [hr.outline]
    exact h.dummies
  filed := h.filed
  occupied := h.occupied
  mem_keys_iff id := by
    rw [hr.nodeIds]
    exact h.mem_keys_iff id
  room := h.room
  table := h.table
  placed := hp
  bends := by
    rw [hr.bends]
    exact h.bends

theorem Expanding.reordered {lists' : Arrangement} (hl : Reordered lists' lists) :
    Expanding c w table hidden nodes edges known layers lists' v :=
  ⟨h.replaced, h.arcs, h.dummies, h.filed.reordered hl,
    fun i hi => h.occupied i (List.Forall₂.length_eq hl ▸ hi), h.mem_keys_iff, h.room, h.table,
    h.placed, h.bends⟩

end

end LayeredDrawing
