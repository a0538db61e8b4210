import LayeredDrawing.Proofs.Drawing.BendCount
import LayeredDrawing.Proofs.Route.Thinned

/-!
# Routes keep clear

Over the rationals, a long edge leads to the right and passes each layer between its ends at one
point, in the place of its dummy node there.  Nodes and dummy nodes of a layer are apart, so the point
is apart from the nodes of the layer and from where other edges pass it.  Cleaning with tolerance zero
moves no route.

* `IsRoute`   the polyline that an edge is drawn as;
* `Passes`    where an edge passes a layer;
* `Prepared.exists_route`   a route by way of the dummy nodes, cleaned or not;
* `draw_clear`   nothing comes closer to it than the distance between nodes.
-/

namespace LayeredDrawing

def IsRoute (v : Workspace Rat) (e : Edge) (line : List (Point Rat)) : Prop :=
  ∃ p q, v.graph.position? e.source = some p ∧ v.graph.position? e.target = some q ∧
    line = Route.line p (v.bends.get e.slot) q

theorem IsRoute.unique {v : Workspace Rat} {e : Edge} {line line' : List (Point Rat)}
    (h : IsRoute v e line) (h' : IsRoute v e line') : line = line' := by
  obtain ⟨p, q, hp, hq, rfl⟩ := h
  obtain ⟨p', q', hp', hq', rfl⟩ := h'
  obtain rfl := Option.some.inj (hp.symm.trans hp')
  obtain rfl := Option.some.inj (hq.symm.trans hq')
  rfl

/-- the layer is between the ends of the edge, which meets it at the height `y` -/
def Passes (c : Config Rat) (s : Snapshot) (v : Workspace Rat) (e : Edge) (layer : Int) (y : Rat) :
    Prop :=
  ∃ a b, s.layers.get? e.source = some a ∧ s.layers.get? e.target = some b ∧ a < layer ∧ layer < b ∧
    ∃ line, IsRoute v e line ∧ Traces line ⟨layerPosition c layer, y⟩

/-! ## from layer to layer -/

section
variable {c : Config Rat} {a b : Int} {bends : List (Point Rat)}

theorem layerPosition_lt (c : Config Rat) (h : a < b) : layerPosition c a < layerPosition c b := by
  show (a : Rat) * c.layerSpacing < (b : Rat) * c.layerSpacing
  exact mul_lt_mul_of_pos_right (Int.cast_lt.2 h) (not_le.1 c.layerSpacing_pos)

/-- a line with a bend in each layer leads to the right -/
theorem OneBendPerLayer.rightward (h : OneBendPerLayer c a b bends) {p q : Point Rat}
    (hp : p.x = layerPosition c a) (hq : q.x = layerPosition c b) :
    Rightward (Route.line p bends q) := by
  have hlen := h.length
  have hbend {r : Point Rat} (hr : r ∈ bends) : p.x < r.x ∧ r.x < q.x := by
    obtain ⟨i, hi⟩ := List.mem_iff_getElem?.1 hr
    have hlt := (List.getElem?_eq_some_iff.1 hi).1
    rw [hp, hq, h.x i r hi]
    exact ⟨layerPosition_lt c (by omega), layerPosition_lt c (by omega)⟩
  refine List.pairwise_cons.2 ⟨fun r hr => ?_, List.pairwise_append.2 ⟨?_, ?_, fun r hr r' hr' => ?_⟩⟩
  · rcases List.mem_append.1 hr with hr | hr
    · exact (hbend hr).1
    · rw [List.mem_singleton.1 hr, hp, hq]
      exact layerPosition_lt c (by omega)
  · refine List.pairwise_iff_getElem.2 fun i j hi hj hij => ?_
    rw [h.x i _ (List.getElem?_eq_getElem hi), h.x j _ (List.getElem?_eq_getElem hj)]
    exact layerPosition_lt c (by omega)
  · exact List.pairwise_singleton _ q
  · rw [List.mem_singleton.1 hr']
    exact (hbend hr).2

end

/-! ## routes by way of dummy nodes -/

section
variable {c : Config Rat} {w u v v₁ : Workspace Rat} {table : OrderedMap NodeId Int} {t : Snapshot}
  {e : Edge} {a b : Int}

theorem Restored.position? (hr : Restored w u t v₁) {id : NodeId} (hid : id ∉ t.dummyNodes) :
    v₁.graph.position? id = u.graph.position? id := by
  rw [Graph.position?, Graph.position?, hr.node id hid]

/-- the line leads from layer `a` to layer `b`, to the right and through the dummy nodes of the edge -/
structure Threads (c : Config Rat) (u : Workspace Rat) (e : Edge) (a b : Int)
    (line : List (Point Rat)) : Prop where
  rightward : Rightward line
  dummy : ∀ i : Nat, a + i + 1 < b →
    ∃ n, u.graph.nodes.get? (.dummy e.key ((i + 1 : Nat) : Int)) = some n ∧
      ∀ z, Traces line ⟨layerPosition c (a + i + 1), z⟩ ↔ z = n.y

/-- before it is cleaned, the route of a long edge leads through its dummy nodes -/
theorem Prepared.exists_route_uncleaned (h : Prepared c w table t u) (hr : Restored w u t v₁)
    (he : e ∈ w.graph.arcs) (ha : table.get? e.source = some a) (hb : table.get? e.target = some b)
    (hlong : 1 < b - a) : ∃ line, IsRoute v₁ e line ∧ Threads c u e a b line := by
  obtain ⟨hsource, _, m, hm, hmx⟩ := h.exists_node ha
  obtain ⟨htarget, _, n, hn, hnx⟩ := h.exists_node hb
  have hp : v₁.graph.position? e.source = some m.position := by
    rw [hr.position? hsource, Graph.position?, hm]
    rfl
  have hq : v₁.graph.position? e.target = some n.position := by
    rw [hr.position? htarget, Graph.position?, hn]
    rfl
  have hright := (h.oneBendPerLayer_of_long hr he ha hb hlong).rightward (p := m.position)
    (q := n.position) hmx hnx
  refine ⟨_, ⟨_, _, hp, hq, rfl⟩, hright, fun i hi => ?_⟩
  obtain ⟨_, _, d, hd, hdx⟩ := h.exists_dummy he ha hb hi
  -- the bend that was the dummy node
  have hbend : some d.position ∈ (v₁.bends.get e.slot).map some := by
    rw [h.bends_of_long hr he ha hb hlong]
    refine List.mem_map.2 ⟨_, List.mem_of_getElem? (getElem?_dummies (i := i) (by omega)), ?_⟩
    rw [Graph.position?, hd]
    rfl
  obtain ⟨r, hrmem, hrd⟩ := List.mem_map.1 hbend
  obtain rfl := Option.some.inj hrd
  have hmem : d.position ∈ Route.line m.position (v₁.bends.get e.slot) n.position :=
    List.mem_cons_of_mem _ (List.mem_append_left _ hrmem)
  refine ⟨d, hd, fun z => ?_⟩
  have habove := traces_above_iff hright hmem (z := z)
  rw [← hdx]
  exact habove

/-- cleaning without tolerance keeps the shape of a long route -/
theorem Prepared.exists_route (h : Prepared c w table t u) (hr : Reconstructed c w u t v)
    (hclean : c.cleanBends = false ∨ c.tolerance = 0) (he : e ∈ w.graph.arcs)
    (ha : table.get? e.source = some a) (hb : table.get? e.target = some b) (hlong : 1 < b - a) :
    ∃ line, IsRoute v e line ∧ Threads c u e a b line := by
  obtain ⟨v₁, hrestored, hgraph, hsame, hcleaned⟩ := hr.restored
  obtain ⟨line, hroute, hthreads⟩ := h.exists_route_uncleaned hrestored he ha hb hlong
  rcases hc : c.cleanBends with _ | _
  · rw [hsame hc]
    exact ⟨line, hroute, hthreads⟩
  · have htol : c.tolerance = 0 := hclean.resolve_left (by rw [hc]; decide)
    obtain ⟨p, q, hp, hq, hok⟩ := hcleaned hc e (hrestored.perm_arcs.mem_iff.2 he)
    obtain rfl := hroute.unique ⟨p, q, hp, hq, rfl⟩
    obtain ⟨kept, hkept, hright, htraces⟩ := clean_zero hthreads.rightward
    rw [htol, hkept] at hok
    obtain rfl := Except.ok.inj hok
    refine ⟨_, ⟨p, q, by rw [hgraph, hp], by rw [hgraph, hq], rfl⟩, hright, fun i hi => ?_⟩
    obtain ⟨n, hn, hline⟩ := hthreads.dummy i hi
    exact ⟨n, hn, fun z => (htraces _).trans (hline z)⟩

/-- two nodes or dummy nodes of one layer have their distance -/
theorem Prepared.apart (h : Prepared c w table t u) {j k : NodeId} {layer : Int}
    (hj : t.layers.get? j = some layer) (hk : t.layers.get? k = some layer) (hne : j ≠ k)
    {m n : Node Rat} (hm : u.graph.nodes.get? j = some m) (hn : u.graph.nodes.get? k = some n) :
    c.nodeSpacing ≤ |m.y - n.y| := by
  obtain ⟨known, hexp⟩ := h.expanding
  obtain ⟨g, hs, hg, hp, hok, hy⟩ := h.heights
  obtain ⟨hs', hok', hspread⟩ := heights_spec (c := c) hg hp
  obtain rfl := Except.ok.inj (hok.symm.trans hok')
  obtain ⟨i, hi, _, l, hl, hjl⟩ := hexp.filed.exists_list hj
  obtain ⟨i', hi', _, l', hl', hkl⟩ := hexp.filed.exists_list hk
  obtain rfl : i = i' := by omega
  obtain rfl := Option.some.inj (hl.symm.trans hl')
  exact (hspread.apart l (List.mem_of_getElem? hl)).le_abs hjl hkl hne (hy j m hm) (hy k n hn)

/-- where an edge passes a layer, and only there, it had a dummy node -/
theorem Prepared.passes_iff (h : Prepared c w table t u) (hr : Reconstructed c w u t v)
    (hclean : c.cleanBends = false ∨ c.tolerance = 0) (he : e ∈ w.graph.arcs)
    (ha : table.get? e.source = some a) (hb : table.get? e.target = some b) {layer : Int}
    (hal : a < layer) (hlb : layer < b) :
    ∃ i : Int, .dummy e.key i ∈ t.dummyNodes ∧ t.layers.get? (.dummy e.key i) = some layer ∧
      ∃ n, u.graph.nodes.get? (.dummy e.key i) = some n ∧
        ∀ y, Passes c t.withoutChains v e layer y ↔ y = n.y := by
  obtain ⟨i, rfl⟩ : ∃ i : Nat, layer = a + i + 1 := ⟨(layer - a - 1).toNat, by omega⟩
  obtain ⟨line, hroute, hthreads⟩ := h.exists_route hr hclean he ha hb (by omega)
  obtain ⟨n, hn, hline⟩ := hthreads.dummy i hlb
  obtain ⟨hmem, hlayer, _⟩ := h.exists_dummy he ha hb hlb
  have hlayers : t.withoutChains.layers = table := h.layers_withoutChains
  refine ⟨_, hmem, hlayer, n, hn, fun y => ?_⟩
  constructor
  · intro hy
    obtain ⟨_, _, _, _, _, _, line', hroute', htraces⟩ := hy
    obtain rfl := hroute.unique hroute'
    exact (hline y).1 htraces
  · intro hy
    refine ⟨a, b, ?_, ?_, hal, hlb, line, hroute, (hline y).2 hy⟩
    · rw [hlayers, ha]
    · rw [hlayers, hb]

end

/-- long edges lead to the right, and keep clear of nodes and of one another -/
theorem draw_clear {c : Config Rat} {w v : Workspace Rat} {past : List Edge} {s : Snapshot}
    (hw : Reached w past) (hclean : c.cleanBends = false ∨ c.tolerance = 0)
    (h : (draw c).perform w = (.ok s, v)) :
    ∀ e ∈ v.graph.edges, ∀ a b, s.layers.get? e.source = some a → s.layers.get? e.target = some b →
      1 < b - a →
      (∃ line, IsRoute v e line ∧ Rightward line) ∧
      ∀ layer, a < layer → layer < b → ∃ y, (∀ z, Passes c s v e layer z ↔ z = y) ∧
        (∀ id n, v.graph.nodes.get? id = some n → s.layers.get? id = some layer →
          c.nodeSpacing ≤ |n.y - y|) ∧
        ∀ d ∈ v.graph.edges, d ≠ e → ∀ z, Passes c s v d layer z → c.nodeSpacing ≤ |z - y| := by
  obtain ⟨table, t, u, _, hprepared, rfl, hreconstructed⟩ := draw_spec hw.sound h
  obtain ⟨v₁, hrestored, hgraph, _, _⟩ := hreconstructed.restored
  have hlayers : t.withoutChains.layers = table := hprepared.layers_withoutChains
  have hcoherent : v.graph.Coherent := by
    rw [hgraph]
    exact hrestored.coherent
  have harcs {e : Edge} (he : e ∈ v.graph.edges) : e ∈ w.graph.arcs := by
    rw [hcoherent.mem_edges, hgraph] at he
    exact hrestored.perm_arcs.mem_iff.1 he
  intro e he a b ha hb hlong
  rw [hlayers] at ha hb
  obtain ⟨line, hroute, hthreads⟩ :=
    hprepared.exists_route hreconstructed hclean (harcs he) ha hb hlong
  refine ⟨⟨line, hroute, hthreads.rightward⟩, fun layer hal hlb => ?_⟩
  obtain ⟨i, hmem, hlayer, n, hn, hpasses⟩ :=
    hprepared.passes_iff hreconstructed hclean (harcs he) ha hb hal hlb
  refine ⟨n.y, hpasses, fun id m hm hid => ?_, fun d hd hne z hz => ?_⟩
  -- a node of the graph is no dummy node
  · rw [hlayers] at hid
    obtain ⟨hnot, hid', _⟩ := hprepared.exists_node hid
    rw [hgraph, hrestored.node id hnot] at hm
    exact hprepared.apart hid' hlayer (fun heq => hnot (heq ▸ hmem)) hm hn
  -- dummy nodes of different edges are different
  · obtain ⟨a', b', ha', hb', hal', hlb', _⟩ := id hz
    rw [hlayers] at ha' hb'
    obtain ⟨k, _, hklayer, m, hm, hpasses'⟩ :=
      hprepared.passes_iff hreconstructed hclean (harcs hd) ha' hb' hal' hlb'
    have hkey : d.key ≠ e.key := fun heq =>
      hne (hw.sound.coherent.eq_of_key (harcs hd) (harcs he) heq)
    rw [(hpasses' z).1 hz]
    exact hprepared.apart hklayer hlayer (fun heq => hkey (NodeId.dummy.inj heq).1) hm hn

theorem draw_clear_triangle : (∃ past, Reached triangle past) ∧
    (wideConfig.cleanBends = false ∨ wideConfig.tolerance = 0) ∧
    ∃ s v, (draw wideConfig).perform triangle = (.ok s, v) ∧
      ∀ e ∈ v.graph.edges, ∀ a b, s.layers.get? e.source = some a →
        s.layers.get? e.target = some b → 1 < b - a →
        (∃ line, IsRoute v e line ∧ Rightward line) ∧
        ∀ layer, a < layer → layer < b → ∃ y, (∀ z, Passes wideConfig s v e layer z ↔ z = y) ∧
          (∀ id n, v.graph.nodes.get? id = some n → s.layers.get? id = some layer →
            wideConfig.nodeSpacing ≤ |n.y - y|) ∧
          ∀ d ∈ v.graph.edges, d ≠ e → ∀ z, Passes wideConfig s v d layer z →
            wideConfig.nodeSpacing ≤ |z - y| := by
  obtain ⟨past, hreached⟩ := reached_triangle
  obtain ⟨s, v, hdraw⟩ := exists_draw_triangle
  exact ⟨⟨past, hreached⟩, .inl rfl, s, v, hdraw, draw_clear hreached (.inl rfl) hdraw⟩

end LayeredDrawing
