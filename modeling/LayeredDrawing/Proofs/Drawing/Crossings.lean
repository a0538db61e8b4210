import LayeredDrawing.Proofs.Drawing.Course
import LayeredDrawing.Proofs.Drawing.Success
import LayeredDrawing.Proofs.Renaming.Ordering
import LayeredDrawing.Proofs.Ordering.CrossingPairs

/-!
# Crossings counted and drawn

Ordering counts crossings by the positions of nodes in their layers, before anything has a height.
Over the rationals, the heights grow along every layer, and after expansion every edge leads to the
next layer; so the pairs of edges whose lines cross in the drawing are the pairs that were counted.

* `Graph.drawnCrossings`    the pairs of edges whose lines cross;
* `crossingsBetween_eq`     the crossings between two layers;
* `Stands.crossings_eq`     all crossings;
* `prepare_crossings`       those of a drawing, and no more than at its start.
-/

namespace LayeredDrawing

/-- the edges lead from the same layer to the next one, and change sides on the way -/
def Graph.crosses (g : Graph Rat) (d e : Edge) : Bool :=
  match g.nodes.get? d.source, g.nodes.get? d.target, g.nodes.get? e.source,
      g.nodes.get? e.target with
  | some p, some q, some r, some s =>
    decide (p.layer = r.layer ∧ q.layer = s.layer ∧ q.layer = p.layer + 1 ∧
      (p.y - r.y) * (q.y - s.y) < 0)
  | _, _, _, _ => false

/-- the number of pairs of edges whose lines cross -/
def Graph.drawnCrossings (g : Graph Rat) : Nat := pairCount g.crosses g.edges

section
variable {g : Graph Rat} {d e : Edge} {p q r s : Node Rat}

theorem Graph.crosses_eq (hp : g.nodes.get? d.source = some p) (hq : g.nodes.get? d.target = some q)
    (hr : g.nodes.get? e.source = some r) (hs : g.nodes.get? e.target = some s) :
    g.crosses d e = decide (p.layer = r.layer ∧ q.layer = s.layer ∧ q.layer = p.layer + 1 ∧
      (p.y - r.y) * (q.y - s.y) < 0) := by
  simp only [crosses, hp, hq, hr, hs]

theorem Graph.crosses_iff : g.crosses d e = true ↔ ∃ p q r s, g.nodes.get? d.source = some p ∧
    g.nodes.get? d.target = some q ∧ g.nodes.get? e.source = some r ∧
    g.nodes.get? e.target = some s ∧ p.layer = r.layer ∧ q.layer = s.layer ∧ q.layer = p.layer + 1 ∧
      (p.y - r.y) * (q.y - s.y) < 0 := by
  constructor
  · intro h
    unfold crosses at h
    split at h
    · rename_i p q r s hp hq hr hs
      exact ⟨p, q, r, s, hp, hq, hr, hs, of_decide_eq_true h⟩
    · cases h
  · intro hx
    obtain ⟨p, q, r, s, hp, hq, hr, hs, h⟩ := hx
    rw [crosses_eq hp hq hr hs]
    exact decide_eq_true h

theorem Graph.crosses_comm (g : Graph Rat) (d e : Edge) : g.crosses d e = g.crosses e d := by
  have hflip {d e : Edge} (h : g.crosses d e = true) : g.crosses e d = true := by
    obtain ⟨p, q, r, s, hp, hq, hr, hs, hpr, hqs, hnext, hlt⟩ := crosses_iff.1 h
    refine crosses_iff.2 ⟨r, s, p, q, hr, hs, hp, hq, hpr.symm, hqs.symm, by omega, ?_⟩
    have hneg : (r.y - p.y) * (s.y - q.y) = (p.y - r.y) * (q.y - s.y) := by ring
    rw [hneg]
    exact hlt
  rw [Bool.eq_iff_iff]
  exact ⟨hflip, hflip⟩

/-- edges from different layers do not cross, nor do edges from the same node -/
theorem Graph.crosses_eq_false (hp : g.nodes.get? d.source = some p)
    (hr : g.nodes.get? e.source = some r) (h : p.layer ≠ r.layer ∨ p.y = r.y) :
    g.crosses d e = false := by
  rw [← Bool.not_eq_true]
  intro htrue
  obtain ⟨p', q, r', s, hp', _, hr', _, hlayer, _, _, hlt⟩ := crosses_iff.1 htrue
  obtain rfl := Option.some.inj (hp.symm.trans hp')
  obtain rfl := Option.some.inj (hr.symm.trans hr')
  rcases h with hne | hy
  · exact hne hlayer
  · rw [hy, sub_self, zero_mul] at hlt
    exact lt_irrefl _ hlt

end

/-! ## layers -/

/-- the heights grow along the layer -/
def Rising (g : Graph Rat) (layer : List NodeId) : Prop :=
  layer.Pairwise fun a b => ∀ m n, g.nodes.get? a = some m → g.nodes.get? b = some n → m.y < n.y

/-- all nodes of the list are in one layer -/
def InLayer (g : Graph Rat) (k : Int) (layer : List NodeId) : Prop :=
  ∀ id ∈ layer, ∃ n, g.nodes.get? id = some n ∧ n.layer = k

section
variable {g : Graph Rat} {layer : List NodeId}

theorem Rising.lt_iff (h : Rising g layer) {i j : Nat} {a b : NodeId} {m n : Node Rat}
    (ha : layer[i]? = some a) (hb : layer[j]? = some b) (hm : g.nodes.get? a = some m)
    (hn : g.nodes.get? b = some n) : m.y < n.y ↔ i < j := by
  obtain ⟨hi, rfl⟩ := List.getElem?_eq_some_iff.1 ha
  obtain ⟨hj, rfl⟩ := List.getElem?_eq_some_iff.1 hb
  have hpair := List.pairwise_iff_getElem.1 h
  rcases Nat.lt_trichotomy i j with hij | rfl | hij
  · exact iff_of_true (hpair i j hi hj hij m n hm hn) hij
  · obtain rfl := Option.some.inj (hm.symm.trans hn)
    exact iff_of_false (lt_irrefl _) (Nat.lt_irrefl _)
  · exact iff_of_false (lt_asymm (hpair j i hj hi hij n m hn hm)) (by omega)

/-- between two layers that rise, the crossings counted are the crossings drawn -/
theorem crossingsBetween_eq {k : Int} {upper lower : List NodeId} (hu : InLayer g k upper)
    (hl : InLayer g (k + 1) lower) (hru : Rising g upper) (hrl : Rising g lower)
    (hstep : ∀ id ∈ upper, ∀ e ∈ g.outEdges id, e.target ∈ lower) :
    crossingsBetween g upper lower = pairCount g.crosses (upper.flatMap g.outEdges) := by
  have hall (id : NodeId) (hid : id ∈ upper) : g.outEdgesInto lower id = g.outEdges id :=
    List.filter_eq_self.2 fun e he => decide_eq_true (hstep id hid e he)
  rw [← List.flatMap_congr hall]
  refine crossingsBetween_of_order (fun a ha d hd e he => ?_) ?_
  · obtain ⟨p, hp, _⟩ := hu a ha
    have hds := Graph.source_of_mem_outEdges (Graph.mem_outEdgesInto.1 hd).1
    have hes := Graph.source_of_mem_outEdges (Graph.mem_outEdgesInto.1 he).1
    exact Graph.crosses_eq_false (hds ▸ hp) (hes ▸ hp) (.inr rfl)
  · refine hru.imp_of_mem fun {a b} ha hb hab d hd e he => ?_
    obtain ⟨hd, hdl⟩ := Graph.mem_outEdgesInto.1 hd
    obtain ⟨he, hel⟩ := Graph.mem_outEdgesInto.1 he
    obtain ⟨p, hp, hpk⟩ := hu a ha
    obtain ⟨r, hr, hrk⟩ := hu b hb
    obtain ⟨q, hq, hqk⟩ := hl d.target hdl
    obtain ⟨s, hs, hsk⟩ := hl e.target hel
    have hpr : p.y - r.y < 0 := sub_neg.2 (hab p r hp hr)
    have hds : g.nodes.get? d.source = some p := by rw [Graph.source_of_mem_outEdges hd, hp]
    have hes : g.nodes.get? e.source = some r := by rw [Graph.source_of_mem_outEdges he, hr]
    have hends : s.y < q.y ↔ endPosition lower e < endPosition lower d :=
      hrl.lt_iff (getElem?_endPosition hel) (getElem?_endPosition hdl) hs hq
    rw [Graph.crosses_eq hds hq hes hs, decide_eq_decide, ← hends]
    constructor
    · rintro ⟨_, _, _, hlt⟩
      rcases mul_neg_iff.1 hlt with ⟨hpos, _⟩ | ⟨_, hpos⟩
      · exact absurd hpos (lt_asymm hpr)
      · exact sub_pos.1 hpos
    · intro hlt
      exact ⟨hpk.trans hrk.symm, hqk.trans hsk.symm, by rw [hqk, hpk],
        mul_neg_of_neg_of_pos hpr (sub_pos.2 hlt)⟩

end

/-! ## all layers -/

/-- the lists are layers of the graph from layer `k` on, they rise, and the edges from each end in the
next one -/
structure Stands (g : Graph Rat) (k : Int) (lists : Arrangement) : Prop where
  inLayer : ∀ (i : Nat) (l : List NodeId), lists[i]? = some l → InLayer g (k + i) l
  rising : ∀ l ∈ lists, Rising g l
  step : ∀ (i : Nat) (l : List NodeId), lists[i]? = some l → ∀ id ∈ l, ∀ e ∈ g.outEdges id,
    ∃ m, lists[i + 1]? = some m ∧ e.target ∈ m

section
variable {g : Graph Rat} {k : Int}

theorem Stands.tail {l : List NodeId} {lists : Arrangement} (h : Stands g k (l :: lists)) :
    Stands g (k + 1) lists where
  inLayer i m hm := by
    have hlayer := h.inLayer (i + 1) m hm
    have hi : k + 1 + (i : Int) = k + ((i + 1 : Nat) : Int) := by omega
    rwa [hi]
  rising m hm := h.rising m (List.mem_cons_of_mem _ hm)
  step i m hm := h.step (i + 1) m hm

/-- edges from the first layer cross no edges from later ones -/
theorem Stands.crosses_eq_false {l : List NodeId} {lists : Arrangement} (h : Stands g k (l :: lists)) :
    ∀ d ∈ l.flatMap g.outEdges, ∀ e ∈ lists.flatten.flatMap g.outEdges, g.crosses d e = false := by
  intro d hd e he
  obtain ⟨a, ha, hd⟩ := List.mem_flatMap.1 hd
  obtain ⟨b, hb, he⟩ := List.mem_flatMap.1 he
  obtain ⟨m, hm, hb⟩ := List.mem_flatten.1 hb
  obtain ⟨i, hi⟩ := List.mem_iff_getElem?.1 hm
  obtain ⟨p, hp, hpk⟩ := h.inLayer 0 l rfl a ha
  obtain ⟨r, hr, hrk⟩ := h.tail.inLayer i m hi b hb
  have hds : g.nodes.get? d.source = some p := by rw [Graph.source_of_mem_outEdges hd, hp]
  have hes : g.nodes.get? e.source = some r := by rw [Graph.source_of_mem_outEdges he, hr]
  refine Graph.crosses_eq_false hds hes (.inl fun heq => ?_)
  rw [hpk, hrk] at heq
  omega

theorem Stands.crossings_eq {lists : Arrangement} (h : Stands g k lists) :
    crossings g lists = pairCount g.crosses (lists.flatten.flatMap g.outEdges) := by
  induction lists generalizing k with
  | nil => rfl
  | cons upper lists ih =>
    cases lists with
    | nil =>
      -- no edge leads beyond the last layer
      have hnone : ([upper] : Arrangement).flatten.flatMap g.outEdges = [] := by
        rw [List.flatten_singleton, List.flatMap_eq_nil_iff]
        intro id hid
        refine List.eq_nil_iff_forall_not_mem.2 fun e he => ?_
        obtain ⟨m, hm, _⟩ := h.step 0 upper rfl id hid e he
        cases hm
      rw [hnone]
      rfl
    | cons lower rest =>
      have hstep : ∀ id ∈ upper, ∀ e ∈ g.outEdges id, e.target ∈ lower := by
        intro id hid e he
        obtain ⟨m, hm, htarget⟩ := h.step 0 upper rfl id hid e he
        obtain rfl : lower = m := Option.some.inj hm
        exact htarget
      have hupper : InLayer g k upper := by
        have hlayer := h.inLayer 0 upper rfl
        rwa [Int.natCast_zero, Int.add_zero] at hlayer
      have hlower : InLayer g (k + 1) lower := by
        have hlayer := h.tail.inLayer 0 lower rfl
        rwa [Int.natCast_zero, Int.add_zero] at hlayer
      have hbetween := crossingsBetween_eq hupper hlower (h.rising upper List.mem_cons_self)
        (h.rising lower (List.mem_cons_of_mem _ List.mem_cons_self)) hstep
      have hacross : across g.crosses (upper.flatMap g.outEdges)
          ((lower :: rest).flatten.flatMap g.outEdges) = 0 := by
        rw [across, List.length_eq_zero_iff, List.flatMap_eq_nil_iff]
        intro d hd
        refine List.filter_eq_nil_iff.2 fun e he => ?_
        rw [h.crosses_eq_false d hd e he]
        exact Bool.false_ne_true
      calc crossings g (upper :: lower :: rest)
          = crossingsBetween g upper lower + crossings g (lower :: rest) := crossings_cons_cons ..
        _ = pairCount g.crosses (upper.flatMap g.outEdges)
            + pairCount g.crosses ((lower :: rest).flatten.flatMap g.outEdges) := by
          rw [hbetween, ih h.tail]
        _ = pairCount g.crosses (upper.flatMap g.outEdges
            ++ (lower :: rest).flatten.flatMap g.outEdges) := by
          rw [pairCount_append, hacross, Nat.add_zero]
        _ = pairCount g.crosses ((upper :: lower :: rest).flatten.flatMap g.outEdges) := by
          rw [← List.flatMap_append]
          rfl

end

/-! ## the crossings of a drawing -/

section
variable {c : Config Rat} {w u : Workspace Rat} {t : Snapshot} {known past : List Edge}

theorem Course.stands (k : Course c w t u) (hw : w.Sound known) : Stands u.graph 0 t.arrangement := by
  obtain ⟨_, _, hordered⟩ := k.ordered hw
  obtain ⟨_, hexpanded, hpositioned⟩ := k.positioned hw
  obtain ⟨hs, hheights, _, hy⟩ := hpositioned.heights
  obtain ⟨_, hexp⟩ := hexpanded.expanding
  have hcoherent : k.v₃.graph.Coherent := by
    obtain ⟨_, hexp₃⟩ := hordered.expanding
    exact hexp₃.replaced.sound.coherent
  obtain ⟨hs', hok, hspread⟩ := heights_spec (c := c) hcoherent hordered.partition
  obtain rfl := Except.ok.inj (hheights.symm.trans hok)
  refine ⟨fun i l hl id hid => ?_, fun l hl => ?_, fun i l hl id hid e he => ?_⟩
  · have hlayer := hexp.filed.get?_of_mem hl hid
    obtain ⟨n, hn⟩ := OrderedMap.exists_get?_of_mem
      ((hexp.mem_keys_iff id).1 (OrderedMap.mem_keys_of_get? hlayer))
    have hsame := (hexp.placed id n hn).1
    rw [hlayer] at hsame
    exact ⟨n, hn, by rw [← Option.some.inj hsame, Int.zero_add]⟩
  · rw [k.arrangement_eq hw] at hl
    refine (hspread.apart l hl).imp fun {a b} hab m n hm hn => ?_
    exact lt_of_lt_of_le (lt_add_of_pos_right _ (not_le.1 c.nodeSpacing_pos))
      (hab m.y n.y (hy a m hm) (hy b n hn))
  · obtain ⟨layer, hsource, htarget⟩ := hexpanded.nextLayer (List.mem_filter.1 he).1
    rw [Graph.source_of_mem_outEdges he, hexp.filed.get?_of_mem hl hid] at hsource
    obtain ⟨j, hj, _, m, hm, hmem⟩ := hexp.filed.exists_list htarget
    have hnext : j = i + 1 := by
      have := Option.some.inj hsource
      omega
    exact ⟨m, hnext ▸ hm, hmem⟩

/-- the drawing has the crossings that were counted, and not more than there were at first -/
theorem prepare_crossings (hw : Reached w past)
    (h : (runPhases c Phase.preparation .initial).perform w = (.ok t, u)) :
    t.stage = .positioned ∧ crossings? u.graph t.arrangement = .ok u.graph.drawnCrossings ∧
      ∃ s v, (runPhases c [.layering, .expansion] .initial).perform w = (.ok s, v) ∧
        s.stage = .expanded ∧
        ∃ n, crossings? v.graph s.arrangement = .ok n ∧ u.graph.drawnCrossings ≤ n := by
  obtain ⟨k⟩ := exists_course h
  obtain ⟨hstage, hexpanded, _⟩ := k.expanded hw.sound
  obtain ⟨hredrawn, _, _⟩ := k.ordered hw.sound
  obtain ⟨_, hexpanded₄, hpositioned⟩ := k.positioned hw.sound
  have hcoherent : u.graph.Coherent := by
    obtain ⟨_, hexp⟩ := hexpanded₄.expanding
    exact hexp.replaced.sound.coherent
  have hsuccessors (id : NodeId) : u.graph.successors id = k.v₂.graph.successors id := by
    unfold Graph.successors Graph.outEdges
    rw [hpositioned.redrawn.arcs, hredrawn.arcs]
  have hdrawn : crossings u.graph t.arrangement = u.graph.drawnCrossings := by
    rw [(k.stands hw.sound).crossings_eq]
    refine pairCount_perm u.graph.crosses_comm ?_
    exact ((List.perm_ext_iff_of_nodup hexpanded₄.partition.nodup u.graph.nodup_nodeIds).2
      hexpanded₄.partition.mem_iff).flatMap_right _
  refine ⟨k.stage_positioned hw.sound, ?_, k.s₂, k.v₂, ?_, hstage, _,
    crossings?_of_mem fun id => (hexpanded.partition.mem_iff id).1, ?_⟩
  · rw [← hdrawn]
    exact crossings?_of_mem fun id => (hexpanded₄.partition.mem_iff id).1
  · exact runPhases_cons_ok_iff.2 ⟨_, _, k.layering, runPhases_cons_ok_iff.2 ⟨_, _, k.expansion, rfl⟩⟩
  · rw [← hdrawn, crossings_congr hsuccessors]
    exact bestArrangement_le (k.bestArrangement_eq hw.sound)

end

/-! ## a butterfly -/

/-- two nodes, each with an edge to each of two others -/
def butterfly : Workspace Rat :=
  let changes : List (Change Rat) :=
    [.addNode (.int 1) (.unplaced "" none), .addNode (.int 2) (.unplaced "" none),
      .addNode (.int 3) (.unplaced "" none), .addNode (.int 4) (.unplaced "" none),
      .addEdge (.int 1) (.int 3) false, .addEdge (.int 1) (.int 4) false,
      .addEdge (.int 2) (.int 3) false, .addEdge (.int 2) (.int 4) false]
  changes.foldl (fun w c => c.after w) ⟨.empty, .empty⟩

theorem reached_butterfly : ∃ past, Reached butterfly past :=
  ⟨_, (((((((((Reached.start .empty).change (.addNode _ _) trivial).change (.addNode _ _)
    trivial).change (.addNode _ _) trivial).change (.addNode _ _) trivial).change (.addEdge _ _ _)
    trivial).change (.addEdge _ _ _) trivial).change (.addEdge _ _ _) trivial).change (.addEdge _ _ _)
    trivial)⟩

/-- two of its edges cross when it is drawn -/
theorem prepare_crossings_butterfly : (∃ past, Reached butterfly past) ∧
    ∃ t u, (runPhases wideConfig Phase.preparation .initial).perform butterfly = (.ok t, u) ∧
      u.graph.drawnCrossings = 1 ∧
      t.stage = .positioned ∧ crossings? u.graph t.arrangement = .ok u.graph.drawnCrossings ∧
        ∃ s v, (runPhases wideConfig [.layering, .expansion] .initial).perform butterfly = (.ok s, v) ∧
          s.stage = .expanded ∧
          ∃ n, crossings? v.graph s.arrangement = .ok n ∧ u.graph.drawnCrossings ≤ n := by
  obtain ⟨past, hreached⟩ := reached_butterfly
  have hrun : (match (runPhases wideConfig Phase.preparation .initial).perform butterfly with
      | (.ok _, u) => decide (u.graph.drawnCrossings = 1)
      | (.error _, _) => false) = true := by decide +kernel
  rcases hprepare : (runPhases wideConfig Phase.preparation .initial).perform butterfly
    with ⟨fault | t, u⟩
  · rw [hprepare] at hrun
    cases hrun
  · rw [hprepare] at hrun
    exact ⟨⟨past, hreached⟩, t, u, rfl, of_decide_eq_true hrun, prepare_crossings hreached hprepare⟩

end LayeredDrawing
