import LayeredDrawing.Proofs.Graph.TopologicalOrder

/-!
# The topological order by generations

The first generation are the nodes without an edge into them.  The edges from a generation are taken
away, all parallel ones at once, and the nodes that have no edge into them left are the next
generation.  One generation after the other, this is the topological order.

* `Tally`, `nextGeneration`, `generations`   the count of the edges that are left;
* `foldl_take`                               the edges from one node;
* `exists_nextGeneration`                    those from one generation;
* `topologicalOrder_eq_generations`          both orders are the same.
-/

namespace LayeredDrawing

/-- how many edges into each node are left, and the nodes that have just come to have none -/
structure Tally where
  degree : NodeId → Nat
  free : List NodeId

/-- the number of parallel edges from one node to another -/
def between (arcs : List Edge) (node child : NodeId) : Nat :=
  arcs.countP fun e => decide (e.source = node ∧ e.target = child)

/-- takes the edges between two nodes away -/
def Tally.take (arcs : List Edge) (node : NodeId) (t : Tally) (child : NodeId) : Tally :=
  let left := t.degree child - between arcs node child
  ⟨fun id => if id = child then left else t.degree id, if left = 0 then t.free ++ [child] else t.free⟩

namespace Graph

variable {α : Type}

/-- the nodes that edges from a node lead to, each once -/
def children (g : Graph α) (node : NodeId) : List NodeId := (g.successors node).eraseDups

/-- takes the edges from all nodes of a generation away -/
def nextGeneration (g : Graph α) (generation : List NodeId) (t : Tally) : Tally :=
  generation.foldl (fun t node => (g.children node).foldl (Tally.take g.arcs node) t) t

def generationsFrom (g : Graph α) : (rounds : Nat) → Tally → List (List NodeId)
  | 0, _ => []
  | rounds + 1, t =>
    if t.free = [] then []
    else t.free :: g.generationsFrom rounds (g.nextGeneration t.free ⟨t.degree, []⟩)

/-- the generations; no graph has more of them than nodes -/
def generations (g : Graph α) : List (List NodeId) :=
  g.generationsFrom g.nodes.size
    ⟨fun id => (g.inEdges id).length, g.nodeIds.filter fun id => (g.inEdges id).isEmpty⟩

end Graph

/-! ## the edges from one node -/

theorem foldl_take (arcs : List Edge) (node : NodeId) {children : List NodeId} (h : children.Nodup)
    (t : Tally) : children.foldl (Tally.take arcs node) t
      = ⟨fun id => if id ∈ children then t.degree id - between arcs node id else t.degree id,
        t.free ++ children.filter fun id => t.degree id - between arcs node id = 0⟩ := by
  induction children generalizing t with
  | nil => simp
  | cons child children ih =>
    obtain ⟨hchild, hrest⟩ := List.nodup_cons.1 h
    have hkept {id : NodeId} (hid : id ∈ children) : (t.take arcs node child).degree id = t.degree id :=
      if_neg fun heq : id = child => hchild (heq ▸ hid)
    rw [List.foldl_cons, ih hrest, Tally.mk.injEq]
    constructor
    · funext id
      by_cases hid : id ∈ children
      · rw [if_pos hid, if_pos (List.mem_cons_of_mem _ hid), hkept hid]
      · rw [if_neg hid]
        by_cases heq : id = child
        · rw [heq, if_pos List.mem_cons_self]
          exact if_pos rfl
        · have hnot : id ∉ child :: children := fun hm => (List.mem_cons.1 hm).elim heq hid
          rw [if_neg hnot]
          exact if_neg heq
    · have hfilter : children.filter (fun id => decide ((t.take arcs node child).degree id
          - between arcs node id = 0))
          = children.filter fun id => decide (t.degree id - between arcs node id = 0) :=
        List.filter_congr fun id hid => by rw [hkept hid]
      rw [hfilter, List.filter_cons]
      show (if t.degree child - between arcs node child = 0 then _ else _) ++ _ = _
      by_cases hfree : t.degree child - between arcs node child = 0
      · rw [if_pos hfree, if_pos (decide_eq_true hfree), List.append_assoc, List.singleton_append]
      · rw [if_neg hfree, if_neg (by simpa using hfree)]

/-- what is left when the edges from the nodes listed so far are gone -/
def Tally.Counts (arcs : List Edge) (done : List NodeId) (t : Tally) : Prop :=
  ∀ id, t.degree id = (pending done arcs).countP fun e => decide (e.target = id)

theorem countP_pending_cons {arcs : List Edge} {done : List NodeId} {node : NodeId} (h : node ∉ done)
    (id : NodeId) : (pending done arcs).countP (fun e => decide (e.target = id))
      = (pending (node :: done) arcs).countP (fun e => decide (e.target = id))
        + between arcs node id := by
  unfold pending between
  rw [List.countP_filter, List.countP_filter]
  induction arcs with
  | nil => rfl
  | cons e arcs ih =>
    rw [List.countP_cons, List.countP_cons, List.countP_cons, ih]
    by_cases hs : e.source = node <;> by_cases ht : e.target = id <;> simp [hs, ht, h] <;> omega

section
variable {α : Type} {g : Graph α} {done free : List NodeId} {node : NodeId} {t : Tally}

theorem Graph.nodup_children (g : Graph α) (node : NodeId) : (g.children node).Nodup :=
  nodup_eraseDups _

theorem Graph.between_eq_zero {id : NodeId} (h : id ∉ g.children node) : between g.arcs node id = 0 := by
  refine List.countP_eq_zero.2 fun e he hends => h ?_
  obtain ⟨hs, ht⟩ := of_decide_eq_true hends
  refine List.mem_eraseDups.2 (List.mem_map.2 ⟨e, List.mem_filter.2 ⟨he, ?_⟩, ht⟩)
  exact decide_eq_true hs

/-- the nodes that a node sets free are its children without other edges into them -/
theorem released_pending (h : node ∉ done) (hcounts : t.Counts g.arcs done) :
    (g.children node).filter (fun id => decide (t.degree id - between g.arcs node id = 0))
      = released node (pending done g.arcs) := by
  have hsources : (pending done g.arcs).filter (fun e => decide (e.source = node)) = g.outEdges node := by
    rw [pending, List.filter_filter, Graph.outEdges]
    refine List.filter_congr fun e _ => ?_
    by_cases hs : e.source = node <;> simp [hs, h]
  rw [released, hsources]
  refine List.filter_congr fun id _ => ?_
  rw [arcsLeft_pending, hcounts id, countP_pending_cons h, Nat.add_sub_cancel, Bool.eq_iff_iff,
    decide_eq_true_iff, List.countP_eq_zero, List.all_eq_true]
  simp only [decide_eq_true_eq, ne_eq]

theorem counts_foldl_take (h : node ∉ done) (hcounts : t.Counts g.arcs done) :
    ((g.children node).foldl (Tally.take g.arcs node) t).Counts g.arcs (node :: done) := by
  intro id
  have hleft : (pending done g.arcs).countP (fun e => decide (e.target = id)) = _ :=
    countP_pending_cons h id
  rw [foldl_take g.arcs node (g.nodup_children node) t]
  show (if id ∈ g.children node then t.degree id - between g.arcs node id else t.degree id) = _
  split
  · rw [hcounts id]
    omega
  · rename_i hid
    rw [hcounts id, hleft, Graph.between_eq_zero hid, Nat.add_zero]

theorem free_foldl_take (h : node ∉ done) (hcounts : t.Counts g.arcs done) :
    ((g.children node).foldl (Tally.take g.arcs node) t).free
      = t.free ++ released node (pending done g.arcs) := by
  rw [foldl_take g.arcs node (g.nodup_children node) t, ← released_pending h hcounts]

/-! ## the generations -/

theorem Graph.nextGeneration_cons (g : Graph α) (node : NodeId) (rest : List NodeId) (t : Tally) :
    g.nextGeneration (node :: rest) t
      = g.nextGeneration rest ((g.children node).foldl (Tally.take g.arcs node) t) := rfl

/-- a generation in front of the queue is listed before all that it sets free -/
theorem exists_nextGeneration {generation : List NodeId}
    (hlist : Listable g.arcs done (generation ++ t.free)) (hcounts : t.Counts g.arcs done) :
    ∃ done', Listable g.arcs done' (g.nextGeneration generation t).free ∧
      (g.nextGeneration generation t).Counts g.arcs done' ∧
      releaseAll (generation ++ t.free) (pending done g.arcs)
        = generation ++ releaseAll (g.nextGeneration generation t).free (pending done' g.arcs) := by
  induction generation generalizing done t with
  | nil => exact ⟨done, hlist, hcounts, rfl⟩
  | cons node rest ih =>
    have hnode : node ∉ done := hlist.not_done node List.mem_cons_self
    have hfree := free_foldl_take hnode hcounts
    have hnext : Listable g.arcs (node :: done)
        (rest ++ ((g.children node).foldl (Tally.take g.arcs node) t).free) := by
      rw [hfree, ← List.append_assoc]
      exact hlist.next
    obtain ⟨done', hlist', hcounts', hrelease⟩ := ih hnext (counts_foldl_take hnode hcounts)
    refine ⟨done', hlist', hcounts', ?_⟩
    rw [List.cons_append, releaseAll, arcsLeft_pending, List.append_assoc, ← hfree, hrelease,
      Graph.nextGeneration_cons, List.cons_append]

theorem flatten_generationsFrom {rounds : Nat} (hlist : Listable g.arcs done t.free)
    (hcounts : t.Counts g.arcs done)
    (hlength : (releaseAll t.free (pending done g.arcs)).length ≤ rounds) :
    (g.generationsFrom rounds t).flatten = releaseAll t.free (pending done g.arcs) := by
  induction rounds generalizing done t with
  | zero =>
    rw [List.eq_nil_of_length_eq_zero (Nat.le_zero.1 hlength)]
    rfl
  | succ rounds ih =>
    rw [Graph.generationsFrom]
    split
    · rename_i hnil
      rw [hnil, releaseAll]
      rfl
    · rename_i hne
      have hstart : Listable g.arcs done (t.free ++ (⟨t.degree, []⟩ : Tally).free) := by
        rwa [List.append_nil]
      obtain ⟨done', hlist', hcounts', hrelease⟩ := exists_nextGeneration hstart hcounts
      rw [List.append_nil] at hrelease
      rw [hrelease, List.length_append] at hlength
      have hpos : 0 < t.free.length := List.length_pos_of_ne_nil hne
      rw [List.flatten_cons, hrelease, ih hlist' hcounts' (by omega)]

end

namespace Graph

variable {α : Type} {g : Graph α}

theorem topologicalOrder_eq_generations (hg : g.Joined) :
    g.topologicalOrder = g.generations.flatten := by
  have hcounts : Tally.Counts g.arcs [] ⟨fun id => (g.inEdges id).length,
      g.nodeIds.filter fun id => (g.inEdges id).isEmpty⟩ := fun id => by
    rw [pending_nil, List.countP_eq_length_filter]
    rfl
  have hlength : g.topologicalOrder.length ≤ g.nodes.size := by
    have hnodup := g.inOrder_topologicalOrder.nodup
    have hsub := hnodup.subperm fun id hid => mem_nodeIds_of_mem_topologicalOrder hg hid
    have hsize : g.nodeIds.length = g.nodes.size := List.length_map _
    rw [← hsize]
    exact hsub.length_le
  have horder : g.generations.flatten = releaseAll _ (pending [] g.arcs) :=
    flatten_generationsFrom g.listable_sources hcounts (by rwa [pending_nil])
  rw [horder, pending_nil]
  rfl

end Graph

end LayeredDrawing
