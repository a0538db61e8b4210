import LayeredDrawing.Proofs.Graph.Cycle
import LayeredDrawing.Proofs.Renaming.Basic

/-!
# Cycles under a renaming

A walk only asks for the next edge from a node, and a trail compares nodes and nothing else.  So if the
edges from each node correspond in order, whatever their order among those from other nodes, the search
reports corresponding cycles.

* `FansAlike`                 the edges from each node correspond in order;
* `FansAlike.edgeWalk`        the walks correspond;
* `Trail.Mirrors.follow`      and so do the trails along them;
* `FansAlike.someCycle`       the cycles that are found.
-/

namespace LayeredDrawing

/-! ## walks -/

/-- from each node the edges correspond in order -/
def FansAlike (r : Renaming) (l l' : List Edge) : Prop :=
  ∀ a, List.Forall₂ r.Matches (l.filter fun e => e.source = a) (l'.filter fun e => e.source = r.node a)

section
variable {r : Renaming} {l l' : List Edge}

/-- without one edge, the edges from its source are those behind it, and the others are the same -/
theorem filter_source_erase {e : Edge} {a : NodeId} {rest : List Edge}
    (h : (l.filter fun d => d.source = a) = e :: rest) (b : NodeId) :
    ((l.erase e).filter fun d => d.source = b)
      = if b = a then rest else l.filter fun d => d.source = b := by
  rw [← List.erase_filter]
  split
  · rename_i hb
    rw [hb, h, List.erase_cons_head]
  · rename_i hb
    refine List.erase_of_not_mem fun hmem => hb ?_
    have hsource : e.source = a :=
      of_decide_eq_true (List.mem_filter.1 (h ▸ List.mem_cons_self : e ∈ l.filter _)).2
    exact (of_decide_eq_true (List.mem_filter.1 hmem).2).symm.trans hsource

theorem FansAlike.find?_none (h : FansAlike r l l') {a : NodeId}
    (hfind : l.find? (fun e => e.source = a) = none) :
    l'.find? (fun e => e.source = r.node a) = none := by
  rw [← List.head?_filter, List.head?_eq_none_iff] at hfind ⊢
  have hfan := h a
  rw [hfind] at hfan
  exact List.forall₂_nil_left_iff.1 hfan

theorem FansAlike.find?_some (h : FansAlike r l l') {a : NodeId} {e : Edge}
    (hfind : l.find? (fun e => e.source = a) = some e) :
    ∃ e', l'.find? (fun e => e.source = r.node a) = some e' ∧ r.Matches e e' ∧
      FansAlike r (l.erase e) (l'.erase e') := by
  rw [← List.head?_filter] at hfind
  obtain ⟨rest, hrest⟩ := List.head?_eq_some_iff.1 hfind
  have hfan := h a
  rw [hrest] at hfan
  obtain ⟨e', rest', hmatch, htail, hrest'⟩ := List.forall₂_cons_left_iff.1 hfan
  refine ⟨e', by rw [← List.head?_filter, hrest']; rfl, hmatch, fun b => ?_⟩
  rw [filter_source_erase hrest, filter_source_erase hrest']
  simp only [r.injective.eq_iff]
  split
  · exact htail
  · exact h b

/-- leaving out the edges into some nodes -/
theorem FansAlike.without (h : FansAlike r l l') (ids : List NodeId) :
    FansAlike r (l.filter fun e => e.target ∉ ids) (l'.filter fun e => e.target ∉ ids.map r.node) := by
  intro a
  have hrest : List.Forall₂ r.Matches
      ((l.filter fun e => e.source = a).filter fun e => e.target ∉ ids)
      ((l'.filter fun e => e.source = r.node a).filter fun e => e.target ∉ ids.map r.node) :=
    List.rel_filter (fun e e' hmatch => by simp [hmatch.target, r.injective.eq_iff]) (h a)
  rwa [List.filter_comm, List.filter_comm (l := l')] at hrest

theorem edgeWalk_of_none {node : NodeId} {below : List NodeId}
    (hfind : l.find? (fun e => e.source = node) = none) :
    edgeWalk (node :: below) l = edgeWalk below l := by
  rw [edgeWalk]
  split
  · rfl
  · rename_i hsome
    rw [hfind] at hsome
    cases hsome

theorem edgeWalk_of_some {node : NodeId} {below : List NodeId} {e : Edge}
    (hfind : l.find? (fun e => e.source = node) = some e) :
    edgeWalk (node :: below) l = e :: edgeWalk (e.target :: node :: below) (l.erase e) := by
  rw [edgeWalk]
  split
  · rename_i hnone
    rw [hfind] at hnone
    cases hnone
  · rename_i d hsome
    obtain rfl : e = d := Option.some.inj (hfind.symm.trans hsome)
    rfl

theorem FansAlike.edgeWalk (h : FansAlike r l l') (stack : List NodeId) :
    List.Forall₂ r.Matches (edgeWalk stack l) (edgeWalk (stack.map r.node) l') := by
  fun_induction LayeredDrawing.edgeWalk stack l generalizing l' with
  | case1 =>
    rw [List.map_nil, LayeredDrawing.edgeWalk]
    exact .nil
  | case2 arcs node below hfind ih =>
    rw [List.map_cons, edgeWalk_of_none (h.find?_none hfind)]
    exact ih h
  | case3 arcs node below e hfind ih =>
    obtain ⟨e', hfind', hmatch, hrest⟩ := h.find?_some hfind
    have hwalk := ih hrest
    rw [List.map_cons, List.map_cons, ← hmatch.target] at hwalk
    rw [List.map_cons, edgeWalk_of_some hfind']
    exact .cons hmatch hwalk

end

/-! ## trails -/

namespace Trail

variable {r : Renaming}

/-- the second trail has come by corresponding edges and nodes -/
structure Mirrors (r : Renaming) (t t' : Trail) : Prop where
  path : List.Forall₂ r.Matches t.path t'.path
  active : t'.active = t.active.map r.node
  position : t'.position = t.position.map r.node
  seen : t'.seen = t.seen.map r.node

theorem mirrors_start (node : NodeId) : Mirrors r (start node) (start (r.node node)) :=
  ⟨.nil, rfl, rfl, rfl⟩

theorem backtrack_rename {path path' : List Edge} (h : List.Forall₂ r.Matches path path')
    (tail : NodeId) (active : List NodeId) :
    List.Forall₂ r.Matches (backtrack tail path active).1
        (backtrack (r.node tail) path' (active.map r.node)).1 ∧
      (backtrack (r.node tail) path' (active.map r.node)).2
        = (backtrack tail path active).2.map r.node := by
  induction h generalizing active with
  | nil => exact ⟨.nil, rfl⟩
  | @cons e e' path path' hmatch hpath ih =>
    have herase : (active.map r.node).erase e'.target = (active.erase e.target).map r.node := by
      rw [hmatch.target, List.map_erase r.injective]
    have hhead : path'.head?.map Edge.target = some (r.node tail) ↔
        path.head?.map Edge.target = some tail := by
      cases hpath with
      | nil => simp
      | cons hmatch _ => simp [hmatch.target, r.injective.eq_iff]
    simp only [backtrack, herase, hhead]
    split
    · exact ⟨hpath, rfl⟩
    · exact ih _

/-- both have found corresponding cycles, or both go on -/
abbrev Outcome (r : Renaming) : List Edge ⊕ Trail → List Edge ⊕ Trail → Prop :=
  Sum.LiftRel (List.Forall₂ r.Matches) (Mirrors r)

/-- going on from corresponding places -/
theorem outcome_of_path {path path' : List Edge} (hpath : List.Forall₂ r.Matches path path')
    (active seen : List NodeId) {e e' : Edge} (he : r.Matches e e') :
    Outcome r
      (if e.target ∈ active then .inl ((e :: path).reverse.dropWhile fun a => a.source ≠ e.target)
        else .inr ⟨e :: path, e.target :: active, some e.target, e.target :: seen⟩)
      (if e'.target ∈ active.map r.node then
          .inl ((e' :: path').reverse.dropWhile fun a => a.source ≠ e'.target)
        else .inr ⟨e' :: path', e'.target :: active.map r.node, some e'.target,
          e'.target :: seen.map r.node⟩) := by
  simp only [he.target, List.mem_map_of_injective r.injective]
  split
  · refine .inl (forall₂_dropWhile (List.forall₂_reverse_iff.2 (.cons he hpath)) fun a a' ha => ?_)
    rw [ha.source]
    exact decide_eq_decide.2 (not_congr r.injective.eq_iff)
  · exact .inr ⟨.cons he hpath, rfl, rfl, rfl⟩

theorem Mirrors.step {t t' : Trail} (h : Mirrors r t t') {e e' : Edge} (he : r.Matches e e') :
    Outcome r (t.step e) (t'.step e') := by
  have hposition := h.position
  cases hp : t.position with
  | none =>
    rw [hp] at hposition
    simp only [Trail.step, hp, hposition, h.active, h.seen, Option.map_none]
    exact outcome_of_path h.path _ _ he
  | some node =>
    rw [hp] at hposition
    have hnode : e'.source = r.node node ↔ e.source = node := by
      rw [he.source, r.injective.eq_iff]
    simp only [Trail.step, hp, hposition, h.active, h.seen, Option.map_some, hnode]
    by_cases hstay : e.source = node
    · simp only [if_pos hstay]
      exact outcome_of_path h.path _ _ he
    · obtain ⟨hpath, hactive⟩ := backtrack_rename h.path e.source t.active
      simp only [if_neg hstay, he.source, hactive]
      exact outcome_of_path hpath _ _ he

theorem Mirrors.follow {t t' : Trail} (h : Mirrors r t t') {walk walk' : List Edge}
    (hwalk : List.Forall₂ r.Matches walk walk') : Outcome r (t.follow walk) (t'.follow walk') := by
  induction hwalk generalizing t t' with
  | nil => exact .inr h
  | @cons e e' walk walk' hmatch _ ih =>
    have hstep := h.step hmatch
    rw [Trail.follow, Trail.follow]
    generalize t.step e = outcome at hstep ⊢
    generalize t'.step e' = outcome' at hstep ⊢
    cases hstep with
    | inl hcycle => exact .inl hcycle
    | inr ht => exact ih ht

end Trail

/-! ## the search -/

namespace Graph

variable {α : Type} {r : Renaming} {g g' : Graph α}

theorem cycleFrom_rename (h : FansAlike r g.arcs g'.arcs) (explored nodes : List NodeId) :
    List.Forall₂ r.Matches (g.cycleFrom explored nodes)
      (g'.cycleFrom (explored.map r.node) (nodes.map r.node)) := by
  induction nodes generalizing explored with
  | nil => exact .nil
  | cons node rest ih =>
    have hexplored : r.node node ∈ explored.map r.node ↔ node ∈ explored :=
      List.mem_map_of_injective r.injective
    simp only [List.map_cons, cycleFrom, hexplored]
    split
    · exact ih explored
    · have hfollow := (Trail.mirrors_start node).follow ((h.without explored).edgeWalk [node])
      rw [List.map_singleton] at hfollow
      generalize (Trail.start node).follow _ = outcome at hfollow ⊢
      generalize (Trail.start (r.node node)).follow _ = outcome' at hfollow ⊢
      cases hfollow with
      | inl hcycle => exact hcycle
      | @inr t t' ht =>
        have hrest := ih (t.seen ++ explored)
        rw [List.map_append, ← ht.seen] at hrest
        exact hrest

theorem someCycle_rename (h : FansAlike r g.arcs g'.arcs) (hids : g'.nodeIds = g.nodeIds.map r.node) :
    List.Forall₂ r.Matches g.someCycle g'.someCycle := by
  rw [someCycle, someCycle, hids]
  exact cycleFrom_rename h [] g.nodeIds

end Graph

end LayeredDrawing
