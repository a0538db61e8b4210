import LayeredDrawing.Graph.Walk
import Mathlib.Data.List.Chain
import Mathlib.Data.List.Nodup
import Mathlib.Data.List.TakeWhile
import Mathlib.Logic.Relation

/-!
# The search for a cycle

`g.Acyclic` says that no chain of edges leads from a node back to it, and `IsCycle` describes such a
chain.  The search only ever reports cycles: while a walk is read, the edges of the path are arcs of
the graph, and the active nodes are the base of the path and the heads of its edges, the last one
first and no node twice (`Trail.Valid`).  So an edge back into an active node closes a cycle
(`PathFrom.isCycle`), and nothing is reported in an acyclic graph (`someCycle_of_acyclic`).
-/

namespace LayeredDrawing

/-- some edge leads from one node to the other -/
def Adjacent (arcs : List Edge) (a b : NodeId) : Prop := ∃ e ∈ arcs, e.source = a ∧ e.target = b

def Graph.Acyclic {α : Type} (g : Graph α) : Prop :=
  ∀ id, ¬ Relation.TransGen (Adjacent g.arcs) id id

theorem Graph.acyclic_of_rank {α : Type} {g : Graph α} (rank : NodeId → Nat)
    (h : ∀ e ∈ g.arcs, rank e.source < rank e.target) : g.Acyclic := by
  have hlt {a b : NodeId} (hab : Relation.TransGen (Adjacent g.arcs) a b) : rank a < rank b := by
    induction hab with
    | single hab =>
      obtain ⟨e, he, rfl, rfl⟩ := hab
      exact h e he
    | tail _ hbc ih =>
      obtain ⟨e, he, rfl, rfl⟩ := hbc
      exact Nat.lt_trans ih (h e he)
  intro id hid
  exact Nat.lt_irrefl _ (hlt hid)

/-- the ends of an edge, its source first -/
def Edge.ends (e : Edge) : NodeId × NodeId := (e.source, e.target)

/-- pairs of ends of edges, each leading to the source of the next and the last one to the first
source, with no source twice -/
structure IsCycle (arcs : List Edge) (cycle : List (NodeId × NodeId)) : Prop where
  nonempty : cycle ≠ []
  adjacent : ∀ p ∈ cycle, Adjacent arcs p.1 p.2
  chain : cycle.IsChain fun p q => p.2 = q.1
  closed : ∀ p ∈ cycle.head?, ∀ q ∈ cycle.getLast?, q.2 = p.1
  nodup : (cycle.map Prod.fst).Nodup

/-- along adjacent pairs each node leads to the last one -/
theorem transGen_of_isChain {arcs : List Edge} {l : List (NodeId × NodeId)} {p q : NodeId × NodeId}
    (hadj : ∀ r ∈ p :: l, Adjacent arcs r.1 r.2) (hchain : (p :: l).IsChain fun r s => r.2 = s.1)
    (hlast : (p :: l).getLast? = some q) : Relation.TransGen (Adjacent arcs) p.1 q.2 := by
  induction l generalizing p with
  | nil =>
    obtain rfl : p = q := by simpa using hlast
    exact .single (hadj p List.mem_cons_self)
  | cons r l ih =>
    obtain ⟨hpr, hrest⟩ := List.isChain_cons_cons.1 hchain
    have hstep : Adjacent arcs p.1 r.1 := hpr ▸ hadj p List.mem_cons_self
    rw [List.getLast?_cons_cons] at hlast
    exact .head hstep (ih (fun s hs => hadj s (List.mem_cons_of_mem _ hs)) hrest hlast)

theorem IsCycle.exists_transGen {arcs : List Edge} {cycle : List (NodeId × NodeId)}
    (h : IsCycle arcs cycle) : ∃ id, Relation.TransGen (Adjacent arcs) id id := by
  obtain ⟨p, l, rfl⟩ := List.exists_cons_of_ne_nil h.nonempty
  have hlast := List.getLast?_eq_some_getLast (List.cons_ne_nil p l)
  have hback := h.closed p rfl _ hlast
  have hchain := transGen_of_isChain h.adjacent h.chain hlast
  rw [hback] at hchain
  exact ⟨p.1, hchain⟩

/-! ## walks -/

theorem mem_edgeWalk {stack : List NodeId} {arcs : List Edge} {e : Edge}
    (h : e ∈ edgeWalk stack arcs) : e ∈ arcs := by
  fun_induction edgeWalk stack arcs with
  | case1 => cases h
  | case2 arcs node below hf ih => exact ih h
  | case3 arcs node below a hf ih =>
    rcases List.mem_cons.1 h with rfl | h
    · exact List.mem_of_find?_eq_some hf
    · exact List.mem_of_mem_erase (ih h)

/-- a walk from one node begins at that node -/
theorem source_head_edgeWalk {node : NodeId} {arcs : List Edge} {e : Edge} {walk : List Edge}
    (h : edgeWalk [node] arcs = e :: walk) : e.source = node := by
  rw [edgeWalk] at h
  split at h
  · rw [edgeWalk] at h
    cases h
  · rename_i a hf
    obtain ⟨rfl, _⟩ := List.cons.inj h
    simpa using List.find?_some hf

/-! ## trails -/

/-- the path is a chain of arcs from `base` on, with its heads and the base active -/
structure PathFrom (arcs : List Edge) (base : NodeId) (path : List Edge) (active : List NodeId) :
    Prop where
  active_eq : active = path.map Edge.target ++ [base]
  sources : path.map Edge.source = active.tail
  mem : ∀ e ∈ path, e ∈ arcs
  nodup : active.Nodup

section
variable {arcs : List Edge} {base : NodeId} {path : List Edge} {active : List NodeId}

theorem PathFrom.nil (arcs : List Edge) (base : NodeId) : PathFrom arcs base [] [base] where
  active_eq := rfl
  sources := rfl
  mem e he := by cases he
  nodup := List.nodup_singleton base

theorem PathFrom.cons (h : PathFrom arcs base path active) {e : Edge} (he : e ∈ arcs)
    (htop : active.head? = some e.source) (hnew : e.target ∉ active) :
    PathFrom arcs base (e :: path) (e.target :: active) where
  active_eq := by rw [h.active_eq]; rfl
  sources := by
    obtain ⟨rest, hrest⟩ : ∃ rest, active = e.source :: rest := List.head?_eq_some_iff.1 htop
    rw [List.map_cons, h.sources, List.tail_cons, hrest, List.tail_cons]
  mem a ha := by
    rcases List.mem_cons.1 ha with rfl | ha
    · exact he
    · exact h.mem a ha
  nodup := List.nodup_cons.2 ⟨hnew, h.nodup⟩

/-- the path without its last edge -/
theorem PathFrom.pop {e : Edge} (h : PathFrom arcs base (e :: path) active) :
    PathFrom arcs base path (active.erase e.target) := by
  have hactive : active.erase e.target = path.map Edge.target ++ [base] := by
    rw [h.active_eq, List.map_cons, List.cons_append, List.erase_cons_head]
  refine ⟨hactive, ?_, fun a ha => h.mem a (List.mem_cons_of_mem _ ha), h.nodup.erase _⟩
  have hs := h.sources
  rw [h.active_eq, List.map_cons, List.map_cons, List.cons_append, List.tail_cons] at hs
  rw [hactive, ← hs, List.tail_cons]

theorem PathFrom.head?_pop {e : Edge} (h : PathFrom arcs base (e :: path) active) :
    (active.erase e.target).head? = some e.source := by
  have hactive : active = e.target :: active.erase e.target := by
    rw [h.pop.active_eq, h.active_eq]
    rfl
  have hs := h.sources
  rw [hactive, List.tail_cons] at hs
  rw [← hs]
  rfl

/-- the path is a chain, also with one more edge from its end -/
theorem PathFrom.isChain_cons (h : PathFrom arcs base path active) {e : Edge}
    (htop : active.head? = some e.source) :
    (e :: path).IsChain fun a b => b.target = a.source := by
  induction path generalizing active e with
  | nil => exact List.isChain_singleton e
  | cons d path ih =>
    refine List.isChain_cons_cons.2 ⟨?_, ih h.pop h.head?_pop⟩
    rw [h.active_eq] at htop
    exact Option.some.inj htop

/-- an edge from the end of the path back into an active node closes a cycle -/
theorem PathFrom.isCycle (h : PathFrom arcs base path active) {e : Edge} (he : e ∈ arcs)
    (htop : active.head? = some e.source) (hback : e.target ∈ active) :
    IsCycle arcs (((e :: path).reverse.dropWhile fun a => a.source ≠ e.target).map Edge.ends) := by
  have hsources : (e :: path).map Edge.source = active := by
    obtain ⟨rest, hrest⟩ := List.head?_eq_some_iff.1 htop
    rw [List.map_cons, h.sources, hrest, List.tail_cons]
  have hsuffix := List.dropWhile_suffix (fun a => decide (a.source ≠ e.target)) (l := (e :: path).reverse)
  have hne : (e :: path).reverse.dropWhile (fun a => decide (a.source ≠ e.target)) ≠ [] := by
    intro hnil
    rw [← hsources] at hback
    obtain ⟨a, ha, hat⟩ := List.mem_map.1 hback
    have hskip := List.dropWhile_eq_nil_iff.1 hnil a (List.mem_reverse.2 ha)
    exact of_decide_eq_true hskip hat
  generalize hcycle : (e :: path).reverse.dropWhile (fun a => decide (a.source ≠ e.target)) = cycle
    at hsuffix hne
  have hmem {a : Edge} (ha : a ∈ cycle) : a ∈ arcs := by
    rcases List.mem_cons.1 (List.mem_reverse.1 (hsuffix.subset ha)) with rfl | ha
    · exact he
    · exact h.mem a ha
  refine ⟨by simpa using hne, fun p hp => ?_, ?_, fun p hp q hq => ?_, ?_⟩
  · obtain ⟨a, ha, rfl⟩ := List.mem_map.1 hp
    exact ⟨a, hmem ha, rfl, rfl⟩
  · rw [List.isChain_map]
    exact (List.isChain_reverse.2 (h.isChain_cons htop)).suffix hsuffix
  -- the cycle begins where the last edge leads
  · rw [List.head?_map] at hp
    rw [List.getLast?_map] at hq
    obtain ⟨a, ha, rfl⟩ := Option.map_eq_some_iff.1 hp
    obtain ⟨b, hb, rfl⟩ := Option.map_eq_some_iff.1 hq
    have hlast : cycle.getLast? = some e := by
      obtain ⟨skipped, hsplit⟩ := hsuffix
      rw [← List.getLast?_append_of_ne_nil skipped hne, hsplit, List.getLast?_reverse]
      rfl
    obtain rfl : e = b := Option.some.inj (hlast.symm.trans hb)
    have hfirst := List.head?_dropWhile_not (fun a => decide (a.source ≠ e.target)) (e :: path).reverse
    rw [hcycle, ha] at hfirst
    have heq : a.source = e.target := by simpa using hfirst
    exact heq.symm
  · have hnodup : ((e :: path).reverse.map Edge.source).Nodup := by
      rw [List.map_reverse, List.nodup_reverse, hsources]
      exact h.nodup
    rw [List.map_map]
    exact hnodup.sublist (hsuffix.sublist.map Edge.source)

end

theorem Trail.backtrack_spec {arcs : List Edge} {base : NodeId} {path : List Edge}
    {active : List NodeId} (tail : NodeId) (h : PathFrom arcs base path active) :
    ∃ base', PathFrom arcs base' (backtrack tail path active).1 (backtrack tail path active).2 ∧
      (backtrack tail path active).2.head? = some tail := by
  induction path generalizing active with
  | nil => exact ⟨tail, PathFrom.nil arcs tail, rfl⟩
  | cons e path ih =>
    rw [backtrack]
    split
    · rename_i hhead
      refine ⟨base, h.pop, ?_⟩
      show (active.erase e.target).head? = some tail
      rw [h.pop.active_eq, List.head?_append, List.head?_map, hhead]
      rfl
    · exact ih h.pop

/-- nothing stands before the node that comes first and no second time -/
theorem eq_nil_of_head? {gone below : List NodeId} {id : NodeId}
    (hnodup : (gone ++ id :: below).Nodup) (hhead : (gone ++ id :: below).head? = some id) :
    gone = [] := by
  cases gone with
  | nil => rfl
  | cons a gone =>
    obtain rfl : a = id := Option.some.inj hhead
    have hnot := (List.nodup_cons.1 hnodup).1
    exact absurd (List.mem_append_right gone List.mem_cons_self) hnot

/-- going back to an active node leaves that node active and those before it -/
theorem Trail.backtrack_active {arcs : List Edge} {base tail : NodeId} {path : List Edge}
    {gone below : List NodeId} (h : PathFrom arcs base path (gone ++ tail :: below))
    (hgone : gone ≠ []) : (backtrack tail path (gone ++ tail :: below)).2 = tail :: below := by
  induction path generalizing gone with
  | nil =>
    obtain ⟨a, gone, rfl⟩ := List.exists_cons_of_ne_nil hgone
    have hlen := congrArg List.length h.active_eq
    simp only [List.map_nil, List.nil_append, List.length_append, List.length_cons, List.length_nil] at hlen
    omega
  | cons e path ih =>
    obtain ⟨a, gone, rfl⟩ := List.exists_cons_of_ne_nil hgone
    obtain rfl : a = e.target := (List.cons.inj h.active_eq).1
    have hpop := h.pop
    rw [List.cons_append, List.erase_cons_head] at hpop
    rw [backtrack, List.cons_append, List.erase_cons_head]
    split
    · rename_i hhead
      have hfirst : (gone ++ tail :: below).head? = some tail := by
        rw [hpop.active_eq, List.head?_append, List.head?_map, hhead]
        rfl
      rw [eq_nil_of_head? hpop.nodup hfirst, List.nil_append]
    · rename_i hhead
      cases gone with
      | cons b gone => exact ih hpop (List.cons_ne_nil b gone)
      | nil =>
        cases path with
        | nil =>
          obtain ⟨rfl, rfl⟩ := List.cons.inj hpop.active_eq
          rfl
        | cons d path =>
          obtain rfl : tail = d.target := (List.cons.inj hpop.active_eq).1
          exact absurd rfl hhead

/-- what is known of the trail at any time: its path is a chain of arcs that leads to the current
position -/
structure Trail.Valid (arcs : List Edge) (t : Trail) : Prop where
  path : ∃ base, PathFrom arcs base t.path t.active
  position : ∀ p, t.position = some p → t.active.head? = some p

theorem Trail.valid_start (arcs : List Edge) (node : NodeId) : (Trail.start node).Valid arcs :=
  ⟨⟨node, PathFrom.nil arcs node⟩, fun p hp => by cases hp⟩

/-- an edge is followed from where it starts, after going back to it -/
theorem Trail.exists_step {arcs : List Edge} {t : Trail} (ht : t.Valid arcs) {e : Edge}
    (hfirst : t.position = none → t.active.head? = some e.source) :
    ∃ path active base, PathFrom arcs base path active ∧ active.head? = some e.source ∧
      (∀ gone below, t.active = gone ++ e.source :: below → active = e.source :: below) ∧
      t.step e =
        if e.target ∈ active then .inl ((e :: path).reverse.dropWhile fun a => a.source ≠ e.target)
        else .inr ⟨e :: path, e.target :: active, some e.target, e.target :: t.seen⟩ := by
  obtain ⟨⟨base, hpath⟩, hpos⟩ := ht
  have hstay (hhead : t.active.head? = some e.source) (gone below : List NodeId)
      (hactive : t.active = gone ++ e.source :: below) : t.active = e.source :: below := by
    have hnodup := hpath.nodup
    rw [hactive] at hnodup hhead ⊢
    rw [eq_nil_of_head? hnodup hhead, List.nil_append]
  cases hp : t.position with
  | none =>
    refine ⟨t.path, t.active, base, hpath, hfirst hp, hstay (hfirst hp), ?_⟩
    simp only [step, hp]
  | some node =>
    by_cases hnode : e.source = node
    · have hhead : t.active.head? = some e.source := by rw [hnode]; exact hpos node hp
      refine ⟨t.path, t.active, base, hpath, hhead, hstay hhead, ?_⟩
      simp only [step, hp, if_pos hnode]
    · obtain ⟨base', hb, hhead⟩ := backtrack_spec e.source hpath
      refine ⟨_, _, base', hb, hhead, fun gone below hactive => ?_, ?_⟩
      · have hgone : gone ≠ [] := by
          rintro rfl
          have htop := hpos node hp
          rw [hactive] at htop
          exact hnode (Option.some.inj htop)
        rw [hactive] at hpath ⊢
        exact backtrack_active hpath hgone
      · simp only [step, hp, if_neg hnode]

/-- one edge either closes a cycle or goes on with the trail -/
theorem Trail.step_spec {arcs : List Edge} {t : Trail} (ht : t.Valid arcs) {e : Edge}
    (he : e ∈ arcs) (hfirst : t.position = none → t.active.head? = some e.source) :
    match t.step e with
    | .inl cycle => IsCycle arcs (cycle.map Edge.ends)
    | .inr u => u.Valid arcs ∧ u.position ≠ none := by
  obtain ⟨path, active, base, hpath, htop, _, hstep⟩ := exists_step ht hfirst
  rw [hstep]
  by_cases hmem : e.target ∈ active
  · rw [if_pos hmem]
    exact hpath.isCycle he htop hmem
  · rw [if_neg hmem]
    exact ⟨⟨⟨base, hpath.cons he htop hmem⟩, fun p hp => hp⟩, by simp⟩

theorem Trail.follow_spec {arcs : List Edge} {t : Trail} (ht : t.Valid arcs) {walk : List Edge}
    (hwalk : ∀ e ∈ walk, e ∈ arcs)
    (hfirst : t.position = none → ∀ e ∈ walk.head?, t.active.head? = some e.source)
    {cycle : List Edge} (h : t.follow walk = .inl cycle) :
    IsCycle arcs (cycle.map Edge.ends) := by
  induction walk generalizing t with
  | nil => cases h
  | cons e walk ih =>
    have hstep := step_spec ht (hwalk e List.mem_cons_self) fun hn => hfirst hn e rfl
    rw [follow] at h
    split at h
    · rename_i hs
      rw [hs] at hstep
      rwa [← Sum.inl.inj h]
    · rename_i u hs
      rw [hs] at hstep
      refine ih hstep.1 (fun a ha => hwalk a (List.mem_cons_of_mem _ ha)) (fun hn => ?_) h
      exact absurd hn hstep.2

namespace Graph

variable {α : Type} {g : Graph α}

/-- a walk from a node through arcs of the graph reports cycles only -/
theorem isCycle_of_follow {arcs : List Edge} {node : NodeId} (harcs : ∀ e ∈ arcs, e ∈ g.arcs)
    {cycle : List Edge} (h : (Trail.start node).follow (edgeWalk [node] arcs) = .inl cycle) :
    IsCycle g.arcs (cycle.map Edge.ends) := by
  refine Trail.follow_spec (Trail.valid_start g.arcs node) (fun e he => harcs e (mem_edgeWalk he))
    (fun _ e he => ?_) h
  obtain ⟨walk, hwalk⟩ := List.head?_eq_some_iff.1 he
  rw [source_head_edgeWalk hwalk]
  rfl

theorem isCycle_cycleFrom {explored nodes : List NodeId} (h : g.cycleFrom explored nodes ≠ []) :
    IsCycle g.arcs ((g.cycleFrom explored nodes).map Edge.ends) := by
  induction nodes generalizing explored with
  | nil => exact absurd rfl h
  | cons node rest ih =>
    rw [cycleFrom] at h ⊢
    split at h
    · rename_i hnode
      rw [if_pos hnode]
      exact ih h
    · rename_i hnode
      rw [if_neg hnode]
      dsimp only at h ⊢
      split at h
      · rename_i cycle hcycle
        exact isCycle_of_follow (fun e he => (List.mem_filter.1 he).1) hcycle
      · exact ih h

/-- what the search reports is a cycle -/
theorem isCycle_someCycle (h : g.someCycle ≠ []) : IsCycle g.arcs (g.someCycle.map Edge.ends) :=
  isCycle_cycleFrom h

theorem someCycle_of_acyclic (hg : g.Acyclic) : g.someCycle = [] := by
  refine Classical.byContradiction fun h => ?_
  obtain ⟨id, hid⟩ := (isCycle_someCycle h).exists_transGen
  exact hg id hid

end Graph

end LayeredDrawing
