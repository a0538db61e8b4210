import LayeredDrawing.Proofs.Fault.Plain
import LayeredDrawing.Proofs.Route.Clean
import LayeredDrawing.Proofs.Workspace.Sound
import LayeredDrawing.Proofs.Workspace.Outcome

/-!
# Cleaning all routes

Cleaning gives every edge the cleaned bends, changes nothing else and answers how many bends went
(`leads_cleanRoutes_cleaned`).  No two edges of a sound workspace share their bends, so each route is
cleaned once.
-/

namespace LayeredDrawing

variable {α : Type}

/-- where a node stands, if the graph has it -/
def Graph.position? (g : Graph α) (id : NodeId) : Option (Point α) :=
  (g.nodes.get? id).map Node.position

theorem Graph.exists_position? {g : Graph α} {id : NodeId} (h : id ∈ g.nodeIds) :
    ∃ n, g.node id = .ok n ∧ g.position? id = some n.position := by
  obtain ⟨n, hn⟩ := OrderedMap.exists_get?_of_mem h
  exact ⟨n, Graph.node_eq_ok_iff.2 hn, by rw [position?, hn]; rfl⟩

variable [Metric α]

/-- the route of an edge in the second workspace is the cleaned one of the first -/
def CleanedAt (tol : α) (v u : Workspace α) (e : Edge) : Prop :=
  ∃ p q, v.graph.position? e.source = some p ∧ v.graph.position? e.target = some q ∧
    Route.clean tol p (v.bends.get e.slot) q = .ok (u.bends.get e.slot)

/-- the route of an edge cannot be cleaned -/
def UncleanAt (tol : α) (v : Workspace α) (e : Edge) : Prop :=
  ∃ p q fault, v.graph.position? e.source = some p ∧ v.graph.position? e.target = some q ∧
    Route.clean tol p (v.bends.get e.slot) q = .error fault

theorem CleanedAt.not_uncleanAt {tol : α} {v u : Workspace α} {e : Edge} (hclean : CleanedAt tol v u e) :
    ¬ UncleanAt tol v e := by
  intro hx
  obtain ⟨p, q, fault, hp, hq, hfault⟩ := hx
  obtain ⟨p', q', hp', hq', hok⟩ := hclean
  rw [hp] at hp'
  rw [hq] at hq'
  rw [← Option.some.inj hp', ← Option.some.inj hq', hfault] at hok
  cases hok

/-- over the rationals every route can be cleaned -/
theorem not_uncleanAt {tol : Rat} (htol : 0 ≤ tol) (v : Workspace Rat) (e : Edge) :
    ¬ UncleanAt tol v e := by
  intro hx
  obtain ⟨p, q, fault, _, _, hfault⟩ := hx
  obtain ⟨kept, hkept⟩ := clean_of_nonneg htol p (v.bends.get e.slot) q
  rw [hkept] at hfault
  cases hfault

/-- how many bends the edges of the list have lost from the first workspace to the second -/
def bendsLost (v u : Workspace α) (l : List Edge) : Nat :=
  (l.map fun e => (v.bends.get e.slot).length - (u.bends.get e.slot).length).sum

/-- from `v` to `u` the routes of the edges `done` are cleaned, and nothing else changes -/
structure Cleaned (tol : α) (v : Workspace α) (done : List Edge) (u : Workspace α) : Prop where
  graph : u.graph = v.graph
  fresh : u.bends.fresh = v.bends.fresh
  cleaned : ∀ e ∈ done, CleanedAt tol v u e
  others : ∀ slot, slot ∉ done.map Edge.slot → u.bends.get slot = v.bends.get slot

theorem cleaned_nil (tol : α) (v : Workspace α) : Cleaned tol v [] v where
  graph := rfl
  fresh := rfl
  cleaned _ he := (List.not_mem_nil he).elim
  others _ _ := rfl

/-- one more route, whose bends no edge done before has -/
theorem Cleaned.snoc {tol : α} {v u u' : Workspace α} {done : List Edge} {e : Edge}
    (h : Cleaned tol v done u) (he : e.slot ∉ done.map Edge.slot) (hstep : Cleaned tol u [e] u') :
    Cleaned tol v (done ++ [e]) u' ∧ bendsLost v u' (done ++ [e]) = bendsLost v u done
      + ((u.bends.get e.slot).length - (u'.bends.get e.slot).length) := by
  have hkept {a : Edge} (ha : a ∈ done) : u'.bends.get a.slot = u.bends.get a.slot := by
    refine hstep.others _ fun hmem => he ?_
    rw [List.map_singleton, List.mem_singleton] at hmem
    exact hmem ▸ List.mem_map_of_mem ha
  refine ⟨⟨hstep.graph.trans h.graph, hstep.fresh.trans h.fresh, fun a ha => ?_, fun slot hslot => ?_⟩,
    ?_⟩
  · rcases List.mem_append.1 ha with ha | ha
    · obtain ⟨p, q, hp, hq, hok⟩ := h.cleaned a ha
      exact ⟨p, q, hp, hq, by rw [hkept ha]; exact hok⟩
    · obtain ⟨p, q, hp, hq, hok⟩ := hstep.cleaned a ha
      rw [h.graph] at hp hq
      rw [List.mem_singleton.1 ha, h.others _ he] at hok
      exact ⟨p, q, hp, hq, by rw [List.mem_singleton.1 ha]; exact hok⟩
  · rw [List.map_append, List.mem_append, not_or] at hslot
    rw [hstep.others slot hslot.2, h.others slot hslot.1]
  · have hdone : bendsLost v u' done = bendsLost v u done := by
      refine congrArg List.sum (List.map_congr_left fun a ha => ?_)
      rw [hkept ha]
    rw [← hdone, h.others e.slot he]
    simp [bendsLost]

namespace Action

theorem leads_cleanRoute_cleaned (tol : α) {v : Workspace α} {e : Edge} (hg : v.graph.Coherent)
    (he : e ∈ v.graph.arcs) (hslot : e.slot < v.bends.fresh) :
    (cleanRoute tol e).Leads v
      (fun n u => Cleaned tol v [e] u ∧
        n = (v.bends.get e.slot).length - (u.bends.get e.slot).length)
      fun fault _ => fault = .divisionByZero ∧ UncleanAt tol v e := by
  obtain ⟨m, hm, hp⟩ := Graph.exists_position? (hg.source_mem e he)
  obtain ⟨n, hn, hq⟩ := Graph.exists_position? (hg.target_mem e he)
  unfold cleanRoute
  refine leads_bind (leads_of_perform_ok (perform_bendsOf e v) ?_)
  split
  · rename_i hempty
    refine leads_pure ⟨⟨rfl, rfl, fun a ha => ?_, fun _ _ => rfl⟩, by simp⟩
    rw [List.mem_singleton.1 ha]
    exact ⟨_, _, hp, hq, by rw [List.isEmpty_iff.1 hempty]; rfl⟩
  · refine leads_bind (leads_ask_ok hm (leads_bind (leads_ask_ok hn ?_)))
    refine leads_bind (leads_check (fun kept hkept => ?_) fun fault hfault =>
      ⟨raises_clean tol _ _ _ fault hfault, _, _, fault, hp, hq, hfault⟩)
    have hget : (v.bends.set e.slot kept).get e.slot = kept := Bends.get_set_self hslot kept
    refine leads_bind (leads_of_perform_ok (perform_setBends e kept v) (leads_pure ⟨⟨rfl,
      Bends.fresh_set .., fun a ha => ?_, fun slot hne => ?_⟩, ?_⟩))
    · rw [List.mem_singleton.1 ha]
      exact ⟨_, _, hp, hq, hkept.trans (congrArg Except.ok hget.symm)⟩
    · exact Bends.get_set_of_ne (fun heq => hne (by simp [heq])) kept
    · rw [hget]

theorem leads_cleanRoutes_cleaned {tol : α} {v : Workspace α} {known : List Edge}
    (hv : v.Sound known) :
    (cleanRoutes tol).Leads v
      (fun removed u => Cleaned tol v v.graph.edges u ∧ removed = bendsLost v u v.graph.edges)
      fun fault _ => fault = .divisionByZero ∧ ∃ e ∈ v.graph.arcs, UncleanAt tol v e := by
  have hperm := hv.coherent.perm_edges
  have hmem {e : Edge} (he : e ∈ v.graph.edges) : e ∈ known :=
    hv.known_of_mem e (hperm.mem_iff.1 he)
  have hslots : (v.graph.edges.map Edge.slot).Nodup :=
    (hperm.nodup_iff.2 hv.coherent.nodup).map_on fun a ha b hb => hv.slot_inj a (hmem ha) b (hmem hb)
  unfold cleanRoutes
  refine leads_bind (leads_ask_ok rfl ?_)
  refine leads_foldlM v.graph.edges
    (fun done _ removed u => Cleaned tol v done u ∧ removed = bendsLost v u done)
    ⟨cleaned_nil tol v, rfl⟩ fun done e left removed u hall hI => ?_
  obtain ⟨hdone, hremoved⟩ := hI
  have he : e ∈ v.graph.edges := hall ▸ List.mem_append_right done List.mem_cons_self
  have hnot : e.slot ∉ done.map Edge.slot := fun hin => by
    rw [← hall, List.map_append, List.map_cons] at hslots
    exact (List.nodup_append.1 hslots).2.2 _ hin _ List.mem_cons_self rfl
  have hclean := leads_cleanRoute_cleaned tol (v := u) (e := e)
    (by rw [hdone.graph]; exact hv.coherent) (by rw [hdone.graph]; exact hperm.mem_iff.1 he)
    (by rw [hdone.fresh]; exact hv.slot_lt e (hmem he))
  have hback (hunclean : UncleanAt tol u e) : UncleanAt tol v e := by
    obtain ⟨p, q, fault, hp, hq, hfault⟩ := hunclean
    rw [hdone.graph] at hp hq
    rw [hdone.others _ hnot] at hfault
    exact ⟨p, q, fault, hp, hq, hfault⟩
  refine leads_bind (hclean.mono (fun n u' hu' => leads_pure ?_) fun _ _ hunclean =>
    ⟨hunclean.1, e, hperm.mem_iff.1 he, hback hunclean.2⟩)
  obtain ⟨hcleaned, hlost⟩ := hdone.snoc hnot hu'.1
  exact ⟨hcleaned, by rw [hlost, hremoved, hu'.2]⟩

end Action

end LayeredDrawing
