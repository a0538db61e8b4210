import LayeredDrawing.Proofs.Graph.Coherent
import LayeredDrawing.Proofs.Graph.Cycle

/-!
# The search for a cycle finds one

A node is done if every chain of edges from it comes to an end (`Done`).  While a walk is read, each
edge of the graph is still ahead, or leads to a node that is done, or joins two neighbours on the
stack; so a node without an edge ahead is done when the walk leaves it.  A search that reports nothing
has explored every node, and then no node lies on a cycle.

* `Exploring`             what holds while a walk is read, with one lemma for each of its steps;
* `done_of_follow`        the nodes of a walk that closes no cycle are done;
* `someCycle_eq_nil_iff`  the search reports nothing exactly in acyclic graphs.
-/

namespace LayeredDrawing

/-- every chain of edges from the node comes to an end -/
def Done (arcs : List Edge) (id : NodeId) : Prop := Acc (fun b a => Adjacent arcs a b) id

theorem Done.not_transGen {arcs : List Edge} {id : NodeId} (h : Done arcs id) :
    ¬ Relation.TransGen (Adjacent arcs) id id := by
  induction h with
  | intro a _ ih =>
    intro hloop
    -- the cycle can be entered one edge later
    obtain ⟨b, hab, hba⟩ := Relation.TransGen.head'_iff.1 hloop
    exact ih b hab (Relation.TransGen.tail' hba hab)

/-- a walk with its stack, and the edges that it has not taken yet -/
structure Exploring (arcs : List Edge) (stack : List NodeId) (ahead : List Edge) (t : Trail) :
    Prop where
  valid : t.Valid arcs
  active : ∃ gone, t.active = gone ++ stack
  first : t.position = none → t.active.length = 1
  ahead_mem : ∀ e ∈ ahead, e ∈ arcs
  cases : ∀ e ∈ arcs, e ∈ ahead ∨ Done arcs e.target ∨
    ∃ above below, stack = above ++ e.target :: e.source :: below
  seen : ∀ id ∈ t.seen, Done arcs id ∨ id ∈ stack

/-- edges that are not ahead of a new walk lead to nodes explored before -/
theorem exploring_start {arcs ahead : List Edge} (hmem : ∀ e ∈ ahead, e ∈ arcs)
    (hdone : ∀ e ∈ arcs, e ∈ ahead ∨ Done arcs e.target) (node : NodeId) :
    Exploring arcs [node] ahead (Trail.start node) where
  valid := Trail.valid_start arcs node
  active := ⟨[], rfl⟩
  first _ := rfl
  ahead_mem := hmem
  cases e he := (hdone e he).imp_right .inl
  seen _ hid := .inr hid

section
variable {arcs ahead : List Edge} {node : NodeId} {below : List NodeId} {t u : Trail}

theorem Exploring.nodup {stack : List NodeId} (h : Exploring arcs stack ahead t) : stack.Nodup := by
  obtain ⟨base, hpath⟩ := h.valid.path
  obtain ⟨gone, hactive⟩ := h.active
  have hnodup := hpath.nodup
  rw [hactive] at hnodup
  exact (List.nodup_append.1 hnodup).2.1

/-- a node without an edge ahead is done when the walk leaves it -/
theorem Exploring.done_top (h : Exploring arcs (node :: below) ahead t)
    (hnone : ∀ e ∈ ahead, e.source ≠ node) : Done arcs node := by
  have hnodup := h.nodup
  refine Acc.intro node fun b hb => ?_
  obtain ⟨e, he, rfl, rfl⟩ := hb
  rcases h.cases e he with hahead | hdone | ⟨above, rest, hstack⟩
  · exact absurd rfl (hnone e hahead)
  · exact hdone
  -- nothing stands above the top of the stack
  · have hsplit : e.source :: below = (above ++ [e.target]) ++ e.source :: rest := by
      rw [hstack, List.append_assoc, List.singleton_append]
    have hhead : ((above ++ [e.target]) ++ e.source :: rest).head? = some e.source := by
      rw [← hsplit, List.head?_cons]
    rw [hsplit] at hnodup
    exact absurd (eq_nil_of_head? hnodup hhead) (List.append_ne_nil_of_right_ne_nil _ (by simp))

theorem Exploring.pop (h : Exploring arcs (node :: below) ahead t)
    (hnone : ∀ e ∈ ahead, e.source ≠ node) : Exploring arcs below ahead t := by
  have hdone := h.done_top hnone
  obtain ⟨gone, hactive⟩ := h.active
  refine ⟨h.valid, ⟨gone ++ [node], by rw [hactive, List.append_assoc]; rfl⟩, h.first,
    h.ahead_mem, fun e he => ?_, fun id hid => ?_⟩
  · rcases h.cases e he with hahead | htarget | ⟨above, rest, hstack⟩
    · exact .inl hahead
    · exact .inr (.inl htarget)
    · cases above with
      | nil =>
        obtain ⟨rfl, _⟩ := List.cons.inj hstack
        exact .inr (.inl hdone)
      | cons a above => exact .inr (.inr ⟨above, rest, (List.cons.inj hstack).2⟩)
  · rcases h.seen id hid with hid | hid
    · exact .inl hid
    · rcases List.mem_cons.1 hid with rfl | hid
      · exact .inl hdone
      · exact .inr hid

/-- the first edge of a walk starts where the trail does -/
theorem Exploring.head?_active (h : Exploring arcs (node :: below) ahead t)
    (hnone : t.position = none) : t.active.head? = some node := by
  obtain ⟨gone, hactive⟩ := h.active
  have hone := h.first hnone
  rw [hactive, List.length_append, List.length_cons] at hone
  rw [hactive, List.eq_nil_of_length_eq_zero (by omega : gone.length = 0)]
  rfl

theorem Exploring.push {e : Edge} (h : Exploring arcs (node :: below) ahead t) (he : e ∈ ahead)
    (hsource : e.source = node) (hstep : t.step e = .inr u) :
    Exploring arcs (e.target :: node :: below) (ahead.erase e) u ∧ u.seen = e.target :: t.seen := by
  subst hsource
  obtain ⟨gone, hactive⟩ := h.active
  have hhead : t.position = none → t.active.head? = some e.source := h.head?_active
  have hvalid := Trail.step_spec h.valid (h.ahead_mem e he) hhead
  rw [hstep] at hvalid
  obtain ⟨path, active, _, _, _, hback, heq⟩ := Trail.exists_step h.valid hhead
  rw [hstep, hback gone below hactive] at heq
  split at heq
  · cases heq
  · obtain rfl := Sum.inr.inj heq
    refine ⟨⟨hvalid.1, ⟨[], rfl⟩, fun hn => absurd hn hvalid.2,
      fun a ha => h.ahead_mem a (List.mem_of_mem_erase ha), fun a ha => ?_, fun id hid => ?_⟩, rfl⟩
    · by_cases hae : a = e
      · subst hae
        exact .inr (.inr ⟨[], below, rfl⟩)
      · rcases h.cases a ha with hahead | htarget | ⟨above, rest, hstack⟩
        · exact .inl ((List.mem_erase_of_ne hae).2 hahead)
        · exact .inr (.inl htarget)
        · exact .inr (.inr ⟨e.target :: above, rest, by rw [hstack]; rfl⟩)
    · rcases List.mem_cons.1 hid with rfl | hid
      · exact .inr List.mem_cons_self
      · exact (h.seen id hid).imp_right (List.mem_cons_of_mem _)

end

/-- a walk that closes no cycle leaves only nodes behind that are done -/
theorem Exploring.done_of_follow {arcs ahead : List Edge} {stack : List NodeId} {t u : Trail}
    (h : Exploring arcs stack ahead t) (hu : t.follow (edgeWalk stack ahead) = .inr u) :
    (∀ id ∈ u.seen, Done arcs id) ∧ ∀ id ∈ t.seen, id ∈ u.seen := by
  fun_induction edgeWalk stack ahead generalizing t with
  | case1 =>
    obtain rfl := Sum.inr.inj hu
    exact ⟨fun id hid => (h.seen id hid).resolve_right List.not_mem_nil, fun _ hid => hid⟩
  | case2 ahead node below hnone ih =>
    refine ih (h.pop fun e he => ?_) hu
    simpa using List.find?_eq_none.1 hnone e he
  | case3 ahead node below e hfind ih =>
    have hsource : e.source = node := by simpa using List.find?_some hfind
    rw [Trail.follow] at hu
    split at hu
    · cases hu
    · rename_i t' hstep
      obtain ⟨hnext, hseen⟩ := h.push (List.mem_of_find?_eq_some hfind) hsource hstep
      obtain ⟨hdone, hkept⟩ := ih hnext hu
      exact ⟨hdone, fun id hid => hkept id (hseen ▸ List.mem_cons_of_mem _ hid)⟩

namespace Graph

variable {α : Type} {g : Graph α}

theorem done_of_cycleFrom {explored nodes : List NodeId}
    (hexplored : ∀ id ∈ explored, Done g.arcs id) (h : g.cycleFrom explored nodes = []) :
    ∀ id ∈ nodes, Done g.arcs id := by
  induction nodes generalizing explored with
  | nil => exact fun id hid => by cases hid
  | cons node rest ih =>
    have hcons (hnode : Done g.arcs node) (hrest : ∀ id ∈ rest, Done g.arcs id) :
        ∀ id ∈ node :: rest, Done g.arcs id := List.forall_mem_cons.2 ⟨hnode, hrest⟩
    rw [cycleFrom] at h
    split at h
    · rename_i hnode
      exact hcons (hexplored node hnode) (ih hexplored h)
    · dsimp only at h
      split at h
      · rename_i cycle hcycle
        obtain rfl := h
        exact absurd rfl (isCycle_of_follow (fun e he => (List.mem_filter.1 he).1) hcycle).nonempty
      · rename_i u hu
        have hstart : Exploring g.arcs [node] (g.arcs.filter fun e => e.target ∉ explored)
            (Trail.start node) := by
          refine exploring_start (fun e he => (List.mem_filter.1 he).1) (fun e he => ?_) node
          by_cases ht : e.target ∈ explored
          · exact .inr (hexplored _ ht)
          · exact .inl (List.mem_filter.2 ⟨he, decide_eq_true ht⟩)
        obtain ⟨hdone, hkept⟩ := hstart.done_of_follow hu
        refine hcons (hdone node (hkept node List.mem_cons_self)) (ih (fun id hid => ?_) h)
        rcases List.mem_append.1 hid with hid | hid
        · exact hdone id hid
        · exact hexplored id hid

/-- the search reports nothing exactly if there is nothing to report -/
theorem someCycle_eq_nil_iff (hg : g.Joined) : g.someCycle = [] ↔ g.Acyclic := by
  refine ⟨fun h id hid => ?_, someCycle_of_acyclic⟩
  obtain ⟨b, ⟨e, he, rfl, _⟩, _⟩ := Relation.TransGen.head'_iff.1 hid
  have hstart : ∀ id ∈ ([] : List NodeId), Done g.arcs id := fun _ hm => absurd hm List.not_mem_nil
  have hdone := done_of_cycleFrom hstart h
  exact (hdone e.source (hg e he).1).not_transGen hid

end Graph

end LayeredDrawing
