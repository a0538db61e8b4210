import LayeredDrawing.Proofs.Session.Parting
import LayeredDrawing.Proofs.Session.Stored
import LayeredDrawing.Scalar.Exact

/-!
# Copies as a point to return to

A graph is copied, and work goes on with the copy alone.  However that ends, the session still holds all
that it held before, as it was; and the same work with the graph in place of its copy would have been
answered alike, command for command.

* `Session.heldEdges`, `Session.KeptBy`   what a session holds, and that another holds it unchanged;
* `sessions_copyGraph`                    where the two sides of a parting start;
* `copy_independent`                      the copy and the graph.
-/

namespace LayeredDrawing

variable {α : Type}

/-! ## what a session holds -/

namespace Session

/-- the edges that can be reached from the session: those of its graphs, those in hand, and those in the
chains of its snapshots -/
def heldEdges (s : Session α) : List Edge :=
  (s.graphs.flatMap fun g => g.arcs ++ g.index.values) ++ s.edges ++ s.snapshots.flatMap fun x => x.2.edges

/-- all that the first session holds is in the second as it was, bends included -/
structure KeptBy (s t : Session α) : Prop where
  graphs : s.graphs <+: t.graphs
  edges : s.edges <+: t.edges
  snapshots : s.snapshots <+: t.snapshots
  bends : ∀ e ∈ s.heldEdges, t.bends.get e.slot = s.bends.get e.slot

theorem Stored.slot_lt {s : Session α} (h : s.Stored) {e : Edge} (he : e ∈ s.heldEdges) :
    e.slot < s.bends.fresh := by
  rcases List.mem_append.1 he with he | he
  · rcases List.mem_append.1 he with he | he
    · obtain ⟨g, hg, he⟩ := List.mem_flatMap.1 he
      rcases List.mem_append.1 he with he | he
      · exact (h.graphs g hg).arcs e he
      · exact (h.graphs g hg).index e he
    · exact h.edges e he
  · obtain ⟨x, hx, he⟩ := List.mem_flatMap.1 he
    obtain ⟨C, hC, he⟩ := List.mem_flatMap.1 he
    rcases List.mem_cons.1 he with rfl | he
    · exact (h.snapshots x hx C hC).edge
    · exact (h.snapshots x hx C hC).edges e he

end Session

theorem Parting.Sessions.keptBy {p : Parting α} {old s s' : Session α} {g : Nat}
    (h : p.Sessions old g s s') (hold : old.Stored) (hbase : p.base = old.bends) : old.KeptBy s where
  graphs := h.graphs.kept
  edges := h.edges.kept
  snapshots := h.snapshots.kept
  bends e he := by
    have hlt : e.slot < p.base.fresh := hbase ▸ hold.slot_lt he
    rw [h.bends.kept e.slot hlt, hbase]

/-! ## the copy -/

/-- a list with an answer to one of its members added -/
theorem grown_redirected {β : Type} {R : β → β → Prop} {l : List β} {g : Nat} {x y : β}
    (hget : l[g]? = some x) (hx : R y x) :
    Grown (redirected l.length g) R l (l ++ [y]) (l ++ [y]) where
  kept := List.prefix_append l [y]
  length := rfl
  later i hi := by
    have hg : g < l.length := (List.getElem?_eq_some_iff.1 hget).1
    rcases Nat.eq_or_lt_of_le hi with rfl | hlt
    · rw [redirected, if_pos rfl, List.getElem?_append_left hg, hget, List.getElem?_concat_length]
      exact .some hx
    · have hnone : (l ++ [y])[i]? = none := List.getElem?_eq_none (by rw [List.length_append]; exact hlt)
      rw [redirected, if_neg (by omega), hnone]
      exact .none
  fixed i hi := by
    have hlt : l.length + 1 ≤ i := by rwa [List.length_append] at hi
    exact if_neg (by omega)
  injective i j hi hj h := by
    have hg : g < l.length := (List.getElem?_eq_some_iff.1 hget).1
    unfold redirected at h
    split at h <;> split at h <;> omega

section
variable {s : Session α} {g : Nat} {graph : Graph α}

/-- the session right after copying -/
def Session.withCopy (s : Session α) (graph : Graph α) : Session α :=
  { s with
    graphs := s.graphs ++ [(s.workspace graph).copyGraph.graph]
    bends := (s.workspace graph).copyGraph.bends }

theorem step_copyGraph [Metric α] (hget : s.graphs[g]? = some graph) :
    Session.step (.copyGraph g) s = (.ok (.number s.graphs.length), s.withCopy graph) := by
  have hpick : SessionAction.pick s.graphs g = .ok (g, graph) := by
    rw [pick_natCast, hget]
    rfl
  exact SessionAction.run_copyGraph_of_pick hpick

theorem sessions_copyGraph (hget : s.graphs[g]? = some graph) (h : (s.workspace graph).Stored) :
    ((s.workspace graph).parting h).Sessions s g (s.withCopy graph) (s.withCopy graph) where
  graphs := grown_redirected hget (Workspace.graphs_copyGraph h)
  edges := grown_refl _ _
  snapshots := grown_refl _ _
  bends := Workspace.stores_copyGraph h

end

variable [Metric α]

/-- In whatever session a graph is copied: work that names only the copy and what came after it leaves
all that the session held as it was.  The same work with the graph in place of its copy has the same
answers and the same refusals, in the same order. -/
theorem copy_independent (before : List (Command α)) {s : Session α}
    (hs : s = (Session.run before .initial).2) {g : Nat} (hg : g < s.graphs.length)
    {cs : List (Command α)} (hcs : ∀ c ∈ cs, c.After s) :
    ∃ s₁, Session.step (.copyGraph g) s = (.ok (.number s.graphs.length), s₁) ∧
      s.KeptBy (Session.run cs s₁).2 ∧
      (Session.run (cs.map (Command.redirect s.graphs.length g)) s₁).1.map answerSeen
        = (Session.run cs s₁).1.map answerSeen := by
  have hstored : s.Stored := hs ▸ Session.stored_initial.run before
  have hget : s.graphs[g]? = some s.graphs[g] := List.getElem?_eq_getElem hg
  have hgraph : (s.workspace s.graphs[g]).Stored := hstored.graphs _ (List.getElem_mem hg)
  have hstart := sessions_copyGraph hget hgraph
  obtain ⟨hanswers, hend⟩ := Parting.run_parting hstart hcs
  exact ⟨_, step_copyGraph hget, hend.keptBy hstored rfl, hanswers⟩

/-! ## an attempt that fails -/

/-- three nodes, a path through them, and an edge from the first to the last -/
def sketch : List (Command Rat) :=
  [.addNode 0 (.int 1) (.unplaced "" none), .addNode 0 (.int 2) (.unplaced "" none),
    .addNode 0 (.int 3) (.unplaced "" none), .addEdge 0 (.int 1) (.int 2) false,
    .addEdge 0 (.int 2) (.int 3) false, .addEdge 0 (.int 1) (.int 3) false]

/-- A copy is drawn up to the last phase.  With its intermediate node gone, the hidden edge comes back and
the phase stops there: the copy is left half changed. -/
def attempt : List (Command Rat) :=
  [.newSnapshot 1 "UNLAIDOUT" [] [], .phase 0 .layering [], .phase 1 .expansion [],
    .phase 2 .ordering [.seed none], .phase 3 .placement [], .removeNode 1 (.dummy 2 1),
    .phase 4 .reconstruction [], .findEdge 1 2, .addBend 3 ⟨5, 6⟩]

theorem copy_independent_attempt :
    0 < (Session.run sketch .initial).2.graphs.length ∧
    (∀ c ∈ attempt, c.After (Session.run sketch .initial).2) ∧
    ∃ s₁, Session.step (.copyGraph 0) (Session.run sketch .initial).2 = (.ok (.number 1), s₁) ∧
      (Session.run attempt s₁).1.map Except.toBool
        = [true, true, true, true, true, true, false, true, true] ∧
      (Session.run sketch .initial).2.KeptBy (Session.run attempt s₁).2 ∧
      (Session.run (attempt.map (Command.redirect 1 0)) s₁).1.map answerSeen
        = (Session.run attempt s₁).1.map answerSeen := by
  have hone : (Session.run sketch .initial).2.graphs.length = 1 := by decide +kernel
  have hzero : 0 < (Session.run sketch .initial).2.graphs.length := by omega
  have hafter : ∀ c ∈ attempt, c.After (Session.run sketch .initial).2 := by decide +kernel
  have hends : (Session.run attempt
      (Session.step (.copyGraph 0) (Session.run sketch .initial).2).2).1.map Except.toBool
        = [true, true, true, true, true, true, false, true, true] := by decide +kernel
  obtain ⟨s₁, hcopy, hkept, hanswers⟩ := copy_independent sketch rfl hzero hafter
  have hcopied : (Session.step (.copyGraph 0) (Session.run sketch .initial).2).2 = s₁ :=
    congrArg Prod.snd hcopy
  rw [hcopied] at hends
  rw [hone] at hcopy hanswers
  exact ⟨hzero, hafter, s₁, hcopy, hends, hkept, hanswers⟩

end LayeredDrawing
