import LayeredDrawing.Proofs.Drawing.Success
import LayeredDrawing.Proofs.Phase.Refusal
import LayeredDrawing.Proofs.Workspace.Built

/-!
# Cyclic graphs are refused

A drawing is refused with a cycle exactly if the graph has one; what is reported is a cycle, and the
graph is left as it was.  This holds of any graph that public operations build, and of any
configuration.

* `perform_draw_of_someCycle`   a cycle found ends the drawing before anything is changed;
* `leads_runPhases_not_cyclic`  the phases after layering know nothing of cycles;
* `Built.drawn`                 a drawing leaves a built workspace behind;
* `draw_cyclic_iff`             all of it together.
-/

namespace LayeredDrawing

open LayeredDrawing.Action

theorem Graph.layering_of_someCycle_ne_nil {α : Type} {g : Graph α} (h : g.someCycle ≠ []) :
    g.layering = .error (.cyclic (g.someCycle.map Edge.ends)) := by
  unfold Graph.layering
  split
  · rename_i hnil
    exact absurd hnil h
  · rfl

variable {α : Type} [Metric α] {c : Config α} {w : Workspace α}

theorem perform_draw_of_someCycle (h : w.graph.someCycle ≠ []) :
    (draw c).perform w = (.error (.cyclic (w.graph.someCycle.map Edge.ends)), w) := by
  have hphase : (putInLayers c .initial).perform w
      = (.error (.cyclic (w.graph.someCycle.map Edge.ends)), w) := by
    have hstage : (check (Snapshot.initial.requireStage .unlaidOut) : Action α Unit).perform w
        = (.ok (), w) := rfl
    have hlayering : (ask Graph.layering).perform w
        = (.error (.cyclic (w.graph.someCycle.map Edge.ends)), w) := by
      rw [perform_ask, Graph.layering_of_someCycle_ne_nil h]
    exact (perform_bind_ok hstage _).trans (perform_bind_error hlayering _)
  rw [draw, Phase.all, runPhases_cons]
  exact perform_bind_error hphase _

theorem leads_runPhases_not_cyclic (c : Config α) {phases : List Phase} (h : .layering ∉ phases)
    (s : Snapshot) (w : Workspace α) : (runPhases c phases s).Leads w (fun _ _ => True)
      fun fault _ => ∀ cycle, fault ≠ .cyclic cycle := by
  induction phases generalizing s w with
  | nil => exact leads_pure trivial
  | cons phase rest ih =>
    rw [List.mem_cons, not_or] at h
    rw [runPhases_cons]
    refine leads_bind ((leads_apply (I := fun _ => True) (fun _ _ _ => trivial) phase c s trivial).mono
      (fun s' v _ => ih h.2 s' v) fun fault v hfault cycle hcycle => ?_)
    subst hcycle
    rcases hfault.2 with hplain | ⟨hobject, _⟩
    · cases hplain
    · cases phase with
      | layering => exact h.1 rfl
      | _ => exact hobject

/-- a run keeps what every public operation keeps, refused or not -/
theorem Kept.perform_runPhases {I : Workspace α → Prop} (hI : Kept I) (c : Config α)
    (phases : List Phase) (s : Snapshot) (h : I w) : I ((runPhases c phases s).perform w).2 := by
  refine leads_iff.1 ?_
  induction phases generalizing s w with
  | nil => exact leads_pure h
  | cons phase rest ih =>
    rw [runPhases_cons]
    exact leads_bind ((leads_apply hI phase c s h).mono (fun s' v hv => ih s' hv.1) fun _ v hv => hv.1)

/-- so what this module says holds again of what a drawing leaves behind -/
theorem Built.drawn (h : Built w) (c : Config α) : Built ((draw c).perform w).2 :=
  Kept.perform_runPhases (fun c _ h => h.change c) c Phase.all .initial h

/-- without a cycle in sight the drawing is refused for other reasons, if at all -/
theorem leads_draw_not_cyclic (c : Config α) (h : w.graph.someCycle = []) :
    (draw c).Leads w (fun _ _ => True) fun fault _ => ∀ cycle, fault ≠ .cyclic cycle := by
  obtain ⟨layers, hlayers, _⟩ := Graph.layering_of_someCycle h
  have hwrite : Regular (fun _ => True) (w.graph.nodeIds.forM (writeLayer c layers)) :=
    regular_forM fun id => regular_writeLayer (fun _ _ _ => trivial) c layers id
  rw [draw, Phase.all, runPhases_cons]
  refine leads_bind (leads_bind (leads_check_ok rfl (leads_bind (leads_ask_ok hlayers ?_))))
  refine leads_bind (leads_of_perform_ok rfl (leads_bind ?_))
  refine (hwrite w trivial).mono (fun _ v _ => leads_pure ?_) fun fault v hfault cycle hcycle => ?_
  · exact leads_runPhases_not_cyclic c (by decide) _ v
  · rw [hcycle] at hfault
    cases hfault.2

/-- the drawing of a graph is refused for a cycle exactly if there is one, and the graph stays as it
is -/
theorem draw_cyclic_iff (h : Built w) (c : Config α) :
    ((∃ cycle v, (draw c).perform w = (.error (.cyclic cycle), v)) ↔ ¬ w.graph.Acyclic) ∧
      (∀ cycle v, (draw c).perform w = (.error (.cyclic cycle), v) →
        IsCycle w.graph.arcs cycle ∧ v = w) ∧
      (w.graph.someCycle = [] ↔ w.graph.Acyclic) := by
  have hiff := w.graph.someCycle_eq_nil_iff h.joined
  have hfound {cycle : List (NodeId × NodeId)} {v : Workspace α}
      (hdraw : (draw c).perform w = (.error (.cyclic cycle), v)) : w.graph.someCycle ≠ [] :=
    fun hnil => (leads_draw_not_cyclic c hnil).of_error hdraw cycle rfl
  refine ⟨⟨fun hx hacyclic => ?_, fun hcyclic => ?_⟩, fun cycle v hdraw => ?_, hiff⟩
  · obtain ⟨cycle, v, hdraw⟩ := hx
    exact hfound hdraw (hiff.2 hacyclic)
  · exact ⟨_, w, perform_draw_of_someCycle fun hnil => hcyclic (hiff.1 hnil)⟩
  · have hcycle := hfound hdraw
    rw [perform_draw_of_someCycle hcycle] at hdraw
    obtain ⟨hfault, rfl⟩ := Prod.mk.inj hdraw
    obtain rfl := Fault.cyclic.inj (Except.error.inj hfault)
    exact ⟨Graph.isCycle_someCycle hcycle, rfl⟩

/-! ## two components -/

/-- an edge by itself, and beside it two nodes with three edges between them and one loop -/
def tangleChanges : List (Change Rat) :=
  [.addNode (.int 1) (.unplaced "" none), .addNode (.int 2) (.unplaced "" none),
    .addNode (.int 3) (.unplaced "" none), .addNode (.int 4) (.unplaced "" none),
    .addEdge (.int 1) (.int 2) false, .addEdge (.int 3) (.int 4) false,
    .addEdge (.int 4) (.int 3) false, .addEdge (.int 4) (.int 3) false,
    .addEdge (.int 4) (.int 4) false]

def tangle : Workspace Rat := tangleChanges.foldl (fun w c => c.after w) ⟨.empty, .empty⟩

theorem not_acyclic_tangle : ¬ tangle.graph.Acyclic := by
  have hloop : (⟨4, 4, .int 4, .int 4, false⟩ : Edge) ∈ tangle.graph.arcs := by decide +kernel
  exact fun hacyclic => hacyclic (.int 4) (.single ⟨_, hloop, rfl, rfl⟩)

theorem draw_tangle : Built tangle ∧ ¬ tangle.graph.Acyclic ∧
    ∃ cycle, (draw wideConfig).perform tangle = (.error (.cyclic cycle), tangle) ∧
      IsCycle tangle.graph.arcs cycle := by
  have hbuilt : Built tangle := (Built.start .empty).foldl tangleChanges
  obtain ⟨hiff, hrefused, _⟩ := draw_cyclic_iff hbuilt wideConfig
  obtain ⟨cycle, v, hdraw⟩ := hiff.2 not_acyclic_tangle
  obtain ⟨hcycle, hv⟩ := hrefused cycle v hdraw
  rw [hv] at hdraw
  exact ⟨hbuilt, not_acyclic_tangle, cycle, hdraw, hcycle⟩

end LayeredDrawing
