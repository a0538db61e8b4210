import LayeredDrawing.Proofs.Drawing.Run

/-!
# The course of a drawing

`Course c w t u` holds what comes between the first four phases of a drawing, and each phase has left
behind what its own theorem says.

* `exists_course`      a preparation has a course;
* `Course.expanded`, `Course.ordered`, `Course.positioned`   the chains stand in for their edges all
                       the time;
* `trace_eq`           the reports of a drawing.
-/

namespace LayeredDrawing

section
variable {α : Type} [Metric α] {c : Config α} {s t : Snapshot} {w u v : Workspace α}

theorem runPhases_cons_ok_iff {phase : Phase} {rest : List Phase} :
    (runPhases c (phase :: rest) s).perform w = (.ok t, v) ↔
      ∃ r u, (phase.apply c s).perform w = (.ok r, u) ∧
        (runPhases c rest r).perform u = (.ok t, v) := by
  rw [runPhases_cons]
  constructor
  · intro h
    rcases hp : (phase.apply c s).perform w with ⟨r | r, u⟩
    · rw [Action.perform_bind_error hp] at h
      cases h
    · rw [Action.perform_bind_ok hp] at h
      exact ⟨r, u, rfl, h⟩
  · intro hx
    obtain ⟨r, u, hp, hrest⟩ := hx
    rw [Action.perform_bind_ok hp, hrest]

theorem traceFrom_cons_of_ok (phase : Phase) (rest : List Phase)
    (h : (phase.apply c s).perform w = (.ok t, u)) :
    traceFrom c (phase :: rest) s w = ⟨phase, .ok t, u⟩ :: traceFrom c rest t u := by
  rw [traceFrom, h]

end

/-- what each phase up to the placement makes of what it gets -/
structure Course {α : Type} [Scalar α] (c : Config α) (w : Workspace α) (t : Snapshot)
    (u : Workspace α) where
  (s₁ s₂ s₃ : Snapshot)
  (v₁ v₂ v₃ : Workspace α)
  layering : (Action.putInLayers c .initial).perform w = (.ok s₁, v₁)
  expansion : (Action.subdivide c s₁).perform v₁ = (.ok s₂, v₂)
  ordering : (Action.reorder c s₂).perform v₂ = (.ok s₃, v₃)
  placement : (Action.place c s₃).perform v₃ = (.ok t, u)

section
variable {α : Type} [Metric α] {c : Config α} {w u v : Workspace α} {s t : Snapshot}

theorem exists_course (h : (runPhases c Phase.preparation .initial).perform w = (.ok t, u)) :
    Nonempty (Course c w t u) := by
  obtain ⟨s₁, v₁, h₁, h⟩ := runPhases_cons_ok_iff.1 h
  obtain ⟨s₂, v₂, h₂, h⟩ := runPhases_cons_ok_iff.1 h
  obtain ⟨s₃, v₃, h₃, h⟩ := runPhases_cons_ok_iff.1 h
  obtain ⟨s₄, v₄, h₄, h⟩ := runPhases_cons_ok_iff.1 h
  cases h
  exact ⟨⟨s₁, s₂, s₃, v₁, v₂, v₃, h₁, h₂, h₃, h₄⟩⟩

theorem Course.trace_eq (k : Course c w t u) (h : (Action.restoreEdges c t).perform u = (.ok s, v)) :
    trace c w = [⟨.layering, .ok k.s₁, k.v₁⟩, ⟨.expansion, .ok k.s₂, k.v₂⟩,
      ⟨.ordering, .ok k.s₃, k.v₃⟩, ⟨.placement, .ok t, u⟩, ⟨.reconstruction, .ok s, v⟩] := by
  unfold trace Phase.all
  rw [traceFrom_cons_of_ok .layering _ k.layering, traceFrom_cons_of_ok .expansion _ k.expansion,
    traceFrom_cons_of_ok .ordering _ k.ordering, traceFrom_cons_of_ok .placement _ k.placement,
    traceFrom_cons_of_ok .reconstruction _ h]
  rfl

end

/-! ## what the phases have done -/

section
variable {α : Type} [Scalar α] {c : Config α} {w u : Workspace α} {t : Snapshot} {known : List Edge}
  (k : Course c w t u) (hw : w.Sound known)
include k hw

theorem Course.layered : Layered c w k.s₁ k.v₁ :=
  (Action.leads_putInLayers c hw.coherent.joined).of_ok k.layering

theorem Course.expanded : k.s₂.stage = .expanded ∧ Expanded c w k.s₁.layers k.s₂ k.v₂ ∧
    listChains k.s₁.layers k.s₂.chains.values k.s₁.arrangement = .ok k.s₂.arrangement :=
  (Action.leads_subdivide hw (k.layered hw)).of_ok k.expansion

theorem Course.ordered : Redrawn k.v₂ k.v₃ ∧
    (∃ lists, bestArrangement k.v₂.graph c k.s₂.arrangement = .ok lists ∧
      k.s₃ = { k.s₂ with stage := .ordered, arrangement := lists }) ∧
    Expanded c w k.s₁.layers k.s₃ k.v₃ :=
  (Action.leads_reorder (k.expanded hw).1 (k.expanded hw).2.1).of_ok k.ordering

theorem Course.stage_ordered : k.s₃.stage = .ordered := by
  obtain ⟨_, ⟨lists, _, hs⟩, _⟩ := k.ordered hw
  rw [hs]

theorem Course.positioned : t = { k.s₃ with stage := .positioned } ∧
    Expanded c w k.s₁.layers t u ∧ Positioned c k.v₃ k.s₃ u :=
  (Action.leads_place (k.stage_ordered hw) (k.ordered hw).2.2).of_ok k.placement

theorem Course.stage_positioned : t.stage = .positioned := by
  rw [(k.positioned hw).1]

/-- placement keeps the arrangement that ordering has found -/
theorem Course.arrangement_eq : t.arrangement = k.s₃.arrangement := by
  have harrangement := congrArg Snapshot.arrangement (k.positioned hw).1
  exact harrangement

theorem Course.bestArrangement_eq :
    bestArrangement k.v₂.graph c k.s₂.arrangement = .ok t.arrangement := by
  obtain ⟨_, ⟨lists, hbest, hs⟩, _⟩ := k.ordered hw
  rw [k.arrangement_eq hw, hs]
  exact hbest

end

end LayeredDrawing
