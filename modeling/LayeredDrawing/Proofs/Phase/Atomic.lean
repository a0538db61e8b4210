import LayeredDrawing.Proofs.Drawing.Success
import LayeredDrawing.Proofs.Fault.Carried
import LayeredDrawing.Proofs.Phase.Refusal

/-!
# Phases that are refused change nothing

A phase may be given any snapshot at all: one that was made up, or one that the graph has moved on from.
If the phase finds a cycle or a broken invariant, the graph and all bends are what they were before.
This says nothing of the plain faults: the phase may come upon them halfway, and what it has done by then
stays done.

* `perform_apply_of_stage_ne`   a snapshot at another stage is refused at once;
* `apply_atomic`                each phase is refused before it begins, or goes on to the next stage;
* `flatSnapshot`                a snapshot made up, with every node in one layer.
-/

namespace LayeredDrawing

open LayeredDrawing.Action

theorem Fault.not_plain_of_kind {fault : Fault} (h : fault.kind = .cycle ∨ fault.kind = .invariant) :
    ¬ fault.isPlain = true := by
  intro hplain
  cases fault <;> simp_all [Fault.kind, Fault.isPlain]

section
variable {α : Type} [Metric α]

theorem perform_apply_of_stage_ne {phase : Phase} {s : Snapshot} (h : s.stage ≠ phase.expects)
    (c : Config α) (w : Workspace α) :
    (phase.apply c s).perform w = (.error (.stageMismatch phase.expects s.stage), w) := by
  have hstage : (check (s.requireStage phase.expects) : Action α Unit).perform w
      = (.error (.stageMismatch phase.expects s.stage), w) := by
    rw [perform_check, Snapshot.requireStage, if_neg h]
  cases phase <;> exact perform_bind_error hstage _

/-- Whatever the snapshot and the graph, a phase that is refused for a cycle or a broken invariant has
changed nothing; it is refused so at every stage but its own, and leads from that to the next one. -/
theorem apply_atomic (phase : Phase) (c : Config α) (s : Snapshot) (w : Workspace α) :
    (∀ fault v, (phase.apply c s).perform w = (.error fault, v) →
      fault.kind = .cycle ∨ fault.kind = .invariant → phase.Objects fault ∧ v = w) ∧
    (s.stage ≠ phase.expects →
      (phase.apply c s).perform w = (.error (.stageMismatch phase.expects s.stage), w)) ∧
    ∀ s' v, (phase.apply c s).perform w = (.ok s', v) →
      s.stage = phase.expects ∧ s.stage.next? = some s'.stage := by
  have hleads := leads_apply (I := fun _ => True) (fun _ _ _ => trivial) phase c s (w := w) trivial
  refine ⟨fun fault v hrefused hkind => ?_, fun hne => perform_apply_of_stage_ne hne c w,
    fun s' v hdone => ?_⟩
  · exact (hleads.of_error hrefused).2.resolve_left (Fault.not_plain_of_kind hkind)
  · have hstage : s.stage = phase.expects := by
      by_contra hne
      rw [perform_apply_of_stage_ne hne] at hdone
      cases hdone
    refine ⟨hstage, ?_⟩
    rw [hstage]
    exact (hleads.of_ok hdone).2

end

/-! ## a snapshot made up -/

/-- the nodes of the triangle, all in the lowest layer -/
def flatSnapshot : Snapshot :=
  ⟨.layered, .ofList [(.int 1, 0), (.int 2, 0), (.int 3, 0)], [[.int 1, .int 2, .int 3]], ∅⟩

theorem apply_atomic_flatSnapshot :
    (∃ e span, (Phase.expansion.apply wideConfig flatSnapshot).perform triangle
      = (.error (.spanBelowOne e span), triangle)) ∧
    (flatSnapshot.stage ≠ Phase.ordering.expects ∧
      (Phase.ordering.apply wideConfig flatSnapshot).perform triangle
        = (.error (.stageMismatch .expanded .layered), triangle)) ∧
    ∃ s v, (Phase.layering.apply wideConfig .initial).perform triangle = (.ok s, v) ∧
      s.stage = .layered := by
  refine ⟨?_, ?_, ?_⟩
  · have hrun : (match ((Phase.expansion.apply wideConfig flatSnapshot).perform triangle).1 with
        | .error fault => decide (fault = .spanBelowOne ⟨0, 0, .int 1, .int 2, false⟩ 0)
        | .ok _ => false) = true := by decide +kernel
    rcases hphase : (Phase.expansion.apply wideConfig flatSnapshot).perform triangle with ⟨fault | s, v⟩
    · rw [hphase] at hrun
      obtain rfl := of_decide_eq_true hrun
      obtain ⟨_, rfl⟩ := (apply_atomic .expansion wideConfig flatSnapshot triangle).1 _ v hphase (.inr rfl)
      exact ⟨_, _, rfl⟩
    · rw [hphase] at hrun
      cases hrun
  · have hne : flatSnapshot.stage ≠ Phase.ordering.expects := by decide
    exact ⟨hne, (apply_atomic .ordering wideConfig flatSnapshot triangle).2.1 hne⟩
  · have hrun : ((Phase.layering.apply wideConfig .initial).perform triangle).1.toOption.isSome = true := by
      decide +kernel
    rcases hphase : (Phase.layering.apply wideConfig .initial).perform triangle with ⟨fault | s, v⟩
    · rw [hphase] at hrun
      cases hrun
    · have hnext := ((apply_atomic .layering wideConfig .initial triangle).2.2 s v hphase).2
      exact ⟨s, v, rfl, (Option.some.inj hnext).symm⟩

end LayeredDrawing
