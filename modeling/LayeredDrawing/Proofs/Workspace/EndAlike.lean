import LayeredDrawing.Proofs.Fault.Carried
import LayeredDrawing.Proofs.Workspace.Outcome

/-!
# Actions that end alike

Two actions on two workspaces end alike if both are granted, with answers and workspaces that a given
relation allows, or both are refused, for faults of one kind.  What is known of each by itself, as
`Action.Leads` has it, is compared step by step.

* `EndAlike.bind`           one pair of actions after the other;
* `Action.Leads.endAlike`   two actions of which it is known how each of them ends.
-/

namespace LayeredDrawing

section
variable {α β β' γ γ' : Type}

/-- both actions give answers, so related with what they leave behind, or both are refused for faults
of one kind -/
def EndAlike (R : β → Workspace α → β' → Workspace α → Prop) :
    Except Fault β × Workspace α → Except Fault β' × Workspace α → Prop
  | (.ok b, v), (.ok b', v') => R b v b' v'
  | (.error fault, _), (.error fault', _) => fault'.kind = fault.kind
  | _, _ => False

section
variable {R : β → Workspace α → β' → Workspace α → Prop} {a : Action α β} {a' : Action α β'}
  {w w' : Workspace α}

theorem EndAlike.bind {S : γ → Workspace α → γ' → Workspace α → Prop} {f : β → Action α γ}
    {f' : β' → Action α γ'} (h : EndAlike R (a.perform w) (a'.perform w'))
    (hf : ∀ b v b' v', R b v b' v' → EndAlike S ((f b).perform v) ((f' b').perform v')) :
    EndAlike S ((a >>= f).perform w) ((a' >>= f').perform w') := by
  rcases hp : a.perform w with ⟨fault | b, v⟩ <;> rcases hp' : a'.perform w' with ⟨fault' | b', v'⟩ <;>
    rw [hp, hp'] at h
  · rw [Action.perform_bind_error hp, Action.perform_bind_error hp']
    exact h
  · exact h.elim
  · exact h.elim
  · rw [Action.perform_bind_ok hp, Action.perform_bind_ok hp']
    exact hf b v b' v' h

/-- what the relation says of the answers may use how the actions came by them -/
theorem EndAlike.imp {S : β → Workspace α → β' → Workspace α → Prop}
    (h : EndAlike R (a.perform w) (a'.perform w'))
    (hS : ∀ b v b' v', a.perform w = (.ok b, v) → a'.perform w' = (.ok b', v') → R b v b' v' →
      S b v b' v') : EndAlike S (a.perform w) (a'.perform w') := by
  rcases hp : a.perform w with ⟨fault | b, v⟩ <;> rcases hp' : a'.perform w' with ⟨fault' | b', v'⟩ <;>
    rw [hp, hp'] at h
  · exact h
  · exact h
  · exact h
  · exact hS b v b' v' hp hp' h

/-- two actions of which it is known how each of them ends -/
theorem Action.Leads.endAlike {Q : β → Workspace α → Prop} {Q' : β' → Workspace α → Prop}
    {E E' : Fault → Workspace α → Prop} (h : a.Leads w Q E) (h' : a'.Leads w' Q' E')
    (hok : ∀ b v b' v', Q b v → Q' b' v' → R b v b' v')
    (hfault : ∀ fault v fault' v', E fault v → E' fault' v' → fault'.kind = fault.kind)
    (hright : ∀ b v fault' v', Q b v → ¬ E' fault' v')
    (hleft : ∀ fault v b' v', E fault v → ¬ Q' b' v') :
    EndAlike R (a.perform w) (a'.perform w') := by
  rcases hp : a.perform w with ⟨fault | b, v⟩ <;> rcases hp' : a'.perform w' with ⟨fault' | b', v'⟩
  · exact hfault _ _ _ _ (h.of_error hp) (h'.of_error hp')
  · exact hleft _ _ _ _ (h.of_error hp) (h'.of_ok hp')
  · exact hright _ _ _ _ (h.of_ok hp) (h'.of_error hp')
  · exact hok _ _ _ _ (h.of_ok hp) (h'.of_ok hp')

theorem EndAlike.exists_ok (h : EndAlike R (a.perform w) (a'.perform w')) {b : β} {v : Workspace α}
    (hp : a.perform w = (.ok b, v)) : ∃ b' v', a'.perform w' = (.ok b', v') ∧ R b v b' v' := by
  rw [hp] at h
  rcases hp' : a'.perform w' with ⟨fault' | b', v'⟩ <;> rw [hp'] at h
  · exact h.elim
  · exact ⟨b', v', rfl, h⟩

end

end

end LayeredDrawing
