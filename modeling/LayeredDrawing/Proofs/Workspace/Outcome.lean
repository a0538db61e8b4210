import LayeredDrawing.Workspace

/-!
# Outcomes of actions

`a.Leads w Q E` says how the action `a` ends on the workspace `w`: if it is not refused, `Q` holds
of its answer and of the workspace afterwards; if it is refused, `E` holds of the fault and of the
workspace that it leaves behind.  There is one rule for each way of building an action, so a proof
about a phase follows the text of the phase.

* `leads_bind`              one action after the other;
* `leads_check_ok`, `leads_ask_ok`, `leads_edit_ok`   steps known not to be refused;
* `leads_forM`, `leads_foldlM`   lists of actions, by an invariant that may speak of the part of the
                            list that is done and of the part that is left.
-/

namespace LayeredDrawing.Action

variable {α β γ : Type}

/-- how an action ends: with an answer, or refused -/
def Leads (a : Action α β) (w : Workspace α) (Q : β → Workspace α → Prop)
    (E : Fault → Workspace α → Prop) : Prop :=
  match a.perform w with
  | (.ok b, v) => Q b v
  | (.error fault, v) => E fault v

section
variable {a : Action α β} {w v : Workspace α} {Q Q' : β → Workspace α → Prop}
  {E E' : Fault → Workspace α → Prop}

theorem Leads.of_ok (h : a.Leads w Q E) {b : β} (hp : a.perform w = (.ok b, v)) : Q b v := by
  unfold Leads at h
  rwa [hp] at h

theorem Leads.of_error (h : a.Leads w Q E) {fault : Fault}
    (hp : a.perform w = (.error fault, v)) : E fault v := by
  unfold Leads at h
  rwa [hp] at h

theorem leads_of_perform_ok {b : β} (hp : a.perform w = (.ok b, v)) (h : Q b v) :
    a.Leads w Q E := by
  unfold Leads
  rw [hp]
  exact h

theorem leads_of_perform_error {fault : Fault} (hp : a.perform w = (.error fault, v))
    (h : E fault v) : a.Leads w Q E := by
  unfold Leads
  rw [hp]
  exact h

/-- an action whose faults cannot occur gives an answer -/
theorem Leads.exists_ok (h : a.Leads w Q fun _ _ => False) :
    ∃ b v, a.perform w = (.ok b, v) ∧ Q b v := by
  unfold Leads at h
  rcases hp : a.perform w with ⟨b | b, v⟩
  · rw [hp] at h
    exact h.elim
  · rw [hp] at h
    exact ⟨_, v, rfl, h⟩

theorem Leads.mono (h : a.Leads w Q E) (hQ : ∀ b v, Q b v → Q' b v)
    (hE : ∀ fault v, E fault v → E' fault v) : a.Leads w Q' E' := by
  unfold Leads at h ⊢
  rcases hp : a.perform w with ⟨b | b, v⟩
  · rw [hp] at h
    exact hE _ _ h
  · rw [hp] at h
    exact hQ _ _ h

theorem Leads.imp (h : a.Leads w Q E) (hQ : ∀ b v, Q b v → Q' b v) : a.Leads w Q' E :=
  h.mono hQ fun _ _ h => h

/-- what holds afterwards whether or not the action is refused -/
theorem leads_iff {P : Workspace α → Prop} :
    a.Leads w (fun _ v => P v) (fun _ v => P v) ↔ P (a.perform w).2 := by
  unfold Leads
  rcases a.perform w with ⟨b | b, v⟩ <;> exact Iff.rfl

/-- forgetting the answer does not change what is done -/
theorem perform_bind_pure (a : Action α β) (w : Workspace α) :
    ((a >>= fun _ => pure ()).perform w).2 = (a.perform w).2 := by
  rw [perform_bind]
  rcases a.perform w with ⟨b | b, v⟩ <;> rfl

/-! ## the rules -/

theorem leads_pure {b : β} (h : Q b w) : (pure b : Action α β).Leads w Q E :=
  leads_of_perform_ok (perform_pure b w) h

theorem leads_bind {f : β → Action α γ} {R : γ → Workspace α → Prop}
    (h : a.Leads w (fun b v => (f b).Leads v R E) E) : (a >>= f).Leads w R E := by
  rcases hp : a.perform w with ⟨b | b, v⟩
  · exact leads_of_perform_error (perform_bind_error hp f) (h.of_error hp)
  · have hf := h.of_ok hp
    unfold Leads at hf ⊢
    rwa [perform_bind_ok hp]

theorem leads_discard {Q : PUnit → Workspace α → Prop} (h : a.Leads w (fun _ v => Q ⟨⟩ v) E) :
    (discard a).Leads w Q E := by
  have heq : (discard a : Action α PUnit) = a >>= fun _ => pure ⟨⟩ :=
    map_eq_pure_bind (Function.const β PUnit.unit) a
  rw [heq]
  exact leads_bind (h.imp fun _ _ hv => leads_pure hv)

theorem leads_check {r : Except Fault β} (hok : ∀ b, r = .ok b → Q b w)
    (herror : ∀ fault, r = .error fault → E fault w) : (check r : Action α β).Leads w Q E := by
  cases r with
  | ok b => exact leads_of_perform_ok (perform_check _ w) (hok b rfl)
  | error fault => exact leads_of_perform_error (perform_check _ w) (herror fault rfl)

theorem leads_ask {f : Graph α → Except Fault β} (hok : ∀ b, f w.graph = .ok b → Q b w)
    (herror : ∀ fault, f w.graph = .error fault → E fault w) : (ask f).Leads w Q E := by
  cases h : f w.graph with
  | ok b => exact leads_of_perform_ok (by rw [perform_ask, h]) (hok b h)
  | error fault => exact leads_of_perform_error (by rw [perform_ask, h]) (herror fault h)

theorem leads_edit {f : Graph α → Except Fault (Graph α)} {Q : Unit → Workspace α → Prop}
    (hok : ∀ g, f w.graph = .ok g → Q () { w with graph := g })
    (herror : ∀ fault, f w.graph = .error fault → E fault w) : (edit f).Leads w Q E := by
  cases h : f w.graph with
  | ok g => exact leads_of_perform_ok (by rw [perform_edit, h]) (hok g h)
  | error fault => exact leads_of_perform_error (by rw [perform_edit, h]) (herror fault h)

theorem leads_addEdge {source target : NodeId} {isDummy : Bool} {Q : Edge → Workspace α → Prop}
    (hok : ∀ e g, w.graph.addEdge w.bends.fresh source target isDummy = .ok (e, g) →
      Q e ⟨g, w.bends.push []⟩)
    (herror : ∀ fault, w.graph.addEdge w.bends.fresh source target isDummy = .error fault →
      E fault w) : (addEdge source target isDummy).Leads w Q E := by
  cases h : w.graph.addEdge w.bends.fresh source target isDummy with
  | ok p => exact leads_of_perform_ok (by rw [perform_addEdge, h]) (hok p.1 p.2 h)
  | error fault => exact leads_of_perform_error (by rw [perform_addEdge, h]) (herror fault h)

theorem leads_reattach {e : Edge} {Q : Edge → Workspace α → Prop}
    (hok : ∀ g, w.graph.reattach e = .ok g → Q e ⟨g, w.bends.set e.slot []⟩)
    (herror : ∀ fault, w.graph.reattach e = .error fault → E fault w) :
    (reattach e).Leads w Q E := by
  cases h : w.graph.reattach e with
  | ok g => exact leads_of_perform_ok (by rw [perform_reattach, h]) (hok g h)
  | error fault => exact leads_of_perform_error (by rw [perform_reattach, h]) (herror fault h)

end

/-! ## steps that are not refused -/

section
variable {w : Workspace α} {b : β} {Q : β → Workspace α → Prop} {E : Fault → Workspace α → Prop}

theorem leads_check_ok {r : Except Fault β} (hr : r = .ok b) (h : Q b w) :
    (check r : Action α β).Leads w Q E :=
  leads_of_perform_ok (by rw [perform_check, hr]) h

theorem leads_ask_ok {f : Graph α → Except Fault β} (hf : f w.graph = .ok b) (h : Q b w) :
    (ask f).Leads w Q E :=
  leads_of_perform_ok (by rw [perform_ask, hf]) h

theorem leads_edit_ok {f : Graph α → Except Fault (Graph α)} {g : Graph α} {Q : Unit → Workspace α → Prop}
    (hf : f w.graph = .ok g) (h : Q () { w with graph := g }) : (edit f).Leads w Q E :=
  leads_of_perform_ok (by rw [perform_edit, hf]) h

theorem leads_addEdge_ok {source target : NodeId} {isDummy : Bool} {e : Edge} {g : Graph α}
    {Q : Edge → Workspace α → Prop}
    (hadd : w.graph.addEdge w.bends.fresh source target isDummy = .ok (e, g))
    (h : Q e ⟨g, w.bends.push []⟩) : (addEdge source target isDummy).Leads w Q E :=
  leads_of_perform_ok (by rw [perform_addEdge, hadd]) h

theorem leads_reattach_ok {e : Edge} {g : Graph α} {Q : Edge → Workspace α → Prop}
    (hattach : w.graph.reattach e = .ok g) (h : Q e ⟨g, w.bends.set e.slot []⟩) :
    (reattach e).Leads w Q E :=
  leads_of_perform_ok (by rw [perform_reattach, hattach]) h

end

/-! ## lists of actions -/

section
variable {E : Fault → Workspace α → Prop}

/-- `I done left` holds before each step, where `done ++ left` is the whole list -/
theorem leads_forM {f : γ → Action α Unit} (l : List γ) (I : List γ → List γ → Workspace α → Prop)
    (start : I [] l w)
    (step : ∀ done c left v, done ++ c :: left = l → I done (c :: left) v →
      (f c).Leads v (fun _ v' => I (done ++ [c]) left v') E) :
    (l.forM f).Leads w (fun _ v => I l [] v) E := by
  have hrest (left : List γ) : ∀ done v, done ++ left = l → I done left v →
      (left.forM f).Leads v (fun _ v' => I l [] v') E := by
    induction left with
    | nil =>
      intro done v hl h
      rw [List.append_nil] at hl
      rw [hl] at h
      exact leads_of_perform_ok (perform_forM_nil f v) h
    | cons c left ih =>
      intro done v hl h
      rw [forM_cons]
      refine leads_bind ((step done c left v hl h).imp fun _ v' hv' => ih (done ++ [c]) v' ?_ hv')
      rw [List.append_assoc, List.singleton_append, hl]
  exact hrest l [] w rfl start

/-- what each step keeps -/
theorem leads_forM_of_mem {f : γ → Action α Unit} {l : List γ} {P : Workspace α → Prop} (h : P w)
    (step : ∀ c ∈ l, ∀ v, P v → (f c).Leads v (fun _ v' => P v') E) :
    (l.forM f).Leads w (fun _ v => P v) E :=
  leads_forM l (fun _ _ v => P v) h fun done c _ v hl hv =>
    step c (hl ▸ List.mem_append_right done List.mem_cons_self) v hv

theorem leads_foldlM {f : β → γ → Action α β} (l : List γ)
    (I : List γ → List γ → β → Workspace α → Prop) {b : β} (start : I [] l b w)
    (step : ∀ done c left b v, done ++ c :: left = l → I done (c :: left) b v →
      (f b c).Leads v (fun b' v' => I (done ++ [c]) left b' v') E) :
    (l.foldlM f b).Leads w (fun b v => I l [] b v) E := by
  have hrest (left : List γ) : ∀ done b v, done ++ left = l → I done left b v →
      (left.foldlM f b).Leads v (fun b' v' => I l [] b' v') E := by
    induction left with
    | nil =>
      intro done b v hl h
      rw [List.append_nil] at hl
      rw [hl] at h
      exact leads_of_perform_ok (perform_foldlM_nil f b v) h
    | cons c left ih =>
      intro done b v hl h
      rw [foldlM_cons]
      refine leads_bind ((step done c left b v hl h).imp fun b' v' hv' =>
        ih (done ++ [c]) b' v' ?_ hv')
      rw [List.append_assoc, List.singleton_append, hl]
  exact hrest l [] b w rfl start

end

end LayeredDrawing.Action
