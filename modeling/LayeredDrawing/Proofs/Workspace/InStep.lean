import Mathlib.Data.List.Forall2

/-!
# Work in step

Work on a state may be refused.  Two pieces of such work are in step if they lead from related states to
related states, and either both give answers, which are related, or both are refused, for related
reasons.  There is one rule for each way of building a piece of work, so two runs of one text are compared
along that text, wherever they stop.

* `Paired E R r r'`          two requests with related ends;
* `InStep S E R a a'`        two pieces of work with related ends, from all related states;
* `InStep.bind`, `InStep.bind_same`, `inStep_get`, `inStep_modify`, `inStep_forM`, `inStep_foldlM`   the rules.
-/

namespace LayeredDrawing

variable {ε ε' β β' γ γ' δ δ' σ σ' : Type}

/-! ## requests -/

/-- both requests are granted, with related answers, or both are refused, for related reasons -/
def Paired (E : ε → ε' → Prop) (R : β → β' → Prop) : Except ε β → Except ε' β' → Prop
  | .ok b, .ok b' => R b b'
  | .error e, .error e' => E e e'
  | _, _ => False

section
variable {E : ε → ε' → Prop} {R : β → β' → Prop} {T : γ → γ' → Prop}

theorem Paired.mono {r : Except ε β} {r' : Except ε' β'} (h : Paired E R r r') {R' : β → β' → Prop}
    (hR : ∀ b b', R b b' → R' b b') : Paired E R' r r' := by
  cases r <;> cases r'
  · exact h
  · exact h.elim
  · exact h.elim
  · exact hR _ _ h

theorem Paired.bind {r : Except ε β} {r' : Except ε' β'} {f : β → Except ε γ} {f' : β' → Except ε' γ'}
    (h : Paired E R r r') (hf : ∀ b b', R b b' → Paired E T (f b) (f' b')) :
    Paired E T (r >>= f) (r' >>= f') := by
  cases r <;> cases r'
  · exact h
  · exact h.elim
  · exact h.elim
  · exact hf _ _ h

/-- the same answer to both -/
theorem Paired.bind_same {r : Except ε β} {r' : Except ε' β} {f : β → Except ε γ}
    {f' : β → Except ε' γ'} (h : Paired E Eq r r') (hf : ∀ b, Paired E T (f b) (f' b)) :
    Paired E T (r >>= f) (r' >>= f') := by
  refine h.bind fun b b' hb => ?_
  subst hb
  exact hf b

theorem paired_forM {f : δ → Except ε Unit} {f' : δ' → Except ε' Unit} {D : δ → δ' → Prop}
    {l : List δ} {l' : List δ'} (h : List.Forall₂ D l l')
    (hf : ∀ d d', D d d' → Paired E Eq (f d) (f' d')) : Paired E Eq (l.forM f) (l'.forM f') := by
  induction h with
  | nil => exact (rfl : () = ())
  | cons hd _ ih => exact (hf _ _ hd).bind fun _ _ _ => ih

end

theorem paired_refl {E : ε → ε → Prop} (hE : ∀ e, E e e) (r : Except ε β) : Paired E Eq r r := by
  cases r with
  | ok b => exact (rfl : b = b)
  | error e => exact hE e

/-! ## work on a state -/

/-- from related states to related states, with answers or reasons that are related as well -/
def InStep (S : σ → σ' → Prop) (E : ε → ε' → Prop) (R : β → β' → Prop)
    (a : ExceptT ε (StateM σ) β) (a' : ExceptT ε' (StateM σ') β') : Prop :=
  ∀ s s', S s s' →
    Paired E R (a.run.run s).1 (a'.run.run s').1 ∧ S (a.run.run s).2 (a'.run.run s').2

section
variable {S : σ → σ' → Prop} {E : ε → ε' → Prop} {R : β → β' → Prop} {T : γ → γ' → Prop}
  {a : ExceptT ε (StateM σ) β} {a' : ExceptT ε' (StateM σ') β'}

theorem inStep_pure {b : β} {b' : β'} (h : R b b') : InStep S E R (pure b) (pure b') :=
  fun _ _ hs => ⟨h, hs⟩

theorem InStep.mono (h : InStep S E R a a') {R' : β → β' → Prop} (hR : ∀ b b', R b b' → R' b b') :
    InStep S E R' a a' := fun s s' hs => ⟨(h s s' hs).1.mono hR, (h s s' hs).2⟩

theorem run_bind_of_ok {s v : σ} {b : β} (h : a.run.run s = (.ok b, v))
    (f : β → ExceptT ε (StateM σ) γ) : (a >>= f).run.run s = (f b).run.run v := by
  rw [ExceptT.run_bind, StateT.run_bind, h]
  rfl

theorem run_bind_of_error {s v : σ} {e : ε} (h : a.run.run s = (.error e, v))
    (f : β → ExceptT ε (StateM σ) γ) : (a >>= f).run.run s = (.error e, v) := by
  rw [ExceptT.run_bind, StateT.run_bind, h]
  rfl

theorem InStep.bind {f : β → ExceptT ε (StateM σ) γ} {f' : β' → ExceptT ε' (StateM σ') γ'}
    (h : InStep S E R a a') (hf : ∀ b b', R b b' → InStep S E T (f b) (f' b')) :
    InStep S E T (a >>= f) (a' >>= f') := by
  intro s s' hs
  obtain ⟨hends, hv⟩ := h s s' hs
  rcases hrun : a.run.run s with ⟨e | b, v⟩ <;> rcases hrun' : a'.run.run s' with ⟨e' | b', v'⟩ <;>
    rw [hrun, hrun'] at hends hv
  · rw [run_bind_of_error hrun, run_bind_of_error hrun']
    exact ⟨hends, hv⟩
  · exact hends.elim
  · exact hends.elim
  · rw [run_bind_of_ok hrun, run_bind_of_ok hrun']
    exact hf b b' hends v v' hv

/-- the same answer on both sides -/
theorem InStep.bind_same {a' : ExceptT ε' (StateM σ') β} {f : β → ExceptT ε (StateM σ) γ}
    {f' : β → ExceptT ε' (StateM σ') γ'} (h : InStep S E Eq a a')
    (hf : ∀ b, InStep S E T (f b) (f' b)) : InStep S E T (a >>= f) (a' >>= f') := by
  refine h.bind fun b b' hb => ?_
  subst hb
  exact hf b

/-- an answer that nobody waits for -/
theorem InStep.discard (h : InStep S E R a a') : InStep S E Eq (discard a) (discard a') :=
  h.bind fun _ _ _ => inStep_pure (rfl : () = ())

theorem inStep_get : InStep S E S (get : ExceptT ε (StateM σ) σ) (get : ExceptT ε' (StateM σ') σ') :=
  fun _ _ hs => ⟨hs, hs⟩

theorem inStep_modify {f : σ → σ} {f' : σ' → σ'} (h : ∀ s s', S s s' → S (f s) (f' s')) :
    InStep S E Eq (modify f : ExceptT ε (StateM σ) PUnit) (modify f' : ExceptT ε' (StateM σ') PUnit) :=
  fun s s' hs => ⟨rfl, h s s' hs⟩

theorem inStep_set {t : σ} {t' : σ'} (h : S t t') :
    InStep S E Eq (set t : ExceptT ε (StateM σ) PUnit) (set t' : ExceptT ε' (StateM σ') PUnit) :=
  inStep_modify fun _ _ _ => h

/-! ## lists of work -/

theorem inStep_forM {f : δ → ExceptT ε (StateM σ) PUnit} {f' : δ' → ExceptT ε' (StateM σ') PUnit}
    {D : δ → δ' → Prop} {l : List δ} {l' : List δ'} (h : List.Forall₂ D l l')
    (hf : ∀ d d', D d d' → InStep S E Eq (f d) (f' d')) : InStep S E Eq (l.forM f) (l'.forM f') := by
  induction h with
  | nil => exact inStep_pure rfl
  | cons hd _ ih => exact (hf _ _ hd).bind fun _ _ _ => ih

theorem inStep_foldlM {f : β → δ → ExceptT ε (StateM σ) β} {f' : β' → δ' → ExceptT ε' (StateM σ') β'}
    {D : δ → δ' → Prop} {l : List δ} {l' : List δ'} (h : List.Forall₂ D l l')
    (hf : ∀ b b' d d', R b b' → D d d' → InStep S E R (f b d) (f' b' d')) {b : β} {b' : β'}
    (hb : R b b') : InStep S E R (l.foldlM f b) (l'.foldlM f' b') := by
  induction h generalizing b b' with
  | nil => exact inStep_pure hb
  | cons hd _ ih =>
    rw [List.foldlM_cons, List.foldlM_cons]
    exact (hf _ _ _ _ hb hd).bind fun _ _ hb' => ih hb'

end

end LayeredDrawing
