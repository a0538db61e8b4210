import LayeredDrawing.Drawing
import LayeredDrawing.Proofs.OrderedMap.Entries
import LayeredDrawing.Proofs.Workspace.Reached

/-!
# Drawing again

A drawing changes the graph by public operations only, so what it leaves behind, refused or not, is
a reached workspace, and all that holds of first drawings holds of later ones.  The edges that come
back are hidden edges, which have been in the graph.

* `Onward`          a reached workspace with certain edges in its past;
* `Action.Public`   an action that leads from one of these to another;
* `Reached.drawn`   a whole drawing does.
-/

namespace LayeredDrawing

variable {α : Type} [Metric α]

/-- the workspace is reached, with these edges in its past -/
def Onward (edges : List Edge) (w : Workspace α) : Prop :=
  ∃ past, Reached w past ∧ ∀ e ∈ edges, e ∈ past

theorem Onward.forget {edges fewer : List Edge} {w : Workspace α} (h : Onward edges w)
    (hsub : ∀ e ∈ fewer, e ∈ edges) : Onward fewer w := by
  obtain ⟨past, hreached, hpast⟩ := h
  exact ⟨past, hreached, fun e he => hpast e (hsub e he)⟩

/-- the edges of the graph itself are in its past -/
theorem Onward.withArcs {edges : List Edge} {w : Workspace α} (h : Onward edges w) :
    Onward (edges ++ w.graph.arcs) w := by
  obtain ⟨past, hreached, hpast⟩ := h
  refine ⟨past, hreached, fun e he => ?_⟩
  rcases List.mem_append.1 he with he | he
  · exact hpast e he
  · exact hreached.sound.known_of_mem e he

namespace Action

variable {β γ : Type} {edges : List Edge}

/-- whatever comes of the action, the workspace stays reached, and the edges in its past -/
def Public (edges : List Edge) (a : Action α β) : Prop :=
  ∀ w, Onward edges w → a.Leads w (fun _ v => Onward edges v) fun _ v => Onward edges v

theorem public_pure (b : β) : Public edges (pure b : Action α β) := fun _ h => leads_pure h

theorem public_check (r : Except Fault β) : Public edges (check r : Action α β) :=
  fun _ h => leads_check (fun _ _ => h) fun _ _ => h

theorem public_ask (f : Graph α → Except Fault β) : Public edges (ask f) :=
  fun _ h => leads_ask (fun _ _ => h) fun _ _ => h

theorem Public.bind {a : Action α β} {f : β → Action α γ} (ha : Public edges a)
    (hf : ∀ b, Public edges (f b)) : Public edges (a >>= f) :=
  fun w h => leads_bind ((ha w h).imp fun b v hv => hf b v hv)

theorem public_forM {f : γ → Action α Unit} {l : List γ} (hf : ∀ c ∈ l, Public edges (f c)) :
    Public edges (l.forM f) :=
  fun _ h => leads_forM_of_mem h fun c hc v hv => hf c hc v hv

/-- an action that does what an allowed change does -/
theorem public_of_act {a : Action α β} {c : Change α} (hc : c.Allowed edges)
    (hact : ∀ w, (c.act.perform w).2 = (a.perform w).2) : Public edges a := by
  intro w h
  obtain ⟨past, hreached, hpast⟩ := h
  have hallowed : c.Allowed past := by
    cases c with
    | reattach e => exact hpast e hc
    | _ => trivial
  have hnext := hreached.change c hallowed
  have hafter : c.after w = (a.perform w).2 := hact w
  rw [hafter] at hnext
  exact leads_iff.2 ⟨_, hnext, fun e he => List.mem_append_left _ (hpast e he)⟩

theorem public_addNode (id : NodeId) (n : Node α) : Public edges (edit fun g => g.addNode id n) :=
  public_of_act (c := .addNode id n) trivial fun _ => rfl

theorem public_removeNode (id : NodeId) : Public edges (edit fun g : Graph α => g.removeNode id) :=
  public_of_act (c := .removeNode id) trivial fun _ => rfl

theorem public_modifyNode (id : NodeId) (f : Node α → Node α) :
    Public edges (edit fun g => g.modifyNode id f) :=
  public_of_act (c := .modifyNode id f) trivial fun _ => rfl

theorem public_detach (e : Edge) : Public edges (edit fun g : Graph α => g.detach e) :=
  public_of_act (c := .detach e) trivial fun _ => rfl

theorem public_addBend (e : Edge) (p : Point α) : Public edges (addBend e p) :=
  public_of_act (c := .addBend e p) trivial fun _ => rfl

theorem public_addEdge (source target : NodeId) (isDummy : Bool) :
    Public edges (addEdge source target isDummy : Action α Edge) :=
  public_of_act (c := .addEdge source target isDummy) trivial fun w => perform_bind_pure _ w

theorem public_reattach {e : Edge} (he : e ∈ edges) : Public edges (reattach e : Action α Edge) :=
  public_of_act (c := .reattach e) he fun w => perform_bind_pure _ w

theorem public_cleanRoutes (tol : α) : Public edges (cleanRoutes tol) :=
  public_of_act (c := .cleanRoutes tol) trivial fun w => perform_bind_pure _ w

/-! ## the phases -/

theorem public_putInLayers (c : Config α) (s : Snapshot) : Public edges (putInLayers c s) := by
  refine (public_check _).bind fun _ => (public_ask _).bind fun layers => ?_
  have hget : Public edges (get : Action α (Workspace α)) := fun w h => leads_of_perform_ok rfl h
  refine hget.bind fun w => (public_forM fun id _ => ?_).bind fun _ => public_pure _
  exact (public_check _).bind fun layer => public_modifyNode id _

theorem public_extendStrand (c : Config α) (e : Edge) (start : Int) (i : Nat) (st : Strand) :
    Public edges (extendStrand c e start i st) := by
  refine (public_check _).bind fun x => (public_ask _).bind fun prev => ?_
  refine (public_addNode _ _).bind fun _ => (public_check _).bind fun lists => ?_
  exact (public_addEdge _ _ _).bind fun d => public_pure _

theorem public_extendStrandBy (c : Config α) (e : Edge) (start : Int) (count i : Nat) (st : Strand) :
    Public edges (extendStrandBy c e start count i st) := by
  induction count generalizing i st with
  | zero => exact public_pure st
  | succ count ih => exact (public_extendStrand c e start i st).bind fun st' => ih (i + 1) st'

/-- the edge is the only new one that a chain hides -/
theorem leads_hideEdge_chains (c : Config α) {s : Snapshot} {e : Edge} {w : Workspace α}
    (he : e ∈ edges) (hs : ∀ C ∈ s.chains.values, C.edge ∈ edges) (h : Onward edges w) :
    (hideEdge c s e).Leads w
      (fun s' v => (∀ C ∈ s'.chains.values, C.edge ∈ edges) ∧ Onward edges v)
      fun _ v => Onward edges v := by
  unfold hideEdge
  refine leads_bind ((public_check _ w h).imp fun start v₁ h₁ => ?_)
  refine leads_bind ((public_check _ v₁ h₁).imp fun span v₂ h₂ => ?_)
  refine leads_bind ((public_extendStrandBy c e _ _ _ _ v₂ h₂).imp fun st v₃ h₃ => ?_)
  refine leads_bind ((public_addEdge _ _ _ v₃ h₃).imp fun d v₄ h₄ => ?_)
  refine leads_bind ((public_detach e v₄ h₄).imp fun _ v₅ h₅ => leads_pure ⟨fun C hC => ?_, h₅⟩)
  obtain ⟨key, hkey⟩ := OrderedMap.mem_values_iff.1 hC
  rw [OrderedMap.get?_insert] at hkey
  split at hkey
  · rw [← Option.some.inj hkey]
    exact he
  · exact hs C (OrderedMap.mem_values_iff.2 ⟨key, hkey⟩)

theorem longEdges_subset {layers : OrderedMap NodeId Int} {l long : List Edge}
    (h : longEdges layers l = .ok long) : ∀ e ∈ long, e ∈ l := by
  induction l generalizing long with
  | nil =>
    cases h
    exact fun _ he => he
  | cons d l ih =>
    unfold longEdges at h
    cases hspan : span? layers d with
    | error fault => rw [hspan] at h; cases h
    | ok span =>
      rw [hspan] at h
      by_cases hone : span < 1
      · simp only [bind, Except.bind, if_pos hone, throw, throwThe, MonadExceptOf.throw] at h
        cases h
      · cases hrest : longEdges layers l with
        | error fault =>
          simp only [bind, Except.bind, if_neg hone, hrest] at h
          cases h
        | ok rest =>
          simp only [bind, Except.bind, if_neg hone, pure, Except.pure, hrest] at h
          intro e he
          have hsplit : e = d ∨ e ∈ rest := by
            rw [← Except.ok.inj h] at he
            split at he
            · exact List.mem_cons.1 he
            · exact .inr he
          rcases hsplit with rfl | he
          · exact List.mem_cons_self
          · exact List.mem_cons_of_mem d (ih hrest e he)

/-- the edges hidden by the second phase have been in the graph -/
theorem leads_subdivide_onward (c : Config α) (s : Snapshot) {w : Workspace α} (h : Onward edges w) :
    (subdivide c s).Leads w
      (fun s' v => Onward (edges ++ s'.chains.values.map Chain.edge) v)
      fun _ v => Onward edges v := by
  unfold subdivide
  refine leads_bind ((public_check _ w h).imp fun _ v hv => ?_)
  refine leads_bind (leads_ask (fun hidden hhidden => ?_) fun _ _ => hv)
  have hall := hv.withArcs
  obtain ⟨past, hreached, hpast⟩ := hall
  have hin : ∀ e ∈ hidden, e ∈ edges ++ v.graph.arcs := fun e he =>
    List.mem_append_right _ (hreached.sound.coherent.mem_edges.1 (longEdges_subset hhidden e he))
  have hback {u : Workspace α} (hu : Onward (edges ++ v.graph.arcs) u) : Onward edges u :=
    hu.forget fun e he => List.mem_append_left _ he
  refine leads_bind (Leads.imp (leads_foldlM hidden
    (fun _ _ s' u => (∀ C ∈ s'.chains.values, C.edge ∈ edges ++ v.graph.arcs) ∧
      Onward (edges ++ v.graph.arcs) u)
    ⟨fun C hC => (List.not_mem_nil hC).elim, hv.withArcs⟩
    fun done e left s' u hall hI => ?_) fun s' u hI => leads_pure ?_)
  · have he : e ∈ hidden := by
      rw [← hall]
      exact List.mem_append_right _ List.mem_cons_self
    exact (leads_hideEdge_chains c (hin e he) hI.1 hI.2).mono (fun _ _ h' => h') fun _ _ => hback
  · refine hI.2.forget fun e he => ?_
    rcases List.mem_append.1 he with he | he
    · exact List.mem_append_left _ he
    · obtain ⟨C, hC, rfl⟩ := List.mem_map.1 he
      exact hI.1 C hC

theorem leads_reorder_onward (c : Config α) (s : Snapshot) {w : Workspace α} (h : Onward edges w) :
    (reorder c s).Leads w (fun s' v => s'.chains = s.chains ∧ Onward edges v)
      fun _ v => Onward edges v := by
  unfold reorder
  refine leads_bind ((public_check _ w h).imp fun _ v₁ h₁ => ?_)
  refine leads_bind ((public_ask _ v₁ h₁).imp fun _ v₂ h₂ => ?_)
  refine leads_bind ((public_ask _ v₂ h₂).imp fun lists v₃ h₃ => ?_)
  have hstack (layer : List NodeId) : Public edges (stackLayer layer : Action α Unit) :=
    public_forM fun p _ => public_modifyNode p.1 _
  exact leads_bind ((public_forM (fun layer _ => hstack layer) v₃ h₃).imp fun _ v₄ h₄ =>
    leads_pure ⟨rfl, h₄⟩)

theorem leads_place_onward (c : Config α) (s : Snapshot) {w : Workspace α} (h : Onward edges w) :
    (place c s).Leads w (fun s' v => s'.chains = s.chains ∧ Onward edges v)
      fun _ v => Onward edges v := by
  unfold place
  refine leads_bind ((public_check _ w h).imp fun _ v₁ h₁ => ?_)
  refine leads_bind ((public_ask _ v₁ h₁).imp fun hs v₂ h₂ => ?_)
  refine leads_bind ((public_check _ v₂ h₂).imp fun _ v₃ h₃ => ?_)
  have hlayer (p : List NodeId × Nat) : Public edges (positionLayer c hs p.1 p.2) :=
    public_forM fun id _ => (public_check _).bind fun y => public_modifyNode id _
  exact leads_bind ((public_forM (fun p _ => hlayer p) v₃ h₃).imp fun _ v₄ h₄ => leads_pure ⟨rfl, h₄⟩)

theorem public_restoreEdges (c : Config α) {s : Snapshot}
    (hs : ∀ C ∈ s.chains.values, C.edge ∈ edges) : Public edges (restoreEdges c s) := by
  have hbend (e : Edge) (id : NodeId) : Public edges (bendAt e id : Action α Unit) :=
    (public_ask _).bind fun n => (public_addBend e _).bind fun _ => public_removeNode id
  have hchain (C : Chain) (hC : C ∈ s.chains.values) : Public edges (restoreEdge C : Action α Unit) :=
    (public_reattach (hs C hC)).bind fun e => public_forM fun id _ => hbend e id
  unfold restoreEdges
  refine (public_check _).bind fun _ => (public_forM hchain).bind fun _ => ?_
  dsimp only
  by_cases hclean : c.cleanBends = true
  · rw [if_pos hclean]
    have hdiscard : Public edges (discard (cleanRoutes c.tolerance)) := fun w h =>
      leads_discard (public_cleanRoutes c.tolerance w h)
    exact hdiscard.bind fun _ => public_pure _
  · rw [if_neg hclean]
    exact public_pure _

end Action

open LayeredDrawing.Action

theorem Reached.drawn {w : Workspace α} {past : List Edge} (h : Reached w past) (c : Config α) :
    ∃ past', (∀ e ∈ past, e ∈ past') ∧ Reached ((draw c).perform w).2 past' := by
  have hstart : Onward past w := ⟨past, h, fun _ he => he⟩
  have hleads : (draw c).Leads w (fun _ v => Onward past v) fun _ v => Onward past v := by
    refine leads_bind ((public_putInLayers c _ w hstart).imp fun s₁ v₁ h₁ => ?_)
    refine leads_bind ((leads_subdivide_onward c s₁ h₁).imp fun s₂ v₂ h₂ => ?_)
    have hback {u : Workspace α} (hu : Onward (past ++ s₂.chains.values.map Chain.edge) u) :
        Onward past u := hu.forget fun e he => List.mem_append_left _ he
    refine leads_bind ((leads_reorder_onward c s₂ h₂).mono (fun s₃ v₃ h₃ => ?_) fun _ _ => hback)
    obtain ⟨hchains₃, h₃⟩ := h₃
    refine leads_bind ((leads_place_onward c s₃ h₃).mono (fun s₄ v₄ h₄ => ?_) fun _ _ => hback)
    obtain ⟨hchains₄, h₄⟩ := h₄
    have hchains : ∀ C ∈ s₄.chains.values, C.edge ∈ past ++ s₂.chains.values.map Chain.edge := by
      rw [hchains₄, hchains₃]
      exact fun C hC => List.mem_append_right _ (List.mem_map_of_mem hC)
    refine leads_bind ((public_restoreEdges c hchains v₄ h₄).mono (fun s₅ v₅ h₅ => ?_) fun _ _ => hback)
    exact leads_pure (hback h₅)
  obtain ⟨past', hreached, hpast⟩ := leads_iff.1 hleads
  exact ⟨past', hpast, hreached⟩

end LayeredDrawing
