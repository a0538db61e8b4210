import LayeredDrawing.Proofs.Fault.Plain
import LayeredDrawing.Proofs.Workspace.Reached

/-!
# How phases are refused

Whatever snapshot a phase is given, and whatever has become of the graph meanwhile, the phase looks
for what it objects to before it changes anything.  All else that can refuse it is a plain fault.
A phase works by public operations, so it keeps whatever these keep.

* `Action.Regular`   an action that keeps a property and raises plain faults only;
* `Phase.Objects`    the other faults, by phase;
* `leads_apply`      what a phase keeps, and how it is refused.
-/

namespace LayeredDrawing

/-- the phase itself refuses with this fault -/
def Phase.Objects : Phase → Fault → Prop
  | phase, .stageMismatch expected actual => expected = phase.expects ∧ actual ≠ phase.expects
  | .layering, .cyclic _ => True
  | .expansion, .spanBelowOne _ _ => True
  | .ordering, .spanNotOne _ _ => True
  | .placement, .swapped _ _ _ => True
  | _, _ => False

/-- every public operation keeps the property, refused or not -/
def Kept {α : Type} [Metric α] (I : Workspace α → Prop) : Prop :=
  ∀ (c : Change α) w, I w → I (c.after w)

namespace Action

section
variable {α β γ : Type} {I : Workspace α → Prop}

def Regular (I : Workspace α → Prop) (a : Action α β) : Prop :=
  ∀ w, I w → a.Leads w (fun _ v => I v) fun fault v => I v ∧ fault.isPlain = true

theorem regular_pure (b : β) : Regular I (pure b : Action α β) := fun _ h => leads_pure h

theorem regular_check {r : Except Fault β} (hr : Plain r) : Regular I (check r : Action α β) :=
  fun _ h => leads_check (fun _ _ => h) fun fault hf => ⟨h, hr fault hf⟩

theorem regular_ask {f : Graph α → Except Fault β} (hf : ∀ g, Plain (f g)) : Regular I (ask f) :=
  fun w h => leads_ask (fun _ _ => h) fun fault hfault => ⟨h, hf w.graph fault hfault⟩

theorem Regular.bind {a : Action α β} {f : β → Action α γ} (ha : Regular I a)
    (hf : ∀ b, Regular I (f b)) : Regular I (a >>= f) :=
  fun w h => leads_bind ((ha w h).imp fun b v hv => hf b v hv)

theorem regular_forM {f : γ → Action α Unit} {l : List γ} (hf : ∀ c, Regular I (f c)) :
    Regular I (l.forM f) :=
  fun _ h => leads_forM_of_mem h fun c _ v hv => hf c v hv

theorem regular_foldlM {f : β → γ → Action α β} {l : List γ} (hf : ∀ b c, Regular I (f b c))
    (b : β) : Regular I (l.foldlM f b) :=
  fun _ h => leads_foldlM l (fun _ _ _ v => I v) h fun _ c _ b v _ hv => hf b c v hv

/-- before it changes anything, a phase may raise a fault that it objects with -/
theorem leads_check_objects {phase : Phase} {w : Workspace α} (h : I w) {r : Except Fault β}
    {Q : β → Workspace α → Prop}
    (hr : Raises (fun fault => fault.isPlain = true ∨ phase.Objects fault) r) (hok : ∀ b, Q b w) :
    (check r : Action α β).Leads w Q
      fun fault v => I v ∧ (fault.isPlain = true ∨ phase.Objects fault ∧ v = w) :=
  leads_check (fun b _ => hok b) fun fault hf =>
    ⟨h, (hr fault hf).imp_right fun hobject => ⟨hobject, rfl⟩⟩

theorem leads_ask_objects {phase : Phase} {w : Workspace α} (h : I w) {f : Graph α → Except Fault β}
    {Q : β → Workspace α → Prop}
    (hf : Raises (fun fault => fault.isPlain = true ∨ phase.Objects fault) (f w.graph))
    (hok : ∀ b, Q b w) : (ask f).Leads w Q
      fun fault v => I v ∧ (fault.isPlain = true ∨ phase.Objects fault ∧ v = w) :=
  leads_ask (fun b _ => hok b) fun fault hfault =>
    ⟨h, (hf fault hfault).imp_right fun hobject => ⟨hobject, rfl⟩⟩

/-- afterwards it is refused for plain faults only -/
theorem Regular.leads_objects {a : Action α β} (ha : Regular I a) {w v : Workspace α} (h : I v)
    {phase : Phase} {Q : β → Workspace α → Prop} (hok : ∀ b u, I u → Q b u) :
    a.Leads v Q fun fault u => I u ∧ (fault.isPlain = true ∨ phase.Objects fault ∧ u = w) :=
  (ha v h).mono hok fun _ _ hu => ⟨hu.1, .inl hu.2⟩

end

/-! ## public operations -/

section
variable {α β : Type} [Metric α] {I : Workspace α → Prop} (hI : Kept I)
include hI

/-- an action that does what a change does, refused for plain faults only -/
theorem regular_of_act {a : Action α β} (c : Change α)
    (hact : ∀ w, (c.act.perform w).2 = (a.perform w).2)
    (hplain : ∀ w, a.Leads w (fun _ _ => True) fun fault _ => fault.isPlain = true) :
    Regular I a := by
  intro w h
  have hafter : I (a.perform w).2 := hact w ▸ hI c w h
  rcases hp : a.perform w with ⟨fault | b, v⟩
  · rw [hp] at hafter
    exact leads_of_perform_error hp ⟨hafter, (hplain w).of_error hp⟩
  · rw [hp] at hafter
    exact leads_of_perform_ok hp hafter

theorem regular_edit (c : Change α) {f : Graph α → Except Fault (Graph α)} (hact : c.act = edit f)
    (hf : ∀ g, Plain (f g)) : Regular I (edit f) :=
  regular_of_act hI c (fun w => by rw [hact]) fun w =>
    leads_edit (fun _ _ => trivial) fun fault h => hf w.graph fault h

theorem regular_addNode (id : NodeId) (n : Node α) : Regular I (edit fun g => g.addNode id n) :=
  regular_edit hI (.addNode id n) rfl fun g => g.plain_addNode id n

theorem regular_removeNode (id : NodeId) : Regular I (edit fun g : Graph α => g.removeNode id) :=
  regular_edit hI (.removeNode id) rfl fun g => g.plain_removeNode id

theorem regular_modifyNode (id : NodeId) (f : Node α → Node α) :
    Regular I (edit fun g => g.modifyNode id f) :=
  regular_edit hI (.modifyNode id f) rfl fun g => g.plain_modifyNode id f

theorem regular_detach (e : Edge) : Regular I (edit fun g : Graph α => g.detach e) :=
  regular_edit hI (.detach e) rfl fun g => g.plain_detach e

theorem regular_addEdge (source target : NodeId) (isDummy : Bool) :
    Regular I (addEdge source target isDummy : Action α Edge) :=
  regular_of_act hI (.addEdge source target isDummy) (fun w => perform_bind_pure _ w) fun w =>
    leads_addEdge (fun _ _ _ => trivial) fun fault h => w.graph.plain_addEdge _ _ _ _ fault h

theorem regular_reattach (e : Edge) : Regular I (reattach e : Action α Edge) :=
  regular_of_act hI (.reattach e) (fun w => perform_bind_pure _ w) fun w =>
    leads_reattach (fun _ _ => trivial) fun fault h => w.graph.plain_reattach e fault h

theorem regular_addBend (e : Edge) (p : Point α) : Regular I (addBend e p) :=
  regular_of_act hI (.addBend e p) (fun _ => rfl) fun w =>
    leads_of_perform_ok (perform_addBend e p w) trivial

omit hI in
theorem regular_cleanRoute (tol : α) (e : Edge) :
    Regular (fun _ => True) (cleanRoute tol e) := by
  unfold cleanRoute
  refine Regular.bind (fun w h => leads_of_perform_ok (perform_bendsOf e w) trivial) fun old => ?_
  split
  · exact regular_pure _
  · refine (regular_ask fun g => g.plain_node _).bind fun start => ?_
    refine (regular_ask fun g => g.plain_node _).bind fun finish => ?_
    refine (regular_check (plain_clean tol _ old _)).bind fun new => ?_
    exact Regular.bind (fun w h => leads_of_perform_ok (perform_setBends e new w) trivial)
      fun _ => regular_pure _

theorem regular_cleanRoutes (tol : α) : Regular I (cleanRoutes tol) := by
  refine regular_of_act hI (.cleanRoutes tol) (fun w => perform_bind_pure _ w) fun w => ?_
  have hplain : Regular (fun _ => True) (cleanRoutes tol : Action α Nat) :=
    (regular_ask fun g => raises_ok _).bind fun edges => regular_foldlM (fun removed e =>
      (regular_cleanRoute tol e).bind fun _ => regular_pure _) 0
  exact (hplain w trivial).mono (fun _ _ h => h) fun _ _ h => h.2

/-! ## parts of phases -/

theorem regular_writeLayer (c : Config α) (layers : OrderedMap NodeId Int) (id : NodeId) :
    Regular I (writeLayer c layers id) :=
  (regular_check (plain_entry layers id)).bind fun _ => regular_modifyNode hI id _

theorem regular_extendStrand (c : Config α) (e : Edge) (start : Int) (i : Nat) (st : Strand) :
    Regular I (extendStrand c e start i st) := by
  refine (regular_check (plain_layerPosition? c _)).bind fun x => ?_
  refine (regular_ask fun g => g.plain_node _).bind fun prev => ?_
  refine (regular_addNode hI _ _).bind fun _ => ?_
  refine (regular_check (plain_insertBeside _ _ _ _)).bind fun lists => ?_
  exact (regular_addEdge hI _ _ _).bind fun _ => regular_pure _

theorem regular_extendStrandBy (c : Config α) (e : Edge) (start : Int) (count i : Nat)
    (st : Strand) : Regular I (extendStrandBy c e start count i st) := by
  induction count generalizing i st with
  | zero => exact regular_pure st
  | succ count ih => exact (regular_extendStrand hI c e start i st).bind fun st' => ih (i + 1) st'

theorem regular_hideEdge (c : Config α) (s : Snapshot) (e : Edge) : Regular I (hideEdge c s e) := by
  refine (regular_check (plain_entry _ _)).bind fun start => ?_
  refine (regular_check (plain_span? _ e)).bind fun span => ?_
  refine (regular_extendStrandBy hI c e start _ 1 _).bind fun st => ?_
  exact (regular_addEdge hI _ _ _).bind fun d => (regular_detach hI e).bind fun _ => regular_pure _

theorem regular_stackLayer (layer : List NodeId) : Regular I (stackLayer layer : Action α Unit) :=
  regular_forM fun p => regular_modifyNode hI p.1 _

theorem regular_positionLayer (c : Config α) (hs : Heights α) (layer : List NodeId) (i : Nat) :
    Regular I (positionLayer c hs layer i) :=
  regular_forM fun id => (regular_check (plain_entry hs id)).bind fun _ => regular_modifyNode hI id _

theorem regular_restoreEdge (chain : Chain) : Regular I (restoreEdge chain : Action α Unit) := by
  have hbend (e : Edge) (id : NodeId) : Regular I (bendAt e id : Action α Unit) :=
    (regular_ask fun g => g.plain_node id).bind fun n =>
      (regular_addBend hI e _).bind fun _ => regular_removeNode hI id
  exact (regular_reattach hI chain.edge).bind fun e => regular_forM fun id => hbend e id

end

/-! ## phases -/

theorem raises_requireStage (phase : Phase) (s : Snapshot) :
    Raises (fun fault => fault.isPlain = true ∨ phase.Objects fault)
      (s.requireStage phase.expects) := by
  unfold Snapshot.requireStage
  split
  · exact raises_ok ()
  · rename_i hne
    refine raises_error (.inr ?_)
    cases phase <;> exact ⟨rfl, hne⟩

end Action

open LayeredDrawing.Action

/-- what a phase keeps, and how it is refused -/
theorem leads_apply {α : Type} [Metric α] {I : Workspace α → Prop} (hI : Kept I) (phase : Phase)
    (c : Config α) (s : Snapshot) {w : Workspace α} (h : I w) :
    (phase.apply c s).Leads w (fun s' v => I v ∧ phase.expects.next? = some s'.stage)
      fun fault v => I v ∧ (fault.isPlain = true ∨ phase.Objects fault ∧ v = w) := by
  have hstage := raises_requireStage phase s
  cases phase with
  | layering =>
    have hlayering := (raises_layering w.graph).mono (Q := fun fault => fault.isPlain = true ∨
      Phase.layering.Objects fault) fun fault hf => hf.imp_right fun ⟨cycle, hc⟩ => hc ▸ trivial
    refine leads_bind (leads_check_objects h hstage fun _ => ?_)
    refine leads_bind (leads_ask_objects h hlayering fun layers => ?_)
    have hwrite : Regular I (w.graph.nodeIds.forM (writeLayer c layers)) :=
      regular_forM fun id => regular_writeLayer hI c layers id
    exact leads_bind (leads_of_perform_ok rfl
      (leads_bind (hwrite.leads_objects h fun _ v hv => leads_pure ⟨hv, rfl⟩)))
  | expansion =>
    have hlong := (raises_longEdges s.layers w.graph.edges).mono (Q := fun fault =>
      fault.isPlain = true ∨ Phase.expansion.Objects fault)
      fun fault hf => hf.imp_right fun ⟨e, span, he⟩ => he ▸ trivial
    refine leads_bind (leads_check_objects h hstage fun _ => ?_)
    refine leads_bind (leads_ask_objects h hlong fun hidden => ?_)
    have hhide : Regular I (hidden.foldlM (hideEdge c) { s with chains := ∅ }) :=
      regular_foldlM (fun s e => regular_hideEdge hI c s e) _
    exact leads_bind (hhide.leads_objects h fun s' v hv => leads_pure ⟨hv, rfl⟩)
  | ordering =>
    have hspans := (raises_requireUnitSpans w.graph s).mono (Q := fun fault =>
      fault.isPlain = true ∨ Phase.ordering.Objects fault)
      fun fault hf => hf.imp_right fun ⟨e, span, he⟩ => he ▸ trivial
    refine leads_bind (leads_check_objects h hstage fun _ => ?_)
    refine leads_bind (leads_ask_objects h hspans fun _ => ?_)
    have hbest := (plain_bestArrangement w.graph c s.arrangement).mono (Q := fun fault =>
      fault.isPlain = true ∨ Phase.ordering.Objects fault) fun _ => .inl
    refine leads_bind (leads_ask_objects h hbest fun lists => ?_)
    have hstack : Regular I (lists.forM stackLayer) := regular_forM fun l => regular_stackLayer hI l
    exact leads_bind (hstack.leads_objects h fun _ v hv => leads_pure ⟨hv, rfl⟩)
  | placement =>
    have hheights := (plain_heights w.graph c s.arrangement).mono (Q := fun fault =>
      fault.isPlain = true ∨ Phase.placement.Objects fault) fun _ => .inl
    refine leads_bind (leads_check_objects h hstage fun _ => ?_)
    refine leads_bind (leads_ask_objects h hheights fun hs => ?_)
    have hordered := (raises_requireOrdered hs s.arrangement).mono (Q := fun fault =>
      fault.isPlain = true ∨ Phase.placement.Objects fault)
      fun fault hf => hf.imp_right fun ⟨upper, lower, i, hi⟩ => hi ▸ trivial
    refine leads_bind (leads_check_objects h hordered fun _ => ?_)
    have hposition : Regular I (s.arrangement.zipIdx.forM fun p => positionLayer c hs p.1 p.2) :=
      regular_forM fun p => regular_positionLayer hI c hs p.1 p.2
    exact leads_bind (hposition.leads_objects h fun _ v hv => leads_pure ⟨hv, rfl⟩)
  | reconstruction =>
    refine leads_bind (leads_check_objects h hstage fun _ => ?_)
    have hrestore : Regular I (s.chains.values.forM restoreEdge) :=
      regular_forM fun C => regular_restoreEdge hI C
    refine leads_bind (hrestore.leads_objects h fun _ v hv => ?_)
    dsimp only
    split
    · have hclean : Regular I (discard (cleanRoutes c.tolerance)) := fun w h =>
        leads_discard (regular_cleanRoutes hI c.tolerance w h)
      exact leads_bind (hclean.leads_objects hv fun _ u hu => leads_pure ⟨hu, rfl⟩)
    · exact leads_pure ⟨hv, rfl⟩

end LayeredDrawing
