import LayeredDrawing.Drawing

/-!
# Which faults can be raised

The faults of a layout itself are those that `Fault.isPlain` leaves out.  They are raised where a
layout looks for them and nowhere else: looking something up, changing a graph, searching for an
arrangement, computing heights and cleaning a route only raise plain faults, whatever they are asked.

* `Raises P r`   every fault of the request `r` has the property;
* `Plain r`      every fault of it is plain, with one lemma for each kind of request;
* `raises_layering`, `raises_longEdges`, `raises_requireUnitSpans`, `raises_requireOrdered`   the
                 checks of a layout.
-/

namespace LayeredDrawing

/-- something asked for is not there, or is there already -/
def Fault.isPlain : Fault → Bool
  | .cyclic _ => false
  | .stageMismatch _ _ => false
  | .spanBelowOne _ _ => false
  | .spanNotOne _ _ => false
  | .swapped _ _ _ => false
  | _ => true

section
variable {β γ : Type}

def Raises (P : Fault → Prop) (r : Except Fault β) : Prop := ∀ fault, r = .error fault → P fault

def Plain (r : Except Fault β) : Prop := Raises (fun fault => fault.isPlain = true) r

section
variable {P Q : Fault → Prop}

theorem raises_ok (b : β) : Raises P (.ok b : Except Fault β) := fun _ h => by cases h

theorem raises_error {fault : Fault} (h : P fault) : Raises P (.error fault : Except Fault β) := by
  intro fault' heq
  cases heq
  exact h

theorem Raises.bind {r : Except Fault β} {f : β → Except Fault γ} (hr : Raises P r)
    (hf : ∀ b, Raises P (f b)) : Raises P (r >>= f) := by
  cases r with
  | ok b => exact hf b
  | error fault => exact raises_error (hr fault rfl)

theorem Raises.mono {r : Except Fault β} (hr : Raises P r) (h : ∀ fault, P fault → Q fault) :
    Raises Q r := fun fault heq => h fault (hr fault heq)

theorem raises_forM {f : γ → Except Fault Unit} {l : List γ} (h : ∀ c ∈ l, Raises P (f c)) :
    Raises P (l.forM f) := by
  induction l with
  | nil => exact raises_ok ()
  | cons c l ih =>
    exact (h c List.mem_cons_self).bind fun _ => ih fun d hd => h d (List.mem_cons_of_mem _ hd)

theorem raises_mapM {f : γ → Except Fault β} {l : List γ} (h : ∀ c, Raises P (f c)) :
    Raises P (l.mapM f) := by
  induction l with
  | nil => exact raises_ok []
  | cons c l ih =>
    rw [List.mapM_cons]
    exact (h c).bind fun _ => ih.bind fun _ => raises_ok _

theorem raises_foldlM {f : β → γ → Except Fault β} {l : List γ} (h : ∀ b c, Raises P (f b c))
    (b : β) : Raises P (l.foldlM f b) := by
  induction l generalizing b with
  | nil => exact raises_ok b
  | cons c l ih =>
    rw [List.foldlM_cons]
    exact (h b c).bind ih

end

/-! ## looking up -/

theorem plain_entry {ν : Type} (m : OrderedMap NodeId ν) (id : NodeId) : Plain (m.entry id) := by
  unfold OrderedMap.entry
  split
  · exact raises_ok _
  · exact raises_error rfl

theorem plain_position (count : Nat) (i : Int) : Plain (position count i) := by
  unfold position
  split
  · exact raises_ok _
  · refine raises_error ?_
    unfold Fault.ofPosition
    dsimp only
    split <;> rfl

theorem plain_span? (layers : OrderedMap NodeId Int) (e : Edge) : Plain (span? layers e) :=
  (plain_entry layers _).bind fun _ => (plain_entry layers _).bind fun _ => raises_ok _

theorem plain_insertBeside (lists : Arrangement) (layer : Int) (prev id : NodeId) :
    Plain (insertBeside lists layer prev id) := by
  refine (plain_position _ _).bind fun below => ?_
  split
  · exact (plain_position _ _).bind fun _ => raises_ok _
  · exact raises_error rfl

end

section
variable {α : Type}

theorem plain_layerPosition? [Scalar α] (c : Config α) (layer : Int) :
    Plain (layerPosition? c layer) := by
  unfold layerPosition?
  split
  · exact raises_error rfl
  · exact raises_ok _

/-! ## changing a graph -/

namespace Graph

variable (g : Graph α)

theorem plain_require (id : NodeId) : Plain (g.require id) := by
  unfold require
  split
  · exact raises_ok _
  · exact raises_error rfl

theorem plain_requireAll (ids : List NodeId) : Plain (g.requireAll ids) :=
  raises_forM fun id _ => g.plain_require id

theorem plain_node (id : NodeId) : Plain (g.node id) := plain_entry g.nodes id

theorem plain_addNode (id : NodeId) (n : Node α) : Plain (g.addNode id n) := by
  unfold addNode
  split
  · exact raises_error rfl
  · split
    · exact raises_error rfl
    · exact raises_ok _

theorem plain_removeNode (id : NodeId) : Plain (g.removeNode id) :=
  (g.plain_require id).bind fun _ => raises_ok _

theorem plain_modifyNode (id : NodeId) (f : Node α → Node α) : Plain (g.modifyNode id f) := by
  unfold modifyNode
  have hdiscard : Plain (discard (g.node id)) := by
    intro fault h
    cases hn : g.node id with
    | ok n => rw [hn] at h; cases h
    | error fault' => rw [hn] at h; cases h; exact g.plain_node id _ hn
  exact hdiscard.bind fun _ => raises_ok _

theorem plain_addEdge (slot : Nat) (source target : NodeId) (isDummy : Bool) :
    Plain (g.addEdge slot source target isDummy) :=
  (g.plain_require source).bind fun _ => (g.plain_require target).bind fun _ => raises_ok _

theorem plain_detach (e : Edge) : Plain (g.detach e) := by
  unfold detach
  split
  · exact raises_error rfl
  · split
    · exact raises_error rfl
    · split
      · exact raises_error rfl
      · exact raises_ok _

theorem plain_reattach (e : Edge) : Plain (g.reattach e) := by
  have hrest : Plain (do g.require e.source; g.require e.target; return g.attach e) :=
    (g.plain_require _).bind fun _ => (g.plain_require _).bind fun _ => raises_ok _
  unfold reattach
  split
  · exact raises_error rfl
  · exact hrest

end Graph

/-! ## arrangements, heights and routes -/

theorem plain_sweep? [Scalar α] (g : Graph α) (h : Heuristic) (lists : Arrangement) :
    Plain (sweep? g h lists) :=
  (g.plain_requireAll _).bind fun _ => raises_ok _

theorem plain_improve [Scalar α] (g : Graph α) (h : Heuristic) (passes : Nat) (current : Arrangement)
    (best : Candidate) : Plain (improve g h passes current best) := by
  induction passes generalizing current best with
  | zero => exact raises_ok best
  | succ passes ih =>
    unfold improve
    split
    · exact raises_ok best
    · refine (plain_sweep? g h current).bind fun next => ?_
      dsimp only
      split
      · exact raises_ok _
      · exact ih _ _

theorem plain_bestArrangement [Scalar α] (g : Graph α) (c : Config α) (lists : Arrangement) :
    Plain (bestArrangement g c lists) :=
  (g.plain_requireAll _).bind fun _ => (plain_improve g _ _ _ _).bind fun _ => raises_ok _

section
variable [Scalar α] (g : Graph α) (spacing : α)

theorem plain_wish (hs : Heights α) (side : Side) (id : NodeId) : Plain (wish g hs side id) :=
  (g.plain_require id).bind fun _ => (raises_mapM fun _ => plain_entry hs _).bind fun _ =>
    (g.plain_node id).bind fun _ => raises_ok _

theorem plain_placeRow (heights : List α) (targets : List (Option α))
    (priorities : List (Priority α)) : Plain (placeRow spacing heights targets priorities) := by
  unfold placeRow
  split
  · exact raises_error rfl
  · exact raises_ok _

theorem plain_alignLayer (side : Side) (hs : Heights α) (layer : List NodeId) :
    Plain (alignLayer g spacing side hs layer) :=
  (raises_mapM fun _ => plain_entry hs _).bind fun _ =>
    (raises_mapM fun _ => plain_wish g hs side _).bind fun _ =>
      (plain_placeRow spacing _ _ _).bind fun _ => raises_ok _

theorem plain_alignPass (lists : Arrangement) (hs : Heights α) :
    Plain (alignPass g spacing lists hs) :=
  (raises_foldlM (fun hs _ => plain_alignLayer g spacing .incoming hs _) hs).bind fun hs =>
    raises_foldlM (fun hs _ => plain_alignLayer g spacing .outgoing hs _) hs

theorem plain_alignPasses (lists : Arrangement) (passes : Nat) (hs : Heights α) :
    Plain (alignPasses g spacing lists passes hs) := by
  induction passes generalizing hs with
  | zero => exact raises_ok hs
  | succ passes ih => exact (plain_alignPass g spacing lists hs).bind ih

theorem plain_heights (c : Config α) (lists : Arrangement) : Plain (heights g c lists) :=
  (plain_alignPasses g _ lists _ _).bind fun _ => raises_ok _

end

section
variable [Metric α]

theorem raises_onSegment (tol : α) (a p b : Point α) :
    Raises (fun fault => fault = .divisionByZero) (Point.onSegment tol a p b) := by
  unfold Point.onSegment
  dsimp only
  split
  · exact raises_ok _
  · split
    · exact raises_error rfl
    · exact raises_ok _
    · split
      · exact raises_error rfl
      · exact raises_ok _

/-- a length that vanishes is all that can keep a route from being cleaned -/
theorem raises_clean (tol : α) (start : Point α) (bends : List (Point α)) (finish : Point α) :
    Raises (fun fault => fault = .divisionByZero) (Route.clean tol start bends finish) := by
  induction bends generalizing start with
  | nil => exact raises_ok []
  | cons p rest ih =>
    unfold Route.clean
    split
    · exact ih start
    · refine (raises_onSegment tol start p _).bind fun on => ?_
      split
      · exact ih start
      · exact (ih p).bind fun _ => raises_ok _

theorem plain_clean (tol : α) (start : Point α) (bends : List (Point α)) (finish : Point α) :
    Plain (Route.clean tol start bends finish) :=
  (raises_clean tol start bends finish).mono fun _ hfault => hfault ▸ rfl

end

end

/-! ## the checks of a layout -/

/-- a plain fault, or an edge that does not lead to a higher layer -/
theorem raises_longEdges (layers : OrderedMap NodeId Int) (edges : List Edge) :
    Raises (fun fault => fault.isPlain = true ∨ ∃ e span, fault = .spanBelowOne e span)
      (longEdges layers edges) := by
  induction edges with
  | nil => exact raises_ok []
  | cons e rest ih =>
    unfold longEdges
    refine ((plain_span? layers e).mono fun _ => .inl).bind fun span => ?_
    by_cases hspan : span < 1
    · simp only [if_pos hspan]
      exact raises_error (.inr ⟨e, span, rfl⟩)
    · simp only [if_neg hspan]
      exact ih.bind fun _ => raises_ok _

/-- a plain fault, or a cycle -/
theorem raises_layering {α : Type} (g : Graph α) :
    Raises (fun fault => fault.isPlain = true ∨ ∃ cycle, fault = .cyclic cycle) g.layering := by
  have hlayer (layers : OrderedMap NodeId Int) (id : NodeId) : Plain (g.layerFrom layers id) :=
    (raises_mapM fun _ => plain_entry layers _).bind fun _ => raises_ok _
  unfold Graph.layering
  split
  · have hfold := raises_foldlM (l := g.topologicalOrder) (fun layers id =>
      (hlayer layers id).bind fun layer => raises_ok (layers.insert id layer)) ∅
    exact hfold.mono fun _ => .inl
  · exact raises_error (.inr ⟨_, rfl⟩)

/-- a plain fault, or an edge that does not lead to the next layer -/
theorem raises_requireUnitSpans {α : Type} (g : Graph α) (s : Snapshot) :
    Raises (fun fault => fault.isPlain = true ∨ ∃ e span, fault = .spanNotOne e span)
      (requireUnitSpans g s) := by
  refine raises_forM fun e _ => ((plain_span? s.layers e).mono fun _ => .inl).bind fun span => ?_
  split
  · exact raises_error (.inr ⟨e, span, rfl⟩)
  · exact raises_ok _

section
variable {α : Type} [Scalar α] (hs : Heights α)

/-- a plain fault, or two neighbours turned round -/
theorem raises_requireAscending (i : Nat) (layer : List NodeId) :
    Raises (fun fault => fault.isPlain = true ∨ ∃ upper lower i, fault = .swapped upper lower i)
      (requireAscending hs i layer) := by
  match layer with
  | [] => exact raises_ok ()
  | [_] => exact raises_ok ()
  | upper :: lower :: rest =>
    unfold requireAscending
    refine ((plain_entry hs upper).mono fun _ => .inl).bind fun y => ?_
    refine ((plain_entry hs lower).mono fun _ => .inl).bind fun z => ?_
    split
    · exact raises_error (.inr ⟨upper, lower, i, rfl⟩)
    · exact raises_requireAscending i (lower :: rest)

theorem raises_requireOrdered (lists : Arrangement) :
    Raises (fun fault => fault.isPlain = true ∨ ∃ upper lower i, fault = .swapped upper lower i)
      (requireOrdered hs lists) :=
  raises_forM fun p _ => raises_requireAscending hs p.2 p.1

end

end LayeredDrawing
