import LayeredDrawing.Proofs.Session.Seen
import LayeredDrawing.Proofs.Workspace.Copies

/-!
# Sessions on either side of a parting

One session works on the copy of a graph, the other on the graph itself, from the same commands.  What
came after the copy answers to each other in the two; what was there before is kept as it was by the
first.  Each command keeps this and is answered alike, so a whole list of commands is.

* `Grown`            a list of the first session, what it held before, and the list of the second;
* `Parting.Sessions`   the sessions;
* `together_onGraph`, `together_keepEdge` and so on   the parts that commands are made of;
* `together_execute`   one command;
* `run_parting`      a list of commands.
-/

namespace LayeredDrawing

/-! ## lists that grow -/

section
variable {β : Type}

/-- The first list has kept all that was there before.  Each of its later members is answered by the
one at position `π i` of the second. -/
structure Grown (π : Nat → Nat) (R : β → β → Prop) (old l l' : List β) : Prop where
  kept : old <+: l
  length : l'.length = l.length
  later : ∀ i, old.length ≤ i → Option.Rel R l[i]? l'[π i]?
  fixed : ∀ i, l.length ≤ i → π i = i
  injective : ∀ i j, old.length ≤ i → old.length ≤ j → π i = π j → i = j

theorem grown_refl (R : β → β → Prop) (l : List β) : Grown id R l l l where
  kept := List.prefix_rfl
  length := rfl
  later i hi := by
    rw [id, List.getElem?_eq_none hi]
    exact .none
  fixed _ _ := rfl
  injective _ _ _ _ h := h

variable {π : Nat → Nat} {R : β → β → Prop} {old l l' : List β}

theorem Grown.lt (h : Grown π R old l l') {i : Nat} (hi : old.length ≤ i) (hlt : i < l.length) :
    π i < l'.length := by
  have hrel := h.later i hi
  rw [List.getElem?_eq_getElem hlt] at hrel
  generalize ho : l'[π i]? = o at hrel
  cases hrel with
  | some _ => exact (List.getElem?_eq_some_iff.1 ho).1

theorem Grown.set (h : Grown π R old l l') {i : Nat} (hi : old.length ≤ i) {x x' : β} (hx : R x x') :
    Grown π R old (l.set i x) (l'.set (π i) x') where
  kept := by
    rw [List.prefix_iff_eq_take, List.take_set_of_le hi]
    exact List.prefix_iff_eq_take.1 h.kept
  length := by rw [List.length_set, List.length_set, h.length]
  later j hj := by
    rw [List.getElem?_set, List.getElem?_set]
    by_cases hij : i = j
    · subst hij
      by_cases hlt : i < l.length
      · rw [if_pos rfl, if_pos rfl, if_pos hlt, if_pos (h.lt hi hlt)]
        exact .some hx
      · have hfixed := h.fixed i (Nat.le_of_not_lt hlt)
        rw [if_pos rfl, if_pos rfl, if_neg hlt, if_neg (by rw [hfixed, h.length]; exact hlt)]
        exact .none
    · rw [if_neg hij, if_neg fun heq => hij (h.injective i j hi hj heq)]
      exact h.later j hj
  fixed j hj := h.fixed j (by rwa [List.length_set] at hj)
  injective := h.injective

theorem Grown.concat (h : Grown π R old l l') {x x' : β} (hx : R x x') :
    Grown π R old (l ++ [x]) (l' ++ [x']) where
  kept := h.kept.trans (List.prefix_append l [x])
  length := by rw [List.length_append, List.length_append, h.length]; rfl
  later i hi := by
    by_cases hlt : i < l.length
    · rw [List.getElem?_append_left hlt, List.getElem?_append_left (h.lt hi hlt)]
      exact h.later i hi
    · have hle := Nat.le_of_not_lt hlt
      rw [h.fixed i hle, List.getElem?_append_right hle, List.getElem?_append_right (h.length ▸ hle),
        h.length]
      cases i - l.length with
      | zero => exact .some hx
      | succ k => exact .none
  fixed i hi := h.fixed i (by rw [List.length_append] at hi; omega)
  injective := h.injective

/-- a position counted from the start -/
theorem pick_natCast (l : List β) (i : Nat) : SessionAction.pick l i
    = l[i]?.elim (.error (.ofPosition i)) fun a => .ok (i, a) := by
  unfold SessionAction.pick
  by_cases hi : i < l.length
  · have hposition : position l.length (i : Int) = .ok i := position_eq_ok_iff.2 (position?_natCast hi)
    rw [hposition]
    simp only [bind, Except.bind]
    rw [List.getElem?_eq_getElem hi]
    rfl
  · have hposition : position l.length (i : Int) = .error (.ofPosition i) := by
      have hnone : position? l.length (i : Int) = none := by simp [position?, hi]
      rw [position, hnone]
    rw [hposition, List.getElem?_eq_none (Nat.le_of_not_lt hi)]
    rfl

theorem Grown.pick (h : Grown π R old l l') {i : Nat} (hi : old.length ≤ i) :
    Paired Fault.Alike (fun x x' => old.length ≤ x.1 ∧ x'.1 = π x.1 ∧ R x.2 x'.2)
      (SessionAction.pick l i) (SessionAction.pick l' (π i : Nat)) := by
  rw [pick_natCast, pick_natCast]
  have hrel := h.later i hi
  by_cases hlt : i < l.length
  · generalize ho : l[i]? = o at hrel ⊢
    generalize l'[π i]? = o' at hrel ⊢
    cases hrel with
    | none => rw [List.getElem?_eq_getElem hlt] at ho; cases ho
    | some hx => exact ⟨hi, rfl, hx⟩
  · have hle := Nat.le_of_not_lt hlt
    rw [h.fixed i hle, List.getElem?_eq_none hle, List.getElem?_eq_none (h.length ▸ hle)]
    exact Fault.alike_refl _

end

/-! ## sessions -/

/-- the graph that answers to the one at a position: the graph at `g` answers to the one at `n` -/
def redirected (n g i : Nat) : Nat := if i = n then g else i

theorem cast_redirected (n g i : Nat) :
    ((redirected n g i : Nat) : Int) = if (i : Int) = n then (g : Int) else i := by
  unfold redirected
  split <;> split <;> omega

namespace Parting

variable {α : Type}

/-- the session on the copy's side, and the other; the copy of the graph at `g` comes right after the
graphs of the session `old` -/
structure Sessions (p : Parting α) (old : Session α) (g : Nat) (s s' : Session α) : Prop where
  graphs : Grown (redirected old.graphs.length g) p.Graphs old.graphs s.graphs s'.graphs
  edges : Grown id p.Edges old.edges s.edges s'.edges
  snapshots : Grown id (fun x x' => old.graphs.length ≤ x.1 ∧
    x'.1 = redirected old.graphs.length g x.1 ∧ p.Snapshots x.2 x'.2) old.snapshots s.snapshots s'.snapshots
  bends : p.Stores s.bends s'.bends

variable {p : Parting α} {old : Session α} {g : Nat}

/-- work on the two sessions, in step -/
abbrev Together (p : Parting α) (old : Session α) (g : Nat) {β β' : Type} (R : β → β' → Prop)
    (a : SessionAction α β) (a' : SessionAction α β') : Prop :=
  LayeredDrawing.InStep (p.Sessions old g) Refusal.Alike R a a'

section
variable {β β' : Type} {R : β → β' → Prop}

theorem together_check {r : Except Fault β} {r' : Except Fault β'} (h : Paired Fault.Alike R r r') :
    p.Together old g R (SessionAction.check r) (SessionAction.check r') := by
  intro s s' hs
  cases r <;> cases r'
  · exact ⟨congrArg Refusal.fault h, hs⟩
  · exact h.elim
  · exact h.elim
  · exact ⟨h, hs⟩

theorem together_configure [Scalar α] (settings : List (Setting α)) :
    p.Together old g Eq (SessionAction.configure settings) (SessionAction.configure settings) := by
  intro s s' hs
  unfold SessionAction.configure
  cases Config.ofSettings settings with
  | ok c => exact ⟨rfl, hs⟩
  | error f => exact ⟨rfl, hs⟩

theorem together_stageNamed (name : String) :
    p.Together old g Eq (SessionAction.stageNamed name) (SessionAction.stageNamed name) := by
  unfold SessionAction.stageNamed
  cases Stage.ofName? name with
  | some stage => exact inStep_pure rfl
  | none => exact together_check (Fault.alike_refl _)

end

/-! ## looking things up -/

section
variable {s s' : Session α} (hs : p.Sessions old g s s')
include hs

/-- a graph that came after the copy, or the copy -/
theorem Sessions.pick_graph {i : Int} (hi : (old.graphs.length : Int) ≤ i) :
    Paired Fault.Alike (fun x x' => old.graphs.length ≤ x.1 ∧
        x'.1 = redirected old.graphs.length g x.1 ∧ p.Graphs x.2 x'.2)
      (SessionAction.pick s.graphs i)
      (SessionAction.pick s'.graphs (if i = old.graphs.length then g else i)) := by
  obtain ⟨k, rfl⟩ := Int.eq_ofNat_of_zero_le (a := i) (by omega)
  have hk : old.graphs.length ≤ k := by omega
  rw [← cast_redirected]
  exact hs.graphs.pick hk

theorem Sessions.pick_edge {i : Int} (hi : (old.edges.length : Int) ≤ i) :
    Paired Fault.Alike (fun x x' => p.Edges x.2 x'.2)
      (SessionAction.pick s.edges i) (SessionAction.pick s'.edges i) := by
  obtain ⟨k, rfl⟩ := Int.eq_ofNat_of_zero_le (a := i) (by omega)
  exact (hs.edges.pick (by omega)).mono fun _ _ h => h.2.2

theorem Sessions.pick_snapshot {i : Int} (hi : (old.snapshots.length : Int) ≤ i) :
    Paired Fault.Alike (fun x x' => old.graphs.length ≤ x.2.1 ∧
        x'.2.1 = redirected old.graphs.length g x.2.1 ∧ p.Snapshots x.2.2 x'.2.2)
      (SessionAction.pick s.snapshots i) (SessionAction.pick s'.snapshots i) := by
  obtain ⟨k, rfl⟩ := Int.eq_ofNat_of_zero_le (a := i) (by omega)
  exact (hs.snapshots.pick (by omega)).mono fun _ _ h => h.2.2

end

section
variable {i e k : Int}

theorem together_edgeAt (he : (old.edges.length : Int) ≤ e) :
    p.Together old g p.Edges (SessionAction.edgeAt e) (SessionAction.edgeAt e) :=
  inStep_get.bind fun _ _ hs => (together_check (hs.pick_edge he)).bind fun _ _ hx => inStep_pure hx

theorem together_snapshotAt (hk : (old.snapshots.length : Int) ≤ k) :
    p.Together old g (fun x x' => old.graphs.length ≤ x.1 ∧
        x'.1 = redirected old.graphs.length g x.1 ∧ p.Snapshots x.2 x'.2)
      (SessionAction.snapshotAt k) (SessionAction.snapshotAt k) :=
  inStep_get.bind fun _ _ hs => (together_check (hs.pick_snapshot hk)).bind fun _ _ hx => inStep_pure hx

section
variable (hi : (old.graphs.length : Int) ≤ i)
include hi

theorem together_graphPosition :
    p.Together old g (fun q q' => old.graphs.length ≤ q ∧ q' = redirected old.graphs.length g q)
      (SessionAction.graphPosition i)
      (SessionAction.graphPosition (if i = old.graphs.length then g else i)) :=
  inStep_get.bind fun _ _ hs => (together_check (hs.pick_graph hi)).bind fun _ _ hx =>
    inStep_pure ⟨hx.1, hx.2.1⟩

theorem together_edgeFor (he : (old.edges.length : Int) ≤ e) :
    p.Together old g p.Edges (SessionAction.edgeFor i e)
      (SessionAction.edgeFor (if i = old.graphs.length then g else i) e) :=
  (together_graphPosition hi).discard.bind fun _ _ _ => together_edgeAt he

theorem together_askGraph {β β' : Type} {R : β → β' → Prop} {f : Graph α → Except Fault β}
    {f' : Graph α → Except Fault β'} (h : ∀ x x', p.Graphs x x' → Paired Fault.Alike R (f x) (f' x')) :
    p.Together old g R (SessionAction.askGraph i f)
      (SessionAction.askGraph (if i = old.graphs.length then g else i) f') :=
  inStep_get.bind fun _ _ hs => (together_check (hs.pick_graph hi)).bind fun _ _ hx =>
    together_check (h _ _ hx.2.2)

theorem together_onGraph {β β' : Type} {R : β → β' → Prop} {a : Action α β} {a' : Action α β'}
    (h : p.InStep R a a') : p.Together old g R (SessionAction.onGraph i a)
      (SessionAction.onGraph (if i = old.graphs.length then g else i) a') := by
  refine inStep_get.bind fun s s' hs => (together_check (hs.pick_graph hi)).bind fun x x' hx => ?_
  obtain ⟨q, graph⟩ := x
  obtain ⟨q', graph'⟩ := x'
  obtain ⟨hq, rfl, hgraph⟩ := hx
  obtain ⟨hends, hw⟩ := h ⟨graph, s.bends⟩ ⟨graph', s'.bends⟩ ⟨hgraph, hs.bends⟩
  refine (inStep_set ?_).bind fun _ _ _ => together_check hends
  exact ⟨hs.graphs.set hq hw.graph, hs.edges, hs.snapshots, hw.bends⟩

end

end

section
variable {q : Nat} (hq : old.graphs.length ≤ q) {β β' : Type} {R : β → β' → Prop}
include hq

/-- the same for a position that a snapshot holds -/
theorem together_askGraphAt {f : Graph α → Except Fault β} {f' : Graph α → Except Fault β'}
    (h : ∀ x x', p.Graphs x x' → Paired Fault.Alike R (f x) (f' x')) :
    p.Together old g R (SessionAction.askGraph q f)
      (SessionAction.askGraph (redirected old.graphs.length g q : Nat) f') := by
  rw [cast_redirected]
  exact together_askGraph (Int.ofNat_le.2 hq) h

theorem together_onGraphAt {a : Action α β} {a' : Action α β'} (h : p.InStep R a a') :
    p.Together old g R (SessionAction.onGraph q a)
      (SessionAction.onGraph (redirected old.graphs.length g q : Nat) a') := by
  rw [cast_redirected]
  exact together_onGraph (Int.ofNat_le.2 hq) h

end

/-! ## answers and what is kept -/

section
variable {e e' : Edge} (he : p.Edges e e')
include he

theorem together_replyEdge :
    p.Together old g Reply.Alike (SessionAction.replyEdge e) (SessionAction.replyEdge e') :=
  inStep_get.bind fun _ _ hs => inStep_pure (alike_edge hs.bends he)

theorem together_keepEdge :
    p.Together old g Reply.Alike (SessionAction.keepEdge e) (SessionAction.keepEdge e') :=
  (inStep_modify fun _ _ hs => ⟨hs.graphs, hs.edges.concat he, hs.snapshots, hs.bends⟩).bind
    fun _ _ _ => together_replyEdge he

end

section
variable {t t' : Snapshot} (ht : p.Snapshots t t')
include ht

theorem together_replySnapshot :
    p.Together old g Reply.Alike (SessionAction.replySnapshot t) (SessionAction.replySnapshot t') :=
  inStep_get.bind fun _ _ hs => inStep_pure (alike_snapshot ht hs.bends)

theorem together_keepSnapshot {q q' : Nat} (hq : old.graphs.length ≤ q)
    (hq' : q' = redirected old.graphs.length g q) :
    p.Together old g Reply.Alike (SessionAction.keepSnapshot q t) (SessionAction.keepSnapshot q' t') :=
  (inStep_modify fun _ _ hs =>
    ⟨hs.graphs, hs.edges, hs.snapshots.concat ⟨hq, hq', ht⟩, hs.bends⟩).bind
    fun _ _ _ => together_replySnapshot ht

end

theorem together_keepGraph {x x' : Graph α} (hx : p.Graphs x x') :
    p.Together old g Reply.Alike (SessionAction.keepGraph x) (SessionAction.keepGraph x') := by
  refine inStep_get.bind fun s s' hs => ?_
  rw [hs.graphs.length]
  refine (inStep_modify fun t t' ht => ?_).bind fun _ _ _ => inStep_pure rfl
  exact ⟨ht.graphs.concat hx, ht.edges, ht.snapshots, ht.bends⟩

/-! ## commands -/

theorem paired_of_eq {r r' : Except Fault (Reply α)} (h : r' = r) :
    Paired Fault.Alike Reply.Alike r r' := by
  subst h
  exact (paired_refl Fault.alike_refl r').mono fun _ _ h => congrArg Reply.seen h.symm

section
variable {i : Int} (hi : (old.graphs.length : Int) ≤ i)
include hi

/-- a question with the same answer for both graphs -/
theorem together_askSame {f : Graph α → Except Fault (Reply α)}
    (h : ∀ x x', p.Graphs x x' → f x' = f x) :
    p.Together old g Reply.Alike (SessionAction.askGraph i f)
      (SessionAction.askGraph (if i = old.graphs.length then g else i) f) :=
  together_askGraph hi fun x x' hx => paired_of_eq (h x x' hx)

theorem together_askNode (id : NodeId) {f : Graph α → Reply α}
    (h : ∀ x x', p.Graphs x x' → f x' = f x) :
    p.Together old g Reply.Alike (SessionAction.askNode i id f)
      (SessionAction.askNode (if i = old.graphs.length then g else i) id f) :=
  together_askSame hi fun x x' hx => by rw [hx.require, h x x' hx]

theorem together_edit {f f' : Graph α → Except Fault (Graph α)}
    (h : ∀ x x', p.Graphs x x' → Paired Fault.Alike p.Graphs (f x) (f' x')) (r : Reply α) :
    p.Together old g Reply.Alike
      (SessionAction.onGraph i (Action.edit f) >>= fun _ => pure r)
      (SessionAction.onGraph (if i = old.graphs.length then g else i) (Action.edit f')
        >>= fun _ => pure r) :=
  (together_onGraph hi (inStep_edit h)).bind fun _ _ _ => inStep_pure rfl

theorem together_getGraph : p.Together old g p.Graphs (SessionAction.askGraph i .ok)
    (SessionAction.askGraph (if i = old.graphs.length then g else i) .ok) :=
  together_askGraph hi fun _ _ hx => hx

theorem together_copyGraph [Metric α] :
    p.Together old g Reply.Alike (SessionAction.execute (.copyGraph i))
      (SessionAction.execute (.copyGraph (if i = old.graphs.length then g else i))) := by
  refine (together_getGraph hi).bind fun x x' hx => inStep_get.bind fun s s' hs => ?_
  have hcopy : p.Workspaces (Workspace.copyGraph ⟨x, s.bends⟩) (Workspace.copyGraph ⟨x', s'.bends⟩) :=
    Workspaces.copyGraph ⟨hx, hs.bends⟩
  refine (inStep_modify fun t t' ht => ?_).bind fun _ _ _ => together_keepGraph hcopy.graph
  exact ⟨ht.graphs, ht.edges, ht.snapshots, hcopy.bends⟩

end

/-- a new edge without bends, outside every graph -/
theorem together_makeEdge [Metric α] (key : Int) (source target : NodeId) :
    p.Together old g Reply.Alike (SessionAction.execute (.makeEdge key source target))
      (SessionAction.execute (.makeEdge key source target)) := by
  refine inStep_get.bind fun s s' hs => ?_
  have he : p.Edges ⟨s.bends.fresh, key, source, target, false⟩
      ⟨s'.bends.fresh, key, source, target, false⟩ := by
    refine ⟨Nat.le_trans p.base_le hs.bends.next_le, ?_⟩
    rw [hs.bends.fresh]
    exact congrArg (Edge.mk · key source target false) (p.across_of_le hs.bends.next_le).symm
  refine (inStep_modify fun t t' ht => ?_).bind fun _ _ _ => together_keepEdge he
  exact ⟨ht.graphs, ht.edges, ht.snapshots, ht.bends.push []⟩

/-- each command is answered alike -/
theorem together_execute [Metric α] (c : Command α) (hc : c.After old) :
    p.Together old g Reply.Alike (SessionAction.execute c)
      (SessionAction.execute (c.redirect old.graphs.length g)) := by
  obtain ⟨hgraph, hedge, hsnapshot⟩ := hc
  cases c with dsimp only [SessionAction.execute, Command.redirect, Command.mapGraph]
  | newGraph => exact together_keepGraph p.graphs_empty
  | copyGraph i => exact together_copyGraph (hgraph i rfl)
  | addNode i id n => exact together_edit (hgraph i rfl) (fun x x' hx => hx.addNode id n) _
  | removeNode i id => exact together_edit (hgraph i rfl) (fun x x' hx => hx.removeNode id) _
  | node i id => exact together_askSame (hgraph i rfl) fun x x' hx => by rw [hx.node]
  | hasNode i id => exact together_askSame (hgraph i rfl) fun x x' hx => by rw [hx.hasNode]
  | addEdge i source target isDummy =>
    exact (together_onGraph (hgraph i rfl) (inStep_addEdge source target isDummy)).bind
      fun _ _ he => together_keepEdge he
  | makeEdge key source target => exact together_makeEdge key source target
  | findEdge i key =>
    exact (together_askGraph (hgraph i rfl) fun x x' hx => hx.edge key).bind
      fun _ _ he => together_keepEdge he
  | removeEdge i e =>
    exact (together_edgeFor (hgraph i rfl) (hedge e rfl)).bind fun _ _ he =>
      together_edit (hgraph i rfl) (fun x x' hx => hx.detach he) _
  | reattach i e =>
    refine (together_edgeFor (hgraph i rfl) (hedge e rfl)).bind fun _ _ he => ?_
    exact (together_onGraph (hgraph i rfl) (inStep_reattach he)).bind fun _ _ hd => together_replyEdge hd
  | hasEdge i e =>
    refine (together_edgeFor (hgraph i rfl) (hedge e rfl)).bind fun _ _ he => ?_
    exact together_askGraph (hgraph i rfl) fun x x' hx => paired_of_eq (by rw [hx.hasEdge he])
  | sourceNode i e =>
    refine (together_edgeFor (hgraph i rfl) (hedge e rfl)).bind fun _ _ he => ?_
    rw [he.source]
    exact together_askSame (hgraph i rfl) fun x x' hx => by rw [hx.node]
  | targetNode i e =>
    refine (together_edgeFor (hgraph i rfl) (hedge e rfl)).bind fun _ _ he => ?_
    rw [he.target]
    exact together_askSame (hgraph i rfl) fun x x' hx => by rw [hx.node]
  | addBend e q =>
    refine (together_edgeAt (hedge e rfl)).bind fun d d' hd => ?_
    refine (inStep_modify fun t t' ht => ?_).bind fun _ _ _ => together_replyEdge hd
    rw [ht.bends.get_slot hd]
    exact ⟨ht.graphs, ht.edges, ht.snapshots, ht.bends.set hd _⟩
  | showEdge e => exact (together_edgeAt (hedge e rfl)).bind fun _ _ he => together_replyEdge he
  | describeEdge e =>
    refine (together_edgeAt (hedge e rfl)).bind fun d d' hd => inStep_pure ?_
    obtain ⟨_, rfl⟩ := hd
    rfl
  | inEdges i id =>
    exact together_askNode (hgraph i rfl) id fun x x' hx =>
      congrArg Reply.keys (map_eq_map_of_forall₂ (hx.inEdges id) fun _ _ he => he.key)
  | outEdges i id =>
    exact together_askNode (hgraph i rfl) id fun x x' hx =>
      congrArg Reply.keys (map_eq_map_of_forall₂ (hx.outEdges id) fun _ _ he => he.key)
  | inDegree i id =>
    exact together_askNode (hgraph i rfl) id fun x x' hx =>
      congrArg Reply.number (hx.inEdges id).length_eq.symm
  | outDegree i id =>
    exact together_askNode (hgraph i rfl) id fun x x' hx =>
      congrArg Reply.number (hx.outEdges id).length_eq.symm
  | predecessors i id =>
    exact together_askNode (hgraph i rfl) id fun x x' hx =>
      congrArg Reply.ids (hx.predecessors id)
  | successors i id =>
    exact together_askNode (hgraph i rfl) id fun x x' hx =>
      congrArg Reply.ids (hx.successors id)
  | setPosition i id q => exact together_edit (hgraph i rfl) (fun x x' hx => hx.modifyNode id _) _
  | position i id => exact together_askSame (hgraph i rfl) fun x x' hx => by rw [hx.node]
  | cleanRoutes i tol =>
    refine (together_onGraph (hgraph i rfl) (inStep_cleanRoutes tol)).bind_same fun n => ?_
    exact inStep_pure rfl
  | nodeIds i => exact together_askSame (hgraph i rfl) fun x x' hx => by rw [hx.nodeIds]
  | edgeKeys i =>
    exact together_askSame (hgraph i rfl) fun x x' hx =>
      congrArg (fun l => Except.ok (Reply.keys l)) (map_eq_map_of_forall₂ hx.edges fun _ _ he => he.key)
  | showGraph i =>
    refine (together_getGraph (hgraph i rfl)).bind fun x x' hx => ?_
    exact inStep_get.bind fun s s' hs => inStep_pure (alike_graph ⟨hx, hs.bends⟩)
  | describeGraph i =>
    exact together_askSame (hgraph i rfl) fun x x' hx =>
      congrArg (fun words => Except.ok (Reply.text words)) hx.text
  | newSnapshot i stage layers lists =>
    refine (together_graphPosition (hgraph i rfl)).bind fun q q' hq => ?_
    refine (together_stageNamed stage).bind_same fun stage => ?_
    exact together_keepSnapshot ⟨rfl, rfl, rfl, OrderedMap.related_empty⟩ hq.1 hq.2
  | phase k phase settings =>
    refine (together_snapshotAt (hsnapshot k rfl)).bind fun ⟨q, t⟩ ⟨q', t'⟩ ⟨hq, hq', ht⟩ => ?_
    refine (together_configure settings).bind_same fun c => ?_
    subst hq'
    refine (together_onGraphAt hq (inStep_apply c phase ht)).bind fun t t' ht => ?_
    exact together_keepSnapshot ht hq rfl
  | draw i settings =>
    refine (together_graphPosition (hgraph i rfl)).bind fun q q' hq => ?_
    refine (together_configure settings).bind_same fun c => ?_
    refine (together_onGraph (hgraph i rfl) (inStep_draw c p)).bind fun t t' ht => ?_
    exact together_keepSnapshot ht hq.1 hq.2
  | showSnapshot k =>
    exact (together_snapshotAt (hsnapshot k rfl)).bind fun x x' hx => together_replySnapshot hx.2.2
  | requireUnitSpans k =>
    refine (together_snapshotAt (hsnapshot k rfl)).bind fun ⟨q, t⟩ ⟨q', t'⟩ ⟨hq, hq', ht⟩ => ?_
    subst hq'
    refine (together_askGraphAt hq fun x x' hx => paired_requireUnitSpans hx ht).bind fun _ _ _ => ?_
    exact inStep_pure rfl
  | requireStage k stage =>
    refine (together_snapshotAt (hsnapshot k rfl)).bind fun ⟨q, t⟩ ⟨q', t'⟩ ⟨hq, hq', ht⟩ => ?_
    refine (together_stageNamed stage).bind_same fun stage => ?_
    rw [ht.requireStage]
    exact (together_check (paired_refl Fault.alike_refl _)).bind fun _ _ _ => inStep_pure rfl
  | crossings k =>
    refine (together_snapshotAt (hsnapshot k rfl)).bind fun ⟨q, t⟩ ⟨q', t'⟩ ⟨hq, hq', ht⟩ => ?_
    subst hq'
    rw [ht.arrangement]
    have hcount (x x' : Graph α) (hx : p.Graphs x x') :
        Paired Fault.Alike Eq (crossings? x t.arrangement) (crossings? x' t.arrangement) := by
      rw [hx.crossings?]
      exact paired_refl Fault.alike_refl _
    refine (together_askGraphAt hq hcount).bind_same fun n => ?_
    exact inStep_pure rfl

/-! ## runs -/

section
variable [Metric α] {s s' : Session α} (hs : p.Sessions old g s s')
include hs

theorem step_parting {c : Command α} (hc : c.After old) :
    answerSeen (Session.step (c.redirect old.graphs.length g) s').1 = answerSeen (Session.step c s).1 ∧
      p.Sessions old g (Session.step c s).2 (Session.step (c.redirect old.graphs.length g) s').2 :=
  ⟨answerSeen_eq (together_execute c hc s s' hs).1, (together_execute c hc s s' hs).2⟩

theorem run_parting {cs : List (Command α)} (hcs : ∀ c ∈ cs, c.After old) :
    (Session.run (cs.map (Command.redirect old.graphs.length g)) s').1.map answerSeen
        = (Session.run cs s).1.map answerSeen ∧
      p.Sessions old g (Session.run cs s).2
        (Session.run (cs.map (Command.redirect old.graphs.length g)) s').2 := by
  induction cs generalizing s s' with
  | nil => exact ⟨rfl, hs⟩
  | cons c cs ih =>
    obtain ⟨hanswer, hnext⟩ := step_parting hs (hcs c List.mem_cons_self)
    obtain ⟨hanswers, hlast⟩ := ih hnext fun d hd => hcs d (List.mem_cons_of_mem c hd)
    exact ⟨congrArg₂ List.cons hanswer hanswers, hlast⟩

end

end Parting

end LayeredDrawing
