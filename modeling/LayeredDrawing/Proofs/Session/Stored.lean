import LayeredDrawing.Proofs.Phase.Stored
import LayeredDrawing.Session.Step

/-!
# Sessions and the store

Whatever has been asked of a session, no edge that it holds has lost its bends: the edges of its graphs,
those in hand and those in the chains of its snapshots have them in the store.

* `Session.Stored`   the invariant;
* `stores_execute`   one command;
* `Stored.run`       every session that commands lead to.
-/

namespace LayeredDrawing

variable {α : Type}

/-- every edge that can be reached from the session has its bends in the store -/
structure Session.Stored (s : Session α) : Prop where
  graphs : ∀ g ∈ s.graphs, g.Within s.bends.fresh
  edges : ∀ e ∈ s.edges, e.slot < s.bends.fresh
  snapshots : ∀ x ∈ s.snapshots, x.2.Within s.bends.fresh

namespace Session

theorem stored_initial : (initial : Session α).Stored where
  graphs g hg := by
    rw [List.mem_singleton.1 hg]
    exact Graph.within_empty _
  edges _ he := (List.not_mem_nil he).elim
  snapshots _ hx := (List.not_mem_nil hx).elim

section
variable {s : Session α} (h : s.Stored)
include h

theorem Stored.withBends {b : Bends α} (hb : s.bends.fresh ≤ b.fresh) :
    ({ s with bends := b } : Session α).Stored :=
  ⟨fun g hg => (h.graphs g hg).mono hb, fun e he => Nat.lt_of_lt_of_le (h.edges e he) hb,
    fun x hx => (h.snapshots x hx).mono hb⟩

theorem Stored.addGraph {g : Graph α} (hg : g.Within s.bends.fresh) :
    ({ s with graphs := s.graphs ++ [g] } : Session α).Stored :=
  ⟨List.forall_mem_append.2 ⟨h.graphs, List.forall_mem_singleton.2 hg⟩, h.edges, h.snapshots⟩

theorem Stored.addEdge {e : Edge} (he : e.slot < s.bends.fresh) :
    ({ s with edges := s.edges ++ [e] } : Session α).Stored :=
  ⟨h.graphs, List.forall_mem_append.2 ⟨h.edges, List.forall_mem_singleton.2 he⟩, h.snapshots⟩

theorem Stored.addSnapshot {x : Nat × Snapshot} (hx : x.2.Within s.bends.fresh) :
    ({ s with snapshots := s.snapshots ++ [x] } : Session α).Stored :=
  ⟨h.graphs, h.edges, List.forall_mem_append.2 ⟨h.snapshots, List.forall_mem_singleton.2 hx⟩⟩

end

end Session

namespace SessionAction

theorem mem_of_pick {γ : Type} {l : List γ} {i : Int} {x : Nat × γ} (h : pick l i = .ok x) : x.2 ∈ l := by
  unfold pick at h
  cases hp : position l.length i with
  | error fault => rw [hp] at h; cases h
  | ok p =>
    rw [hp] at h
    simp only [bind, Except.bind] at h
    cases hget : l[p]? with
    | none => rw [hget] at h; cases h
    | some a =>
      rw [hget] at h
      cases h
      exact List.mem_of_getElem? hget

/-- work on a session that keeps all edges in the store -/
abbrev Stores {β : Type} (n : Nat) (Q : Nat → β → Prop) (a : SessionAction α β) : Prop :=
  Grows (fun s : Session α => s.bends.fresh) Session.Stored n Q a

section
variable {β : Type} {n : Nat} {Q : Nat → β → Prop}

theorem stores_check {r : Except Fault β} (h : ∀ b m, r = .ok b → n ≤ m → Q m b) :
    Stores n Q (check r : SessionAction α β) := by
  intro s hs hn
  cases r with
  | ok b => exact ⟨Nat.le_refl _, hs, fun c hc => by cases hc; exact h b _ rfl hn⟩
  | error fault => exact ⟨Nat.le_refl _, hs, fun c hc => by cases hc⟩

theorem stores_configure [Scalar α] (settings : List (Setting α)) :
    Stores n (fun _ _ => True) (configure settings) := by
  intro s hs hn
  unfold configure
  cases Config.ofSettings settings with
  | ok c => exact ⟨Nat.le_refl _, hs, fun _ _ => trivial⟩
  | error f => exact ⟨Nat.le_refl _, hs, fun _ _ => trivial⟩

theorem stores_stageNamed (name : String) :
    Stores n (fun _ _ => True) (stageNamed name : SessionAction α Stage) := by
  unfold stageNamed
  cases Stage.ofName? name with
  | some stage => exact grows_pure fun _ _ => trivial
  | none => exact stores_check fun _ _ _ _ => trivial

/-! ## looking things up -/

theorem stores_graphPosition (g : Int) :
    Stores n (fun _ _ => True) (graphPosition g : SessionAction α Nat) :=
  grows_get.bind fun _ _ _ _ => (stores_check fun _ _ _ _ => trivial).bind fun _ _ _ (_ : True) =>
    grows_pure fun _ _ => trivial

theorem stores_edgeAt (e : Int) : Stores n (fun m d => d.slot < m) (edgeAt e : SessionAction α Edge) := by
  refine grows_get.bind fun k s _ hs => ?_
  obtain ⟨hs, rfl⟩ := hs
  have hpick : Stores s.bends.fresh (fun m x => x.2.slot < m)
      (check (pick s.edges e) : SessionAction α (Nat × Edge)) :=
    stores_check fun x m hx hm => Nat.lt_of_lt_of_le (hs.edges _ (mem_of_pick hx)) hm
  exact hpick.bind fun _ _ _ hx => grows_pure fun _ hm => Nat.lt_of_lt_of_le hx hm

theorem stores_edgeFor (g e : Int) :
    Stores n (fun m d => d.slot < m) (edgeFor g e : SessionAction α Edge) :=
  (stores_graphPosition g).discard.bind fun _ _ _ _ => stores_edgeAt e

theorem stores_snapshotAt (k : Int) :
    Stores n (fun m x => x.2.Within m) (snapshotAt k : SessionAction α (Nat × Snapshot)) := by
  refine grows_get.bind fun _ s _ hs => ?_
  obtain ⟨hs, rfl⟩ := hs
  have hpick : Stores s.bends.fresh (fun m x => x.2.2.Within m)
      (check (pick s.snapshots k) : SessionAction α (Nat × Nat × Snapshot)) :=
    stores_check fun x m hx hm => (hs.snapshots _ (mem_of_pick hx)).mono hm
  exact hpick.bind fun _ _ _ hx => grows_pure fun _ hm => Snapshot.Within.mono hx hm

theorem run_pickGraph_of_ok {g : Int} {s : Session α} {x : Nat × Graph α}
    (hpick : pick s.graphs g = .ok x) :
    (check (pick s.graphs g) : SessionAction α (Nat × Graph α)).run.run s = (.ok x, s) := by
  rw [hpick]
  rfl

theorem run_pickGraph_of_error {g : Int} {s : Session α} {fault : Fault}
    (hpick : pick s.graphs g = .error fault) :
    (check (pick s.graphs g) : SessionAction α (Nat × Graph α)).run.run s
      = (.error (.fault fault), s) := by
  rw [hpick]
  rfl

theorem stores_askGraph (g : Int) {f : Graph α → Except Fault β}
    (h : ∀ x b m, x.Within m → f x = .ok b → n ≤ m → Q m b) : Stores n Q (askGraph g f) := by
  refine grows_get.bind fun _ s hn hs => ?_
  obtain ⟨hs, rfl⟩ := hs
  have hpick : Stores s.bends.fresh (fun m x => x.2.Within m)
      (check (pick s.graphs g) : SessionAction α (Nat × Graph α)) :=
    stores_check fun x m hx hm => (hs.graphs _ (mem_of_pick hx)).mono hm
  exact hpick.bind fun k x hk hx => stores_check fun b m hb hm => h x.2 b m (hx.mono hm) hb (by omega)

/-- the graph at the position is replaced by what the action makes of it -/
theorem run_onGraph_of_pick {g : Int} {s : Session α} {q : Nat} {graph : Graph α}
    (hpick : pick s.graphs g = .ok (q, graph)) (a : Action α β) :
    (onGraph g a).run.run s = ((a.perform ⟨graph, s.bends⟩).1.mapError .fault,
      { s with
        graphs := s.graphs.set q (a.perform ⟨graph, s.bends⟩).2.graph
        bends := (a.perform ⟨graph, s.bends⟩).2.bends }) := by
  unfold onGraph
  rw [run_bind_of_ok (rfl : (get : SessionAction α (Session α)).run.run s = (.ok s, s)),
    run_bind_of_ok (run_pickGraph_of_ok hpick)]
  dsimp only
  generalize a.perform ⟨graph, s.bends⟩ = out
  obtain ⟨result, w⟩ := out
  cases result <;> rfl

theorem run_onGraph_of_error {g : Int} {s : Session α} {fault : Fault}
    (hpick : pick s.graphs g = .error fault) (a : Action α β) :
    (onGraph g a).run.run s = (.error (.fault fault), s) := by
  unfold onGraph
  rw [run_bind_of_ok (rfl : (get : SessionAction α (Session α)).run.run s = (.ok s, s)),
    run_bind_of_error (run_pickGraph_of_error hpick)]

theorem stores_onGraph (g : Int) {a : Action α β} (ha : Action.Stores n Q a) :
    Stores n Q (onGraph g a) := by
  intro s hs hn
  rcases hpick : pick s.graphs g with fault | ⟨q, graph⟩
  · rw [run_onGraph_of_error hpick]
    exact ⟨Nat.le_refl _, hs, fun b hb => by cases hb⟩
  · rw [run_onGraph_of_pick hpick]
    obtain ⟨hsize, hstored, hQ⟩ := ha ⟨graph, s.bends⟩ (hs.graphs graph (mem_of_pick hpick)) hn
    refine ⟨hsize, ?_, fun b hb => hQ b ?_⟩
    · have hgrown := hs.withBends hsize
      refine ⟨fun x hx => ?_, hgrown.edges, hgrown.snapshots⟩
      rcases List.mem_or_eq_of_mem_set hx with hx | rfl
      · exact hgrown.graphs x hx
      · exact hstored
    · show (a.perform ⟨graph, s.bends⟩).1 = .ok b
      have hb : (a.perform ⟨graph, s.bends⟩).1.mapError Refusal.fault = .ok b := hb
      generalize (a.perform ⟨graph, s.bends⟩).1 = r at hb ⊢
      cases r with
      | ok c => exact congrArg Except.ok (Except.ok.inj hb)
      | error fault => cases hb

/-! ## answers and what is kept -/

theorem stores_replyEdge (e : Edge) :
    Stores n (fun _ _ => True) (replyEdge e : SessionAction α (Reply α)) :=
  grows_get.bind fun _ _ _ _ => grows_pure fun _ _ => trivial

theorem stores_replySnapshot (t : Snapshot) :
    Stores n (fun _ _ => True) (replySnapshot t : SessionAction α (Reply α)) :=
  grows_get.bind fun _ _ _ _ => grows_pure fun _ _ => trivial

theorem stores_keepEdge {e : Edge} (he : e.slot < n) :
    Stores n (fun _ _ => True) (keepEdge e : SessionAction α (Reply α)) := by
  have hadd : Stores n (fun _ _ => True)
      (modify fun s => { s with edges := s.edges ++ [e] } : SessionAction α PUnit) :=
    grows_modify fun _ hs hn => ⟨Nat.le_refl _, hs.addEdge (Nat.lt_of_lt_of_le he hn)⟩
  exact hadd.bind fun _ _ _ _ => stores_replyEdge e

theorem stores_keepSnapshot (g : Nat) {t : Snapshot} (ht : t.Within n) :
    Stores n (fun _ _ => True) (keepSnapshot g t : SessionAction α (Reply α)) := by
  have hadd : Stores n (fun _ _ => True)
      (modify fun s => { s with snapshots := s.snapshots ++ [(g, t)] } : SessionAction α PUnit) :=
    grows_modify fun _ hs hn => ⟨Nat.le_refl _, hs.addSnapshot (ht.mono hn)⟩
  exact hadd.bind fun _ _ _ _ => stores_replySnapshot t

theorem stores_keepGraph {g : Graph α} (hg : g.Within n) :
    Stores n (fun _ _ => True) (keepGraph g : SessionAction α (Reply α)) := by
  have hadd : Stores n (fun _ _ => True)
      (modify fun s => { s with graphs := s.graphs ++ [g] } : SessionAction α PUnit) :=
    grows_modify fun _ hs hn => ⟨Nat.le_refl _, hs.addGraph (hg.mono hn)⟩
  refine grows_get.bind fun m _ hm _ => ?_
  exact (hadd.of_le hm).bind fun _ _ _ _ => grows_pure fun _ _ => trivial

theorem stores_edit (g : Int) {f : Graph α → Except Fault (Graph α)} (r : Reply α)
    (h : ∀ x x' m, n ≤ m → x.Within m → f x = .ok x' → x'.Within m) :
    Stores n (fun _ _ => True) (onGraph g (Action.edit f) >>= fun _ => pure r) :=
  (stores_onGraph g (Action.stores_edit h)).bind fun _ _ _ _ => grows_pure fun _ _ => trivial

end

/-! ## commands -/

variable [Metric α]

theorem run_copyGraph_of_pick {g : Int} {s : Session α} {q : Nat} {graph : Graph α}
    (hpick : pick s.graphs g = .ok (q, graph)) :
    (execute (.copyGraph g)).run.run s = (.ok (.number s.graphs.length),
      { s with
        graphs := s.graphs ++ [(Workspace.copyGraph ⟨graph, s.bends⟩).graph]
        bends := (Workspace.copyGraph ⟨graph, s.bends⟩).bends }) := by
  have hask : (askGraph g .ok : SessionAction α (Graph α)).run.run s = (.ok graph, s) := by
    unfold askGraph
    rw [run_bind_of_ok (rfl : (get : SessionAction α (Session α)).run.run s = (.ok s, s)),
      run_bind_of_ok (run_pickGraph_of_ok hpick)]
    rfl
  show (askGraph g .ok >>= _).run.run s = _
  rw [run_bind_of_ok hask]
  rfl

theorem run_copyGraph_of_error {g : Int} {s : Session α} {fault : Fault}
    (hpick : pick s.graphs g = .error fault) :
    (execute (.copyGraph g)).run.run s = (.error (.fault fault), s) := by
  have hask : (askGraph g .ok : SessionAction α (Graph α)).run.run s = (.error (.fault fault), s) := by
    unfold askGraph
    rw [run_bind_of_ok (rfl : (get : SessionAction α (Session α)).run.run s = (.ok s, s)),
      run_bind_of_error (run_pickGraph_of_error hpick)]
  show (askGraph g .ok >>= _).run.run s = _
  rw [run_bind_of_error hask]

theorem stores_copyGraph {n : Nat} (g : Int) :
    Stores n (fun _ _ => True) (execute (.copyGraph g : Command α)) := by
  intro s hs hn
  rcases hpick : pick s.graphs g with fault | ⟨q, graph⟩
  · rw [run_copyGraph_of_error hpick]
    exact ⟨Nat.le_refl _, hs, fun _ _ => trivial⟩
  · rw [run_copyGraph_of_pick hpick]
    have hgrows : s.bends.fresh ≤ (Workspace.copyGraph ⟨graph, s.bends⟩).bends.fresh :=
      (Bends.fresh_copySlots s.bends _).symm ▸ Nat.le_add_right _ _
    refine ⟨hgrows, ?_, fun _ _ => trivial⟩
    exact (hs.withBends hgrows).addGraph (Workspace.stored_copyGraph ⟨graph, s.bends⟩)

theorem stores_makeEdge {n : Nat} (key : Int) (source target : NodeId) :
    Stores n (fun _ _ => True) (execute (.makeEdge key source target : Command α)) := by
  intro s hs hn
  have hfresh := Bends.fresh_push s.bends []
  have hgrows : s.bends.fresh ≤ (s.bends.push []).fresh := by omega
  have hslot : s.bends.fresh < (s.bends.push []).fresh := by omega
  exact ⟨hgrows, (hs.withBends hgrows).addEdge hslot, fun _ _ => trivial⟩

theorem stores_execute {n : Nat} (c : Command α) : Stores n (fun _ _ => True) (execute c) := by
  -- a question leaves the session alone, and so does the form that its answer is given
  have hask {β : Type} (g : Int) (f : Graph α → Except Fault β) (m : Nat) :
      Stores m (fun _ _ => True) (askGraph g f) := stores_askGraph g fun _ _ _ _ _ _ => trivial
  have hanswer {β : Type} (m : Nat) {Q : Nat → β → Prop} {a : SessionAction α β} (h : Stores m Q a)
      (r : β → Reply α) : Stores m (fun _ _ => True) (do return r (← a)) :=
    h.bind fun _ _ _ _ => grows_pure fun _ _ => trivial
  cases c with dsimp only [execute, askNode]
  | newGraph => exact stores_keepGraph (Graph.within_empty n)
  | copyGraph g => exact stores_copyGraph g
  | addNode g id node => exact stores_edit g _ fun _ _ _ _ hx hok => hx.addNode hok
  | removeNode g id => exact stores_edit g _ fun _ _ _ _ hx hok => hx.removeNode hok
  | addEdge g source target isDummy =>
    exact (stores_onGraph g (Action.stores_addEdge source target isDummy)).bind
      fun _ _ _ he => stores_keepEdge he
  | makeEdge key source target => exact stores_makeEdge key source target
  | findEdge g key =>
    have hfind : Stores n (fun m e => e.slot < m) (askGraph g fun graph : Graph α => graph.edge key) :=
      stores_askGraph g fun x e m hx hok _ => hx.edge hok
    exact hfind.bind fun _ _ _ he => stores_keepEdge he
  | removeEdge g e =>
    exact (stores_edgeFor g e).bind fun _ _ _ _ =>
      stores_edit g _ fun _ _ _ _ hx hok => hx.detach hok
  | reattach g e =>
    refine (stores_edgeFor g e).bind fun _ _ _ he => ?_
    exact (stores_onGraph g (Action.stores_reattach he)).bind fun _ d _ _ => stores_replyEdge d
  | hasEdge g e => exact (stores_edgeFor g e).bind fun _ _ _ _ => hask g _ _
  | sourceNode g e => exact (stores_edgeFor g e).bind fun _ _ _ _ => hask g _ _
  | targetNode g e => exact (stores_edgeFor g e).bind fun _ _ _ _ => hask g _ _
  | addBend e q =>
    refine (stores_edgeAt e).bind fun m d _ _ => ?_
    have hset : Stores m (fun _ _ => True) (modify fun s : Session α =>
        { s with bends := s.bends.set d.slot (s.bends.get d.slot ++ [q]) } : SessionAction α PUnit) :=
      grows_modify fun s hs _ => by
        have hfresh := Nat.le_of_eq (Bends.fresh_set s.bends d.slot (s.bends.get d.slot ++ [q])).symm
        exact ⟨hfresh, hs.withBends hfresh⟩
    exact hset.bind fun _ _ _ _ => stores_replyEdge d
  | showEdge e => exact (stores_edgeAt e).bind fun _ d _ _ => stores_replyEdge d
  | describeEdge e => exact hanswer n (stores_edgeAt e) fun d => .text d.text
  | setPosition g id q => exact stores_edit g _ fun _ _ _ _ hx hok => hx.modifyNode hok
  | cleanRoutes g tol => exact hanswer n (stores_onGraph g (Action.stores_cleanRoutes tol)) .number
  | showGraph g =>
    exact (hask g .ok n).bind fun _ _ _ _ => grows_get.bind fun _ _ _ _ => grows_pure fun _ _ => trivial
  | newSnapshot g stage layers lists =>
    refine (stores_graphPosition g).bind fun _ q _ _ => (stores_stageNamed stage).bind fun _ _ _ _ => ?_
    exact stores_keepSnapshot q (Snapshot.within_of_chains rfl)
  | phase k phase settings =>
    refine (stores_snapshotAt k).bind fun _ x _ hx => (stores_configure settings).bind fun m c hm _ => ?_
    refine (stores_onGraph x.1 (Action.stores_apply c phase (hx.mono hm))).bind fun _ _ _ ht => ?_
    exact stores_keepSnapshot x.1 ht
  | draw g settings =>
    refine (stores_graphPosition g).bind fun _ q _ _ => (stores_configure settings).bind fun _ c _ _ => ?_
    exact (stores_onGraph g (Action.stores_draw c)).bind fun _ _ _ ht => stores_keepSnapshot q ht
  | showSnapshot k => exact (stores_snapshotAt k).bind fun _ x _ _ => stores_replySnapshot x.2
  | requireUnitSpans k =>
    exact (stores_snapshotAt k).bind fun m x _ _ => hanswer m (hask x.1 _ m) fun _ => .done
  | requireStage k stage =>
    refine (stores_snapshotAt k).bind fun _ _ _ _ => (stores_stageNamed stage).bind fun m _ _ _ => ?_
    exact hanswer m (stores_check fun _ _ _ _ => trivial) fun _ => .done
  | crossings k =>
    exact (stores_snapshotAt k).bind fun m x _ _ => hanswer m (hask x.1 _ m) .number
  | node g | hasNode g | inEdges g | outEdges g | inDegree g | outDegree g | predecessors g
  | successors g | position g | nodeIds g | edgeKeys g | describeGraph g => exact hask g _ n

end SessionAction

namespace Session

variable [Metric α]

theorem Stored.step {s : Session α} (h : s.Stored) (c : Command α) : (step c s).2.Stored :=
  (SessionAction.stores_execute (n := 0) c s h (Nat.zero_le _)).2.1

/-- no list of commands takes an edge out of the store -/
theorem Stored.run {s : Session α} (h : s.Stored) (cs : List (Command α)) : (run cs s).2.Stored := by
  induction cs generalizing s with
  | nil => exact h
  | cons c cs ih => exact ih (h.step c)

end Session

end LayeredDrawing
