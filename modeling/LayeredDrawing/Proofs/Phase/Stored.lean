import LayeredDrawing.Proofs.Drawing.Reached
import LayeredDrawing.Proofs.Workspace.Stored

/-!
# Phases and the store

A phase given a snapshot whose chains have all their edges in the store keeps all edges of the graph
there, and hands on such a snapshot.  The edges that it hides or brings back are edges of the graph or of
a chain; all others are new.

* `Snapshot.Within`   the slots of the chains lie below a bound;
* `stores_apply`      each phase;
* `stores_draw`       a whole drawing.
-/

namespace LayeredDrawing

structure Chain.Within (n : Nat) (C : Chain) : Prop where
  edge : C.edge.slot < n
  edges : ∀ e ∈ C.edges, e.slot < n

def Snapshot.Within (n : Nat) (s : Snapshot) : Prop := ∀ C ∈ s.chains.values, C.Within n

theorem Chain.Within.mono {n m : Nat} {C : Chain} (h : C.Within n) (hnm : n ≤ m) : C.Within m :=
  ⟨Nat.lt_of_lt_of_le h.edge hnm, fun e he => Nat.lt_of_lt_of_le (h.edges e he) hnm⟩

theorem Snapshot.Within.mono {n m : Nat} {s : Snapshot} (h : s.Within n) (hnm : n ≤ m) : s.Within m :=
  fun C hC => (h C hC).mono hnm

theorem Snapshot.within_of_chains {n : Nat} {s : Snapshot} (h : s.chains = ∅) : s.Within n := by
  intro C hC
  rw [h] at hC
  exact (List.not_mem_nil hC).elim

namespace Action

variable {α : Type} {n : Nat}

theorem stores_modifyNode (id : NodeId) (f : Node α → Node α) :
    Stores n (fun _ _ => True) (edit fun g => g.modifyNode id f) :=
  stores_edit fun _ _ _ _ hg hok => hg.modifyNode hok

section
variable [Scalar α] (c : Config α) {s : Snapshot}

theorem stores_putInLayers (hs : s.Within n) :
    Stores n (fun m t => t.Within m) (putInLayers c s) := by
  refine (stores_check_any _).bind fun _ _ h₁ _ => (stores_ask_any _).bind fun _ layers h₂ _ => ?_
  refine grows_get.bind fun _ w h₃ _ => (grows_forM fun id _ m _ => ?_).bind fun _ _ h₄ _ => ?_
  · exact (stores_check_any _).bind fun _ _ _ _ => stores_modifyNode id _
  · exact grows_pure fun m hm => hs.mono (by omega)

theorem stores_reorder (hs : s.Within n) : Stores n (fun m t => t.Within m) (reorder c s) := by
  refine (stores_check_any _).bind fun _ _ h₁ _ => (stores_ask_any _).bind fun _ _ h₂ _ => ?_
  refine (stores_ask_any _).bind fun _ lists h₃ _ => (grows_forM fun layer _ m _ => ?_).bind ?_
  · exact grows_forM fun q _ _ _ => stores_modifyNode q.1 _
  · exact fun _ _ h₄ _ => grows_pure fun m hm => hs.mono (by omega)

theorem stores_place (hs : s.Within n) : Stores n (fun m t => t.Within m) (place c s) := by
  refine (stores_check_any _).bind fun _ _ h₁ _ => (stores_ask_any _).bind fun _ table h₂ _ => ?_
  refine (stores_check_any _).bind fun _ _ h₃ _ => (grows_forM fun q _ m _ => ?_).bind ?_
  · exact grows_forM fun id _ _ _ => (stores_check_any _).bind fun _ _ _ _ => stores_modifyNode id _
  · exact fun _ _ h₄ _ => grows_pure fun m hm => hs.mono (by omega)

/-! ## expansion -/

theorem stores_extendStrand (e : Edge) (start : Int) (i : Nat) {st : Strand}
    (h : ∀ d ∈ st.edges, d.slot < n) :
    Stores n (fun m t => ∀ d ∈ t.edges, d.slot < m) (extendStrand c e start i st) := by
  refine (stores_check_any _).bind fun _ _ h₁ _ => (stores_ask_any _).bind fun _ _ h₂ _ => ?_
  refine (stores_edit fun _ _ _ _ hg hok => hg.addNode hok).bind fun _ _ h₃ _ => ?_
  refine (stores_check_any _).bind fun _ _ h₄ _ => (stores_addEdge _ _ _).bind fun k d h₅ hd => ?_
  refine grows_pure fun m hm a ha => ?_
  rcases List.mem_append.1 ha with ha | ha
  · exact Nat.lt_of_lt_of_le (h a ha) (by omega)
  · rw [List.mem_singleton.1 ha]
    omega

theorem stores_extendStrandBy (e : Edge) (start : Int) (count i : Nat) {st : Strand}
    (h : ∀ d ∈ st.edges, d.slot < n) :
    Stores n (fun m t => ∀ d ∈ t.edges, d.slot < m) (extendStrandBy c e start count i st) := by
  induction count generalizing n i st with
  | zero => exact grows_pure fun m hm d hd => Nat.lt_of_lt_of_le (h d hd) hm
  | succ count ih => exact (stores_extendStrand c e start i h).bind fun _ _ _ hst => ih (i + 1) hst

theorem stores_hideEdge {e : Edge} (he : e.slot < n) (hs : s.Within n) :
    Stores n (fun m t => t.Within m) (hideEdge c s e) := by
  refine (stores_check_any _).bind fun _ _ h₁ _ => (stores_check_any _).bind fun _ _ h₂ _ => ?_
  refine (stores_extendStrandBy c e _ _ 1 fun _ hd => (List.not_mem_nil hd).elim).bind ?_
  intro k st h₃ hst
  refine (stores_addEdge _ _ _).bind fun i d h₄ hd => ?_
  refine (stores_edit fun _ _ _ _ hg hok => hg.detach hok).bind fun _ _ h₅ _ => grows_pure fun m hm => ?_
  intro C hC
  obtain ⟨key, hget⟩ := OrderedMap.mem_values_iff.1 hC
  rw [OrderedMap.get?_insert] at hget
  split at hget
  · cases hget
    refine ⟨Nat.lt_of_lt_of_le he (by omega), fun a ha => ?_⟩
    rcases List.mem_append.1 ha with ha | ha
    · exact Nat.lt_of_lt_of_le (hst a ha) (by omega)
    · rw [List.mem_singleton.1 ha]
      omega
  · exact (hs C (OrderedMap.mem_values_iff.2 ⟨key, hget⟩)).mono (by omega)

theorem stores_subdivide (s : Snapshot) : Stores n (fun m t => t.Within m) (subdivide c s) := by
  refine (stores_check_any _).bind fun k _ h₁ _ => ?_
  have hlong : Stores k (fun m l => ∀ e ∈ l, e.slot < m)
      (ask fun g : Graph α => longEdges s.layers g.edges) :=
    stores_ask fun g l m hg hok _ e he => hg.edges e (longEdges_subset hok e he)
  refine hlong.bind fun i l h₂ hl => ?_
  have hstart : ({ s with chains := ∅ } : Snapshot).Within i := Snapshot.within_of_chains rfl
  have hfold : Stores i (fun m t => t.Within m) (l.foldlM (hideEdge c) { s with chains := ∅ }) :=
    grows_foldlM (fun _ _ _ hm ht => ht.mono hm)
      (fun e he m t hm ht => stores_hideEdge c (Nat.lt_of_lt_of_le (hl e he) hm) ht) hstart
  exact hfold.bind fun _ t _ ht => grows_pure fun m hm => Snapshot.Within.mono ht hm

end

/-! ## reconstruction -/

theorem stores_restoreEdges [Metric α] (c : Config α) {s : Snapshot} (hs : s.Within n) :
    Stores n (fun m t => t.Within m) (restoreEdges c s) := by
  have hbend (e : Edge) (id : NodeId) (m : Nat) :
      Stores m (fun _ _ => True) (bendAt e id : Action α Unit) := by
    refine (stores_ask_any _).bind fun _ _ _ _ => (stores_addBend e _).bind fun _ _ _ _ => ?_
    exact stores_edit fun _ _ _ _ hg hok => hg.removeNode hok
  have hchain (C : Chain) (hC : C ∈ s.chains.values) (m : Nat) (hm : n ≤ m) :
      Stores m (fun _ _ => True) (restoreEdge C : Action α Unit) :=
    (stores_reattach (Nat.lt_of_lt_of_le (hs C hC).edge hm)).bind fun _ e _ _ =>
      grows_forM fun id _ k _ => hbend e id k
  unfold restoreEdges
  refine (stores_check_any _).bind fun k _ hk _ => ?_
  refine (grows_forM fun C hC m hm => hchain C hC m (by omega)).bind fun i _ _ _ => ?_
  dsimp only
  split
  · refine (stores_cleanRoutes c.tolerance).discard.bind fun _ _ _ _ => ?_
    exact grows_pure fun m _ => Snapshot.within_of_chains rfl
  · exact grows_pure fun m _ => Snapshot.within_of_chains rfl

variable [Metric α] (c : Config α)

theorem stores_apply (phase : Phase) {s : Snapshot} (hs : s.Within n) :
    Stores n (fun m t => t.Within m) (phase.apply c s) := by
  cases phase with
  | layering => exact stores_putInLayers c hs
  | expansion => exact stores_subdivide c s
  | ordering => exact stores_reorder c hs
  | placement => exact stores_place c hs
  | reconstruction => exact stores_restoreEdges c hs

theorem stores_draw : Stores n (fun m t => t.Within m) (draw c) := by
  have hstart : Snapshot.initial.Within n := Snapshot.within_of_chains rfl
  exact grows_foldlM (fun _ _ _ hm ht => ht.mono hm) (fun phase _ _ _ _ ht => stores_apply c phase ht)
    hstart

end Action

end LayeredDrawing
