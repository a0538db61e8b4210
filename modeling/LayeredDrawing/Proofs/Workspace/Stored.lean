import LayeredDrawing.Graph.Copy
import LayeredDrawing.Proofs.Workspace.Built
import LayeredDrawing.Proofs.Workspace.InStep

/-!
# Edges with bends in the store

Every edge of a graph has its bends in the store, because its slot was handed out when the store had room
for it, and the store never shrinks.  So what is known of an edge in hand stays true, whatever is done
meanwhile: answers are related to the size of the store, and later sizes are at least as large.

* `Grows`                  work that never shrinks the state and gives answers within it;
* `Grows.bind`, `grows_forM`, `grows_foldlM` and so on   the rules;
* `Graph.Within`           the slots of a graph lie below a bound; what the changes do to that;
* `Workspace.Stored`       they lie in the store;
* `grows_addEdge`, `grows_reattach`, `grows_cleanRoutes` and so on   the actions.
-/

namespace LayeredDrawing

/-! ## work that grows -/

section
variable {ε σ β γ δ : Type} {size : σ → Nat} {I : σ → Prop} {n : Nat}

/-- From states of size `n` on with the property `I`: the size never shrinks and the property is kept,
refused or not, and an answer has the property `Q` of the size afterwards. -/
def Grows (size : σ → Nat) (I : σ → Prop) (n : Nat) (Q : Nat → β → Prop)
    (a : ExceptT ε (StateM σ) β) : Prop :=
  ∀ s, I s → n ≤ size s → size s ≤ size (a.run.run s).2 ∧ I (a.run.run s).2 ∧
    ∀ b, (a.run.run s).1 = .ok b → Q (size (a.run.run s).2) b

variable {a : ExceptT ε (StateM σ) β} {Q : Nat → β → Prop} {R : Nat → γ → Prop}

theorem grows_pure {b : β} (h : ∀ m, n ≤ m → Q m b) :
    Grows size I n Q (pure b : ExceptT ε (StateM σ) β) :=
  fun s hs hn => ⟨Nat.le_refl _, hs, fun c hc => by cases hc; exact h (size s) hn⟩

theorem Grows.bind {f : β → ExceptT ε (StateM σ) γ} (h : Grows size I n Q a)
    (hf : ∀ m b, n ≤ m → Q m b → Grows size I m R (f b)) : Grows size I n R (a >>= f) := by
  intro s hs hn
  obtain ⟨hsize, hI, hQ⟩ := h s hs hn
  rcases hrun : a.run.run s with ⟨e | b, v⟩ <;> rw [hrun] at hsize hI hQ
  · rw [run_bind_of_error hrun]
    exact ⟨hsize, hI, fun c hc => by cases hc⟩
  · rw [run_bind_of_ok hrun]
    obtain ⟨hsize', hI', hR⟩ := hf (size v) b (Nat.le_trans hn hsize) (hQ b rfl) v hI (Nat.le_refl _)
    exact ⟨Nat.le_trans hsize hsize', hI', hR⟩

theorem Grows.of_le {m : Nat} (h : Grows size I n Q a) (hnm : n ≤ m) : Grows size I m Q a :=
  fun s hs hm => h s hs (Nat.le_trans hnm hm)

theorem Grows.discard (h : Grows size I n Q a) :
    Grows size I n (fun _ _ => True) (discard a) :=
  h.bind fun _ _ _ _ => grows_pure fun _ _ => trivial

theorem grows_get : Grows size I n (fun m s => I s ∧ size s = m)
    (get : ExceptT ε (StateM σ) σ) :=
  fun s hs _ => ⟨Nat.le_refl _, hs, fun c hc => by cases hc; exact ⟨hs, rfl⟩⟩

theorem grows_modify {f : σ → σ} (h : ∀ s, I s → n ≤ size s → size s ≤ size (f s) ∧ I (f s)) :
    Grows size I n (fun _ _ => True) (modify f : ExceptT ε (StateM σ) PUnit) :=
  fun s hs hn => ⟨(h s hs hn).1, (h s hs hn).2, fun _ _ => trivial⟩

theorem grows_forM {f : δ → ExceptT ε (StateM σ) PUnit} {l : List δ}
    (h : ∀ d ∈ l, ∀ m, n ≤ m → Grows size I m (fun _ _ => True) (f d)) :
    Grows size I n (fun _ _ => True) (l.forM f) := by
  induction l generalizing n with
  | nil => exact grows_pure fun _ _ => trivial
  | cons d l ih =>
    refine (h d List.mem_cons_self n (Nat.le_refl _)).bind fun m _ hm _ => ih fun x hx k hk => ?_
    exact h x (List.mem_cons_of_mem d hx) k (Nat.le_trans hm hk)

theorem grows_foldlM {f : β → δ → ExceptT ε (StateM σ) β} {l : List δ}
    (hQ : ∀ m k b, m ≤ k → Q m b → Q k b)
    (h : ∀ d ∈ l, ∀ m b, n ≤ m → Q m b → Grows size I m Q (f b d)) {b : β} (hb : Q n b) :
    Grows size I n Q (l.foldlM f b) := by
  induction l generalizing n b with
  | nil => exact grows_pure fun m hm => hQ n m b hm hb
  | cons d l ih =>
    rw [List.foldlM_cons]
    refine (h d List.mem_cons_self n b (Nat.le_refl _) hb).bind fun m c hm hc => ih (fun x hx => ?_) hc
    exact fun k b hk hb => h x (List.mem_cons_of_mem d hx) k b (Nat.le_trans hm hk) hb

end

/-! ## graphs -/

variable {α : Type}

namespace Graph

structure Within (n : Nat) (g : Graph α) : Prop where
  arcs : ∀ e ∈ g.arcs, e.slot < n
  index : ∀ e ∈ g.index.values, e.slot < n

theorem mem_slots {g : Graph α} {slot : Nat} :
    slot ∈ g.slots ↔ ∃ e ∈ g.arcs ++ g.index.values, e.slot = slot := by
  rw [slots, List.mem_eraseDups, List.mem_map]

theorem within_empty (n : Nat) : (empty : Graph α).Within n :=
  ⟨fun _ he => (List.not_mem_nil he).elim, fun _ he => (List.not_mem_nil he).elim⟩

section
variable {n m : Nat} {g g' : Graph α} {id : NodeId} {e : Edge} (h : g.Within n)
include h

theorem Within.mono (hnm : n ≤ m) : g.Within m :=
  ⟨fun e he => Nat.lt_of_lt_of_le (h.arcs e he) hnm, fun e he => Nat.lt_of_lt_of_le (h.index e he) hnm⟩

/-- fewer edges -/
theorem Within.fewer (harcs : ∀ e ∈ g'.arcs, e ∈ g.arcs)
    (hindex : ∀ e ∈ g'.index.values, e ∈ g.index.values) : g'.Within n :=
  ⟨fun e he => h.arcs e (harcs e he), fun e he => h.index e (hindex e he)⟩

theorem Within.slot_lt {slot : Nat} (hslot : slot ∈ g.slots) : slot < n := by
  obtain ⟨e, he, rfl⟩ := mem_slots.1 hslot
  rcases List.mem_append.1 he with he | he
  · exact h.arcs e he
  · exact h.index e he

theorem Within.edges : ∀ e ∈ g.edges, e.slot < n := by
  intro e he
  obtain ⟨id, _, he⟩ := List.mem_flatMap.1 he
  exact h.arcs e (List.mem_filter.1 he).1

theorem Within.edge {key : Int} (hok : g.edge key = .ok e) : e.slot < n := by
  refine h.index e (OrderedMap.mem_values_iff.2 ⟨key, ?_⟩)
  unfold Graph.edge at hok
  split at hok
  · rename_i hget
    cases hok
    exact hget
  · cases hok

theorem Within.addNode {node : Node α} (hok : g.addNode id node = .ok g') : g'.Within n := by
  obtain ⟨_, rfl⟩ := addNode_ok hok
  exact ⟨h.arcs, h.index⟩

theorem Within.modifyNode {f : Node α → Node α} (hok : g.modifyNode id f = .ok g') : g'.Within n := by
  obtain rfl := modifyNode_ok hok
  exact ⟨h.arcs, h.index⟩

theorem Within.removeNode (hok : g.removeNode id = .ok g') : g'.Within n := by
  obtain ⟨_, rfl⟩ := removeNode_ok hok
  refine h.fewer (fun e he => (mem_arcsApart.1 he).1) fun e he => ?_
  obtain ⟨key, hget⟩ := OrderedMap.mem_values_iff.1 he
  rw [OrderedMap.get?_foldl_erase] at hget
  split at hget
  · cases hget
  · exact OrderedMap.mem_values_iff.2 ⟨key, hget⟩

theorem Within.attach (he : e.slot < n) : (g.attach e).Within n := by
  refine ⟨fun a ha => ?_, fun a ha => ?_⟩
  · rcases mem_of_mem_placeArc ha with rfl | ha
    · exact he
    · exact h.arcs a ha
  · obtain ⟨key, hget⟩ := OrderedMap.mem_values_iff.1 ha
    rw [index_attach, OrderedMap.get?_insert] at hget
    split at hget
    · cases hget
      exact he
    · exact h.index a (OrderedMap.mem_values_iff.2 ⟨key, hget⟩)

theorem Within.addEdge {slot : Nat} (hslot : slot < n) {source target : NodeId} {isDummy : Bool}
    (hok : g.addEdge slot source target isDummy = .ok (e, g')) : e.slot < n ∧ g'.Within n := by
  obtain ⟨_, _, rfl, rfl⟩ := addEdge_ok hok
  have hnext : ({ g with nextKey := g.nextKey + 1 } : Graph α).Within n := ⟨h.arcs, h.index⟩
  exact ⟨hslot, hnext.attach hslot⟩

theorem Within.detach (hok : g.detach e = .ok g') : g'.Within n := by
  rw [eq_of_detach hok]
  refine h.fewer (fun a ha => (List.mem_filter.1 ha).1) fun a ha => ?_
  exact (List.filter_sublist.map Prod.snd).subset ha

theorem Within.reattach (he : e.slot < n) (hok : g.reattach e = .ok g') : g'.Within n := by
  obtain ⟨_, _, _, rfl⟩ := reattach_ok hok
  exact h.attach he

end

end Graph

/-! ## workspaces -/

/-- every edge of the graph has its bends in the store -/
def Workspace.Stored (w : Workspace α) : Prop := w.graph.Within w.bends.fresh

/-- the slots of a copy are the last ones of the store -/
theorem Workspace.stored_copyGraph (w : Workspace α) : w.copyGraph.Stored := by
  have hcopy (e : Edge) (he : e ∈ w.graph.arcs ++ w.graph.index.values) :
      w.bends.fresh + w.graph.slots.idxOf e.slot < (w.bends.copySlots w.graph.slots).fresh := by
    rw [Bends.fresh_copySlots]
    have := List.idxOf_lt_length_of_mem (Graph.mem_slots.2 ⟨e, he, rfl⟩)
    omega
  refine ⟨fun d hd => ?_, fun d hd => ?_⟩
  · obtain ⟨e, he, rfl⟩ := List.mem_map.1 hd
    exact hcopy e (List.mem_append_left _ he)
  · obtain ⟨x, hx, rfl⟩ := List.mem_map.1 hd
    obtain ⟨y, hy, rfl⟩ := List.mem_map.1 hx
    exact hcopy y.2 (List.mem_append_right _ (List.mem_map_of_mem hy))

namespace Action

/-- an action that keeps all edges in the store -/
abbrev Stores {β : Type} (n : Nat) (Q : Nat → β → Prop) (a : Action α β) : Prop :=
  Grows (fun w : Workspace α => w.bends.fresh) Workspace.Stored n Q a

section
variable {β : Type} {n : Nat} {Q : Nat → β → Prop}

theorem stores_check {r : Except Fault β} (h : ∀ b m, r = .ok b → n ≤ m → Q m b) :
    Stores n Q (check r : Action α β) :=
  fun _ hw hn => ⟨Nat.le_refl _, hw, fun b hb => h b _ hb hn⟩

theorem stores_check_any (r : Except Fault β) : Stores n (fun _ _ => True) (check r : Action α β) :=
  stores_check fun _ _ _ _ => trivial

theorem stores_ask {f : Graph α → Except Fault β}
    (h : ∀ g b m, g.Within m → f g = .ok b → n ≤ m → Q m b) : Stores n Q (ask f) :=
  fun w hw hn => ⟨Nat.le_refl _, hw, fun b hb => h w.graph b _ hw hb hn⟩

theorem stores_ask_any (f : Graph α → Except Fault β) : Stores n (fun _ _ => True) (ask f) :=
  stores_ask fun _ _ _ _ _ _ => trivial

theorem stores_edit {f : Graph α → Except Fault (Graph α)}
    (h : ∀ g g' m, n ≤ m → g.Within m → f g = .ok g' → g'.Within m) :
    Stores n (fun _ _ => True) (edit f) := by
  intro w hw hn
  show _ ≤ ((edit f).perform w).2.bends.fresh ∧ ((edit f).perform w).2.Stored ∧ _
  rw [perform_edit]
  cases hf : f w.graph with
  | ok g => exact ⟨Nat.le_refl _, h _ _ _ hn hw hf, fun _ _ => trivial⟩
  | error fault => exact ⟨Nat.le_refl _, hw, fun _ _ => trivial⟩

theorem stores_addEdge (source target : NodeId) (isDummy : Bool) :
    Stores n (fun m e => e.slot < m) (addEdge source target isDummy : Action α Edge) := by
  intro w hw hn
  show _ ≤ ((addEdge source target isDummy).perform w).2.bends.fresh ∧
    ((addEdge source target isDummy).perform w).2.Stored ∧
    ∀ e, ((addEdge source target isDummy).perform w).1 = .ok e →
      e.slot < ((addEdge source target isDummy).perform w).2.bends.fresh
  rw [perform_addEdge]
  cases hadd : w.graph.addEdge w.bends.fresh source target isDummy with
  | ok x =>
    obtain ⟨he, hg⟩ := (hw.mono (Nat.le_succ _)).addEdge (Nat.lt_succ_self _) hadd
    have hpush := Bends.fresh_push w.bends []
    refine ⟨?_, ?_, fun b hb => ?_⟩
    · show w.bends.fresh ≤ (w.bends.push []).fresh
      omega
    · show x.2.Within (w.bends.push []).fresh
      rw [hpush]
      exact hg
    · cases hb
      show x.1.slot < (w.bends.push []).fresh
      rw [hpush]
      exact he
  | error fault => exact ⟨Nat.le_refl _, hw, fun b hb => by cases hb⟩

theorem stores_setBends (e : Edge) (l : List (Point α)) :
    Stores n (fun _ _ => True) (setBends e l) :=
  grows_modify fun w hw _ => by
    have hfresh := Bends.fresh_set w.bends e.slot l
    refine ⟨Nat.le_of_eq hfresh.symm, ?_⟩
    show w.graph.Within (w.bends.set e.slot l).fresh
    rw [hfresh]
    exact hw

theorem stores_bendsOf (e : Edge) : Stores n (fun _ _ => True) (bendsOf e : Action α (List (Point α))) :=
  grows_get.bind fun _ _ _ _ => grows_pure fun _ _ => trivial

theorem stores_reattach {e : Edge} (he : e.slot < n) :
    Stores n (fun m d => d.slot < m) (reattach e : Action α Edge) := by
  refine (stores_edit fun g g' m hm hg hok => hg.reattach (Nat.lt_of_lt_of_le he hm) hok).bind ?_
  intro m _ hm _
  refine (stores_setBends e []).bind fun k _ hk _ => grows_pure fun i hi => ?_
  omega

theorem stores_addBend (e : Edge) (q : Point α) : Stores n (fun _ _ => True) (addBend e q) :=
  (stores_bendsOf e).bind fun _ _ _ _ => stores_setBends e _

theorem stores_cleanRoutes [Metric α] (tol : α) :
    Stores n (fun _ _ => True) (cleanRoutes tol : Action α Nat) := by
  have hroute (e : Edge) (m : Nat) : Stores m (fun _ _ => True) (cleanRoute tol e) := by
    refine (stores_bendsOf e).bind fun _ old _ _ => ?_
    split
    · exact grows_pure fun _ _ => trivial
    · refine (stores_ask_any _).bind fun _ _ _ _ => (stores_ask_any _).bind fun _ _ _ _ => ?_
      refine (stores_check_any _).bind fun _ new _ _ => ?_
      exact (stores_setBends e new).bind fun _ _ _ _ => grows_pure fun _ _ => trivial
  refine (stores_ask_any _).bind fun m edges _ _ => ?_
  refine grows_foldlM (fun _ _ _ _ _ => trivial) (fun e _ k _ _ _ => ?_) trivial
  exact (hroute e k).bind fun _ _ _ _ => grows_pure fun _ _ => trivial

end

end Action

end LayeredDrawing
