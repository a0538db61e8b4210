import LayeredDrawing.Proofs.Graph.Coherent
import LayeredDrawing.Workspace

/-!
# Sound workspaces

`w.Sound known` is what every public operation keeps: the graph is coherent, its edges are among
the edges `known`, and no two known edges share a key or the slot of their bends.  The known edges
include those that have left the graph, because they may come back under their old keys.
-/

namespace LayeredDrawing

namespace Graph

variable {α : Type} {g g' : Graph α}

theorem addEdge_ok {slot : Nat} {source target : NodeId} {isDummy : Bool} {e : Edge}
    (h : g.addEdge slot source target isDummy = .ok (e, g')) :
    source ∈ g.nodeIds ∧ target ∈ g.nodeIds ∧ e = ⟨slot, g.nextKey, source, target, isDummy⟩ ∧
      g' = { g with nextKey := g.nextKey + 1 }.attach e := by
  unfold addEdge at h
  cases hs : g.require source with
  | error fault => rw [hs] at h; cases h
  | ok u =>
    cases ht : g.require target with
    | error fault => rw [hs, ht] at h; cases h
    | ok u =>
      rw [hs, ht] at h
      cases h
      exact ⟨hasNode_iff.1 (require_eq_ok_iff.1 hs), hasNode_iff.1 (require_eq_ok_iff.1 ht), rfl, rfl⟩

theorem addEdge_of_mem {source target : NodeId} (hs : source ∈ g.nodeIds)
    (ht : target ∈ g.nodeIds) (slot : Nat) (isDummy : Bool) :
    ∃ e g', g.addEdge slot source target isDummy = .ok (e, g') := by
  unfold addEdge
  rw [require_eq_ok_iff.2 (hasNode_iff.2 hs), require_eq_ok_iff.2 (hasNode_iff.2 ht)]
  exact ⟨_, _, rfl⟩

theorem reattach_ok {e : Edge} (h : g.reattach e = .ok g') :
    g.hasEdge e = false ∧ e.source ∈ g.nodeIds ∧ e.target ∈ g.nodeIds ∧ g' = g.attach e := by
  unfold reattach at h
  cases hn : g.hasEdge e with
  | true => rw [hn] at h; cases h
  | false =>
    cases hs : g.require e.source with
    | error fault => rw [hn, hs] at h; cases h
    | ok u =>
      cases ht : g.require e.target with
      | error fault => rw [hn, hs, ht] at h; cases h
      | ok u =>
        rw [hn, hs, ht] at h
        cases h
        exact ⟨rfl, hasNode_iff.1 (require_eq_ok_iff.1 hs),
          hasNode_iff.1 (require_eq_ok_iff.1 ht), rfl⟩

theorem reattach_of_mem {e : Edge} (hn : g.hasEdge e = false) (hs : e.source ∈ g.nodeIds)
    (ht : e.target ∈ g.nodeIds) : g.reattach e = .ok (g.attach e) := by
  unfold reattach
  rw [hn, require_eq_ok_iff.2 (hasNode_iff.2 hs), require_eq_ok_iff.2 (hasNode_iff.2 ht)]
  rfl

end Graph

/-- a property of which no two members of the list share a value, and which the new one has to
itself -/
theorem inj_snoc {β γ : Type} {f : β → γ} {l : List β} {x : β}
    (h : ∀ a ∈ l, ∀ b ∈ l, f a = f b → a = b) (hx : ∀ a ∈ l, f a ≠ f x) :
    ∀ a ∈ l ++ [x], ∀ b ∈ l ++ [x], f a = f b → a = b := by
  intro a ha b hb hab
  rw [List.mem_append, List.mem_singleton] at ha hb
  rcases ha with ha | rfl
  · rcases hb with hb | rfl
    · exact h a ha b hb hab
    · exact absurd hab (hx a ha)
  · rcases hb with hb | rfl
    · exact absurd hab.symm (hx b hb)
    · rfl

namespace Workspace

variable {α : Type}

structure Sound (w : Workspace α) (known : List Edge) : Prop where
  coherent : w.graph.Coherent
  known_of_mem : ∀ e ∈ w.graph.arcs, e ∈ known
  key_inj : ∀ a ∈ known, ∀ b ∈ known, a.key = b.key → a = b
  slot_inj : ∀ a ∈ known, ∀ b ∈ known, a.slot = b.slot → a = b
  key_lt : ∀ e ∈ known, e.key < w.graph.nextKey
  slot_lt : ∀ e ∈ known, e.slot < w.bends.fresh

theorem sound_empty (b : Bends α) : (⟨.empty, b⟩ : Workspace α).Sound [] where
  coherent := Graph.coherent_empty
  known_of_mem e he := by cases he
  key_inj a ha := by cases ha
  slot_inj a ha := by cases ha
  key_lt e he := by cases he
  slot_lt e he := by cases he

section
variable {w : Workspace α} {known : List Edge} (h : w.Sound known)
include h

/-- a change that brings in no edge but known ones -/
theorem Sound.change {g : Graph α} {b : Bends α} (hg : g.Coherent)
    (hmem : ∀ e ∈ g.arcs, e ∈ known) (hkey : w.graph.nextKey ≤ g.nextKey)
    (hslot : w.bends.fresh ≤ b.fresh) : (⟨g, b⟩ : Workspace α).Sound known where
  coherent := hg
  known_of_mem := hmem
  key_inj := h.key_inj
  slot_inj := h.slot_inj
  key_lt e he := Int.lt_of_lt_of_le (h.key_lt e he) hkey
  slot_lt e he := Nat.lt_of_lt_of_le (h.slot_lt e he) hslot

theorem Sound.forget {fewer : List Edge} (hsub : ∀ e ∈ fewer, e ∈ known)
    (hmem : ∀ e ∈ w.graph.arcs, e ∈ fewer) : w.Sound fewer where
  coherent := h.coherent
  known_of_mem := hmem
  key_inj a ha b hb := h.key_inj a (hsub a ha) b (hsub b hb)
  slot_inj a ha b hb := h.slot_inj a (hsub a ha) b (hsub b hb)
  key_lt e he := h.key_lt e (hsub e he)
  slot_lt e he := h.slot_lt e (hsub e he)

theorem Sound.withBends {b : Bends α} (hb : w.bends.fresh ≤ b.fresh) :
    (⟨w.graph, b⟩ : Workspace α).Sound known :=
  h.change h.coherent h.known_of_mem (Int.le_refl _) hb

theorem Sound.setBends (slot : Nat) (l : List (Point α)) :
    ({ w with bends := w.bends.set slot l } : Workspace α).Sound known :=
  h.withBends (Nat.le_of_eq (Bends.fresh_set w.bends slot l).symm)

section
variable {g : Graph α} {id : NodeId}

theorem Sound.addNode {n : Node α} (hok : w.graph.addNode id n = .ok g) :
    ({ w with graph := g } : Workspace α).Sound known := by
  have hc := h.coherent.addNode hok
  obtain ⟨_, rfl⟩ := Graph.addNode_ok hok
  exact h.change hc h.known_of_mem (Int.le_refl _) (Nat.le_refl _)

theorem Sound.modifyNode {f : Node α → Node α} (hok : w.graph.modifyNode id f = .ok g) :
    ({ w with graph := g } : Workspace α).Sound known := by
  have hc := h.coherent.modifyNode hok
  obtain rfl := Graph.modifyNode_ok hok
  exact h.change hc h.known_of_mem (Int.le_refl _) (Nat.le_refl _)

theorem Sound.removeNode (hok : w.graph.removeNode id = .ok g) :
    ({ w with graph := g } : Workspace α).Sound known := by
  have hc := h.coherent.removeNode hok
  obtain ⟨_, rfl⟩ := Graph.removeNode_ok hok
  exact h.change hc (fun e he => h.known_of_mem e (Graph.mem_arcsApart.1 he).1) (Int.le_refl _)
    (Nat.le_refl _)

theorem Sound.detach {e : Edge} (hok : w.graph.detach e = .ok g) :
    ({ w with graph := g } : Workspace α).Sound known := by
  obtain ⟨hc, _, hk, ha⟩ := h.coherent.detach_ok hok
  refine h.change hc (fun a ham => ?_) (Int.le_of_eq hk.symm) (Nat.le_refl _)
  rw [ha] at ham
  exact h.known_of_mem a (List.mem_filter.1 ham).1

end

/-- an edge that is known but not in the graph shares its key with no edge of the graph -/
theorem Sound.key_ne {e a : Edge} (hk : e ∈ known) (he : e ∉ w.graph.arcs)
    (ha : a ∈ w.graph.arcs) : a.key ≠ e.key := fun hae =>
  he (h.key_inj a (h.known_of_mem a ha) e hk hae ▸ ha)

theorem Sound.hasEdge_iff {e : Edge} (hk : e ∈ known) :
    w.graph.hasEdge e = true ↔ e ∈ w.graph.arcs := by
  rw [h.coherent.hasEdge_iff]
  constructor
  · intro hx
    obtain ⟨a, ha, hae⟩ := hx
    exact h.key_inj a (h.known_of_mem a ha) e hk hae ▸ ha
  · exact fun he => ⟨e, he, rfl⟩

theorem Sound.reattach {e : Edge} {g : Graph α} (hk : e ∈ known)
    (hok : w.graph.reattach e = .ok g) :
    (⟨g, w.bends.set e.slot []⟩ : Workspace α).Sound known ∧ g.nodes = w.graph.nodes ∧
      e ∉ w.graph.arcs ∧ g.arcs.Perm (e :: w.graph.arcs) := by
  obtain ⟨hn, hs, ht, rfl⟩ := Graph.reattach_ok hok
  have he : e ∉ w.graph.arcs := fun he => by
    rw [(h.hasEdge_iff hk).2 he] at hn
    cases hn
  have hp := Graph.perm_attach (fun a ha => h.key_ne hk he ha)
  have hc : (w.graph.attach e).Coherent :=
    h.coherent.attach (fun a ha => h.key_ne hk he ha) hs ht (Int.le_refl _) (h.key_lt e hk)
  refine ⟨h.change hc (fun a ha => ?_) (Int.le_refl _) ?_, rfl, he, hp⟩
  · rcases List.mem_cons.1 (hp.mem_iff.1 ha) with rfl | ha
    · exact hk
    · exact h.known_of_mem a ha
  · exact Nat.le_of_eq (Bends.fresh_set w.bends e.slot []).symm

theorem Sound.addEdge {source target : NodeId} {isDummy : Bool} {e : Edge} {g : Graph α}
    (hok : w.graph.addEdge w.bends.fresh source target isDummy = .ok (e, g)) :
    (⟨g, w.bends.push []⟩ : Workspace α).Sound (known ++ [e]) ∧ g.nodes = w.graph.nodes ∧
      g.arcs.Perm (e :: w.graph.arcs) := by
  obtain ⟨hs, ht, he, hg⟩ := Graph.addEdge_ok hok
  have hkey : e.key = w.graph.nextKey := by rw [he]
  have hslot : e.slot = w.bends.fresh := by rw [he]
  have hne (a : Edge) (ha : a ∈ known) : a.key ≠ e.key := by
    have := h.key_lt a ha
    omega
  have hnes (a : Edge) (ha : a ∈ known) : a.slot ≠ e.slot := by
    have := h.slot_lt a ha
    omega
  have hfree : ∀ a ∈ w.graph.arcs, a.key ≠ e.key := fun a ha => hne a (h.known_of_mem a ha)
  have hp : g.arcs.Perm (e :: w.graph.arcs) := by
    rw [hg]
    exact Graph.perm_attach hfree
  have hnext : g.nextKey = w.graph.nextKey + 1 := by rw [hg]; rfl
  have hc : g.Coherent := by
    rw [hg]
    refine h.coherent.attach hfree ?_ ?_ (by omega) (by omega)
    · rw [he]
      exact hs
    · rw [he]
      exact ht
  refine ⟨⟨hc, fun a ha => ?_, ?_, ?_, fun a ha => ?_, fun a ha => ?_⟩, by rw [hg]; rfl, hp⟩
  · rcases List.mem_cons.1 (hp.mem_iff.1 ha) with rfl | ha
    · exact List.mem_append_right _ (List.mem_singleton_self _)
    · exact List.mem_append_left _ (h.known_of_mem a ha)
  · exact inj_snoc h.key_inj hne
  · exact inj_snoc h.slot_inj hnes
  · show a.key < g.nextKey
    rcases List.mem_append.1 ha with ha | ha
    · have := h.key_lt a ha
      omega
    · rw [List.mem_singleton.1 ha]
      omega
  · show a.slot < (w.bends.push []).fresh
    rw [Bends.fresh_push]
    rcases List.mem_append.1 ha with ha | ha
    · have := h.slot_lt a ha
      omega
    · rw [List.mem_singleton.1 ha]
      omega

end

end Workspace

end LayeredDrawing
