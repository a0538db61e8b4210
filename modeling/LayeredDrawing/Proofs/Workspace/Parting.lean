import LayeredDrawing.Proofs.Graph.Parting

/-!
# Workspaces on either side of a parting

The stores on the two sides are of one size and hold the same bends under slots that answer to each
other; under the slots from before the copy, the store on the copy's side holds what it held then.
Actions in step keep this: each of them only reaches the bends of the edges that it is given or finds in
the graph.

* `Parting.Stores`, `Parting.Workspaces`   the relations;
* `inStep_ask`, `inStep_edit`              an action in step at the parting, from requests that are;
* `inStep_addEdge`, `inStep_reattach`, `inStep_cleanRoutes` and so on   the actions that touch bends.
-/

namespace LayeredDrawing

namespace Bends

variable {α : Type}

theorem get_push (b : Bends α) (l : List (Point α)) (slot : Nat) :
    (b.push l).get slot = if slot = b.fresh then l else b.get slot := by
  by_cases h : slot = b.slots.size
  · simp [get, push, fresh, h]
  · simp [get, push, fresh, Array.getElem?_push, h]

/-- writing beyond the store changes nothing -/
theorem get_set (b : Bends α) (slot : Nat) (l : List (Point α)) (other : Nat) :
    (b.set slot l).get other = if other = slot ∧ slot < b.fresh then l else b.get other := by
  by_cases h : other = slot
  · subst h
    by_cases hlt : other < b.fresh
    · rw [get_set_self hlt, if_pos ⟨rfl, hlt⟩]
    · have hle : b.slots.size ≤ other := Nat.le_of_not_lt hlt
      rw [if_neg fun h => hlt h.2, set, Array.setIfInBounds_eq_of_size_le hle]
  · rw [get_set_of_ne h, if_neg fun hh => h hh.1]

end Bends

namespace Parting

variable {α : Type} (p : Parting α)

structure Stores (b b' : Bends α) : Prop where
  fresh : b'.fresh = b.fresh
  next_le : p.next ≤ b.fresh
  get : ∀ slot, b'.get (p.across slot) = b.get slot
  kept : ∀ slot, slot < p.base.fresh → b.get slot = p.base.get slot

structure Workspaces (w w' : Workspace α) : Prop where
  graph : p.Graphs w.graph w'.graph
  bends : p.Stores w.bends w'.bends

/-- two actions in step at the parting -/
abbrev InStep {β β' : Type} (R : β → β' → Prop) (a : Action α β) (a' : Action α β') : Prop :=
  LayeredDrawing.InStep p.Workspaces Fault.Alike R a a'

variable {p}

/-- the slots in use on the two sides are the same -/
theorem across_lt_iff {n slot : Nat} (hn : p.next ≤ n) : p.across slot < n ↔ slot < n := by
  constructor
  · intro h
    by_contra hge
    rw [p.across_of_le (by omega)] at h
    exact hge h
  · intro h
    by_contra hge
    -- a slot answered by a late one would share its partner with it
    have heq : p.across (p.across slot) = p.across slot := p.across_of_le (by omega)
    have := p.injective heq
    omega

namespace Stores

variable {b b' : Bends α} (h : p.Stores b b') {e e' : Edge}
include h

theorem get_slot (he : p.Edges e e') : b'.get e'.slot = b.get e.slot := by
  obtain ⟨_, rfl⟩ := he
  exact h.get e.slot

theorem set (he : p.Edges e e') (l : List (Point α)) :
    p.Stores (b.set e.slot l) (b'.set e'.slot l) := by
  obtain ⟨hown, rfl⟩ := he
  refine ⟨?_, ?_, fun slot => ?_, fun slot hslot => ?_⟩
  · rw [Bends.fresh_set, Bends.fresh_set, h.fresh]
  · rw [Bends.fresh_set]
    exact h.next_le
  · show (b'.set (p.across e.slot) l).get (p.across slot) = _
    rw [Bends.get_set, Bends.get_set, h.get, h.fresh]
    simp only [p.injective.eq_iff, across_lt_iff h.next_le]
  · rw [Bends.get_set_of_ne (by omega)]
    exact h.kept slot hslot

theorem push (l : List (Point α)) : p.Stores (b.push l) (b'.push l) := by
  have hfresh : p.across b.fresh = b.fresh := p.across_of_le h.next_le
  refine ⟨?_, ?_, fun slot => ?_, fun slot hslot => ?_⟩
  · rw [Bends.fresh_push, Bends.fresh_push, h.fresh]
  · rw [Bends.fresh_push]
    exact Nat.le_succ_of_le h.next_le
  · have hiff : p.across slot = b.fresh ↔ slot = b.fresh :=
      ⟨fun hs => p.injective (hs.trans hfresh.symm), fun hs => hs ▸ hfresh⟩
    rw [Bends.get_push, Bends.get_push, h.fresh, h.get]
    simp only [hiff]
  · have hlt : slot < b.fresh := by
      have := p.base_le
      have := h.next_le
      omega
    rw [Bends.get_push_of_lt hlt]
    exact h.kept slot hslot

end Stores

/-! ## actions -/

section
variable {β β' : Type} {R : β → β' → Prop}

theorem inStep_check {r : Except Fault β} {r' : Except Fault β'} (h : Paired Fault.Alike R r r') :
    p.InStep R (Action.check r) (Action.check r') := fun _ _ hw => ⟨h, hw⟩

/-- a request that has nothing to do with edges -/
theorem inStep_check_same (r : Except Fault β) : p.InStep Eq (Action.check r) (Action.check r) :=
  inStep_check (paired_refl Fault.alike_refl r)

theorem inStep_ask {f : Graph α → Except Fault β} {f' : Graph α → Except Fault β'}
    (h : ∀ g g', p.Graphs g g' → Paired Fault.Alike R (f g) (f' g')) :
    p.InStep R (Action.ask f) (Action.ask f') :=
  inStep_get.bind fun _ _ hw => inStep_check (h _ _ hw.graph)

/-- a question that does not depend on the edges' slots -/
theorem inStep_ask_same {f f' : Graph α → Except Fault β} (h : ∀ g g', p.Graphs g g' → f' g' = f g) :
    p.InStep Eq (Action.ask f) (Action.ask f') := by
  refine inStep_ask fun g g' hg => ?_
  rw [h g g' hg]
  exact paired_refl Fault.alike_refl _

theorem inStep_edit {f f' : Graph α → Except Fault (Graph α)}
    (h : ∀ g g', p.Graphs g g' → Paired Fault.Alike p.Graphs (f g) (f' g')) :
    p.InStep Eq (Action.edit f) (Action.edit f') :=
  (inStep_ask h).bind fun _ _ hg => inStep_modify fun _ _ hw => ⟨hg, hw.bends⟩

end

section
variable {e e' : Edge} (he : p.Edges e e')

theorem inStep_addEdge (source target : NodeId) (isDummy : Bool) :
    p.InStep p.Edges (Action.addEdge source target isDummy) (Action.addEdge source target isDummy) := by
  refine inStep_get.bind fun w w' hw => ?_
  rw [hw.bends.fresh]
  refine (inStep_ask fun g g' hg => hg.addEdge hw.bends.next_le source target isDummy).bind ?_
  intro x x' hx
  refine (inStep_modify fun v v' hv => ?_).bind fun _ _ _ => inStep_pure hx.1
  exact ⟨hx.2, hv.bends.push []⟩

include he

theorem inStep_bendsOf : p.InStep Eq (Action.bendsOf e) (Action.bendsOf e') :=
  inStep_get.bind fun _ _ hw => inStep_pure (hw.bends.get_slot he).symm

theorem inStep_setBends (l : List (Point α)) :
    p.InStep Eq (Action.setBends e l) (Action.setBends e' l) :=
  inStep_modify fun _ _ hw => ⟨hw.graph, hw.bends.set he l⟩

theorem inStep_reattach : p.InStep p.Edges (Action.reattach e) (Action.reattach e') := by
  refine (inStep_edit fun g g' hg => hg.reattach he).bind fun _ _ _ => ?_
  exact (inStep_setBends he []).bind fun _ _ _ => inStep_pure he

theorem inStep_addBend (q : Point α) : p.InStep Eq (Action.addBend e q) (Action.addBend e' q) := by
  refine (inStep_bendsOf he).bind_same fun l => ?_
  exact inStep_setBends he _

theorem inStep_cleanRoute [Metric α] (tol : α) :
    p.InStep Eq (Action.cleanRoute tol e) (Action.cleanRoute tol e') := by
  refine (inStep_bendsOf he).bind_same fun old => ?_
  rw [he.source, he.target]
  split
  · exact inStep_pure rfl
  refine (inStep_ask_same fun g g' hg => hg.node e.source).bind_same fun start => ?_
  refine (inStep_ask_same fun g g' hg => hg.node e.target).bind_same fun finish => ?_
  refine (inStep_check_same _).bind_same fun new => ?_
  exact (inStep_setBends he new).bind fun _ _ _ => inStep_pure rfl

end

theorem inStep_cleanRoutes [Metric α] (tol : α) :
    p.InStep Eq (Action.cleanRoutes tol) (Action.cleanRoutes (α := α) tol) := by
  have hedges : p.InStep (List.Forall₂ p.Edges) (Action.ask fun g : Graph α => .ok g.edges)
      (Action.ask fun g => .ok g.edges) := inStep_ask fun g g' hg => hg.edges
  refine hedges.bind fun l l' hl => ?_
  refine inStep_foldlM hl (fun n n' e e' hn he => ?_) rfl
  subst hn
  exact (inStep_cleanRoute he tol).bind fun k k' hk => inStep_pure (congrArg (n + ·) hk)

end Parting

end LayeredDrawing
