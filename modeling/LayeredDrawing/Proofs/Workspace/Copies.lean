import LayeredDrawing.Proofs.Graph.TopologicalOrder
import LayeredDrawing.Proofs.Workspace.Parting
import LayeredDrawing.Proofs.Workspace.Stored
import Mathlib.Data.List.GetD
import Mathlib.Logic.Function.Basic

/-!
# Where a copy and its original part

A copy has fresh slots in the order of the slots that it copies, with the same bends under them.  So the
copy and the original part where the copy is made: `Workspace.partner` exchanges each slot of the original
with the one it was copied to.  On either side of a parting, copies of graphs that answer to each other
answer to each other again.

* `Bends.get_copySlots`       the bends after copying;
* `Workspace.partner`         the exchange, which is its own inverse;
* `Workspace.parting`         the parting, with `graphs_copyGraph` and `stores_copyGraph` to start from;
* `Workspaces.copyGraph`      copies made later.
-/

namespace LayeredDrawing

/-! ## lists of slots -/

theorem idxOf_map {f : Nat → Nat} (hf : Function.Injective f) (l : List Nat) (a : Nat) :
    (l.map f).idxOf (f a) = l.idxOf a := by
  rw [List.idxOf, List.idxOf, List.findIdx_map]
  congr 1
  funext b
  simp [hf.eq_iff]

theorem eraseDups_map {f : Nat → Nat} (hf : Function.Injective f) (l : List Nat) :
    (l.map f).eraseDups = l.eraseDups.map f := by
  generalize hn : l.length = n
  induction n using Nat.strongRecOn generalizing l with
  | ind n ih =>
    cases l with
    | nil => rfl
    | cons a l =>
      have hlt : (l.filter fun b => !b == a).length < n := by
        have := List.length_filter_le (fun b => !b == a) l
        rw [List.length_cons] at hn
        omega
      have hrest : (l.map f).filter (fun b => !b == f a) = (l.filter fun b => !b == a).map f := by
        rw [List.filter_map]
        refine congrArg (List.map f) (List.filter_congr fun b _ => ?_)
        simp [hf.eq_iff]
      rw [List.map_cons, List.eraseDups_cons, List.eraseDups_cons, List.map_cons, hrest, ih _ hlt _ rfl]

variable {α : Type}

namespace Bends

theorem slots_copySlots (b : Bends α) (slots : List Nat) :
    (b.copySlots slots).slots = b.slots ++ (slots.map b.get).toArray := by
  have hpush (l : List Nat) (acc : Bends α) :
      (l.foldl (fun acc slot => acc.push (b.get slot)) acc).slots
        = acc.slots ++ (l.map b.get).toArray := by
    induction l generalizing acc with
    | nil => simp
    | cons slot l ih =>
      rw [List.foldl_cons, ih]
      simp [push]
  exact hpush slots b

theorem get_copySlots_of_lt {b : Bends α} {slot : Nat} (h : slot < b.fresh) (slots : List Nat) :
    (b.copySlots slots).get slot = b.get slot := by
  have hlt : slot < b.slots.size := h
  simp [get, slots_copySlots, Array.getElem?_append, hlt]

theorem get_copySlots_add (b : Bends α) {slots : List Nat} {i : Nat} (h : i < slots.length) :
    (b.copySlots slots).get (b.fresh + i) = b.get slots[i] := by
  rw [get, slots_copySlots]
  simp [fresh, h]

end Bends

namespace Graph

theorem nodup_slots (g : Graph α) : g.slots.Nodup := nodup_eraseDups _

end Graph

/-! ## the parting -/

namespace Workspace

variable (w : Workspace α)

/-- exchanges each slot of the graph with the one that a copy of it gets -/
def partner (slot : Nat) : Nat :=
  if slot ∈ w.graph.slots then w.bends.fresh + w.graph.slots.idxOf slot
  else if w.bends.fresh ≤ slot then w.graph.slots.getD (slot - w.bends.fresh) slot
  else slot

variable {w}

theorem partner_of_mem {slot : Nat} (h : slot ∈ w.graph.slots) :
    w.partner slot = w.bends.fresh + w.graph.slots.idxOf slot := if_pos h

theorem partner_of_not_mem {slot : Nat} (h : slot ∉ w.graph.slots)
    (hne : ∀ i < w.graph.slots.length, slot ≠ w.bends.fresh + i) : w.partner slot = slot := by
  rw [partner, if_neg h]
  split
  · rename_i hle
    refine List.getD_eq_default _ _ (Nat.le_of_not_lt fun hlt => hne _ hlt ?_)
    omega
  · rfl

section
variable (h : w.Stored)
include h

theorem partner_add {i : Nat} (hi : i < w.graph.slots.length) :
    w.partner (w.bends.fresh + i) = w.graph.slots[i] := by
  have hfresh : w.bends.fresh + i ∉ w.graph.slots := fun hmem => by
    have := h.slot_lt hmem
    omega
  rw [partner, if_neg hfresh, if_pos (Nat.le_add_right _ _), Nat.add_sub_cancel_left,
    List.getD_eq_getElem _ _ hi]

theorem partner_idxOf {slot : Nat} (hmem : slot ∈ w.graph.slots) :
    w.partner (w.bends.fresh + w.graph.slots.idxOf slot) = slot := by
  rw [partner_add h (List.idxOf_lt_length_of_mem hmem), List.getElem_idxOf]

theorem partner_involutive : Function.Involutive w.partner := by
  intro slot
  by_cases hmem : slot ∈ w.graph.slots
  · rw [partner_of_mem hmem, partner_idxOf h hmem]
  · by_cases hcopy : ∃ i, ∃ hi : i < w.graph.slots.length, slot = w.bends.fresh + i
    · obtain ⟨i, hi, rfl⟩ := hcopy
      rw [partner_add h hi, partner_of_mem (List.getElem_mem hi), w.graph.nodup_slots.idxOf_getElem]
    · have hfixed : w.partner slot = slot :=
        partner_of_not_mem hmem fun i hi heq => hcopy ⟨i, hi, heq⟩
      rw [hfixed, hfixed]

theorem get_partner (slot : Nat) :
    w.copyGraph.bends.get (w.partner slot) = w.copyGraph.bends.get slot := by
  have hcopied {i : Nat} (hi : i < w.graph.slots.length) : w.copyGraph.bends.get w.graph.slots[i]
      = w.copyGraph.bends.get (w.bends.fresh + i) := by
    show (w.bends.copySlots w.graph.slots).get _ = (w.bends.copySlots w.graph.slots).get _
    rw [Bends.get_copySlots_add w.bends hi, Bends.get_copySlots_of_lt (h.slot_lt (List.getElem_mem hi))]
  by_cases hmem : slot ∈ w.graph.slots
  · rw [partner_of_mem hmem, ← hcopied (List.idxOf_lt_length_of_mem hmem), List.getElem_idxOf]
  · by_cases hcopy : ∃ i, ∃ hi : i < w.graph.slots.length, slot = w.bends.fresh + i
    · obtain ⟨i, hi, rfl⟩ := hcopy
      rw [partner_add h hi, hcopied hi]
    · rw [partner_of_not_mem hmem fun i hi heq => hcopy ⟨i, hi, heq⟩]

end

variable (w) in
/-- where a copy of the graph parts from it -/
def parting (h : w.Stored) : Parting α where
  base := w.bends
  across := w.partner
  next := w.bends.fresh + w.graph.slots.length
  base_le := Nat.le_add_right _ _
  injective := (partner_involutive h).injective
  across_of_le := by
    intro slot hslot
    refine partner_of_not_mem (fun hmem => ?_) fun i hi => by omega
    have := h.slot_lt hmem
    omega

theorem graphs_copyGraph (h : w.Stored) : (w.parting h).Graphs w.copyGraph.graph w.graph := by
  have hedge (e : Edge) (he : e ∈ w.graph.arcs ++ w.graph.index.values) :
      (w.parting h).Edges (e.atSlot (w.bends.fresh + w.graph.slots.idxOf e.slot)) e := by
    refine ⟨Nat.le_add_right _ _, ?_⟩
    show e = e.atSlot (w.partner (w.bends.fresh + w.graph.slots.idxOf e.slot))
    rw [partner_idxOf h (Graph.mem_slots.2 ⟨e, he, rfl⟩)]
    rfl
  refine ⟨rfl, ?_, ?_, rfl⟩
  · refine List.forall₂_map_left_iff.2 (List.forall₂_same.2 fun e he => ?_)
    exact hedge e (List.mem_append_left _ he)
  · refine List.forall₂_map_left_iff.2 (List.forall₂_same.2 fun x hx => ⟨rfl, ?_⟩)
    exact hedge x.2 (List.mem_append_right _ (List.mem_map_of_mem hx))

theorem stores_copyGraph (h : w.Stored) :
    (w.parting h).Stores w.copyGraph.bends w.copyGraph.bends where
  fresh := rfl
  next_le := Nat.le_of_eq (Bends.fresh_copySlots _ _).symm
  get := get_partner h
  kept _ hslot := Bends.get_copySlots_of_lt hslot _

end Workspace

/-! ## copies made later -/

namespace Parting

variable {p : Parting α}

theorem Graphs.slots {g g' : Graph α} (h : p.Graphs g g') : g'.slots = g.slots.map p.across := by
  have hslots : List.Forall₂ p.Edges (g.arcs ++ g.index.values) (g'.arcs ++ g'.index.values) :=
    List.rel_append h.arcs h.index.values
  have hmap : (g'.arcs ++ g'.index.values).map Edge.slot
      = ((g.arcs ++ g.index.values).map Edge.slot).map p.across := by
    rw [List.map_map]
    exact map_eq_map_of_forall₂ hslots fun e e' he => congrArg Edge.slot he.2
  rw [Graph.slots, Graph.slots, hmap, eraseDups_map p.injective]

theorem Stores.copySlots {b b' : Bends α} (h : p.Stores b b') (slots : List Nat) :
    p.Stores (b.copySlots slots) (b'.copySlots (slots.map p.across)) := by
  have hpush (l : List Nat) {acc acc' : Bends α} (hacc : p.Stores acc acc') :
      p.Stores (l.foldl (fun acc slot => acc.push (b.get slot)) acc)
        ((l.map p.across).foldl (fun acc slot => acc.push (b'.get slot)) acc') := by
    induction l generalizing acc acc' with
    | nil => exact hacc
    | cons slot l ih =>
      rw [List.map_cons, List.foldl_cons, List.foldl_cons, h.get]
      exact ih (hacc.push _)
  exact hpush slots h

theorem Workspaces.copyGraph {w w' : Workspace α} (h : p.Workspaces w w') :
    p.Workspaces w.copyGraph w'.copyGraph := by
  have hedge {e e' : Edge} (he : p.Edges e e') :
      p.Edges (e.atSlot (w.bends.fresh + w.graph.slots.idxOf e.slot))
        (e'.atSlot (w'.bends.fresh + w'.graph.slots.idxOf e'.slot)) := by
    obtain ⟨_, rfl⟩ := he
    have hlate : p.next ≤ w.bends.fresh + w.graph.slots.idxOf e.slot :=
      Nat.le_add_right_of_le h.bends.next_le
    refine ⟨Nat.le_trans p.base_le hlate, ?_⟩
    rw [h.graph.slots, h.bends.fresh]
    show e.atSlot (w.bends.fresh + (w.graph.slots.map p.across).idxOf (p.across e.slot))
      = e.atSlot (p.across (w.bends.fresh + w.graph.slots.idxOf e.slot))
    rw [idxOf_map p.injective, p.across_of_le hlate]
  refine ⟨⟨h.graph.nodes, ?_, ?_, h.graph.nextKey⟩, ?_⟩
  · exact List.rel_map (fun _ _ he => hedge he) h.graph.arcs
  · exact List.rel_map (fun _ _ hx => ⟨hx.1, hedge hx.2⟩) h.graph.index
  · have hcopy := h.bends.copySlots w.graph.slots
    rwa [← h.graph.slots] at hcopy

end Parting

end LayeredDrawing
