import LayeredDrawing.Workspace

/-!
# Copies

A copy of a graph has edges of its own: each slot that the graph uses is copied to a fresh one, and
the copy uses the fresh slots wherever the graph uses the old ones.  Everything else is the same.
-/

namespace LayeredDrawing

variable {α : Type}

def Edge.atSlot (e : Edge) (slot : Nat) : Edge := { e with slot }

namespace Graph

/-- the slots that the graph uses, each once -/
def slots (g : Graph α) : List Nat := ((g.arcs ++ g.index.values).map Edge.slot).eraseDups

/-- the graph with every slot replaced -/
def mapSlots (f : Nat → Nat) (g : Graph α) : Graph α :=
  { g with
    arcs := g.arcs.map fun e => e.atSlot (f e.slot)
    index := g.index.mapValues fun _ e => e.atSlot (f e.slot) }

end Graph

namespace Bends

/-- copies the bends under the given slots to fresh slots, in order -/
def copySlots (b : Bends α) (slots : List Nat) : Bends α :=
  slots.foldl (fun acc slot => acc.push (b.get slot)) b

theorem fresh_copySlots (b : Bends α) (slots : List Nat) :
    (b.copySlots slots).fresh = b.fresh + slots.length := by
  have h (l : List Nat) (acc : Bends α) :
      (l.foldl (fun acc slot => acc.push (b.get slot)) acc).fresh = acc.fresh + l.length := by
    induction l generalizing acc with
    | nil => rfl
    | cons s l ih =>
      rw [List.foldl_cons, ih, fresh_push, List.length_cons]
      omega
  exact h slots b

end Bends

namespace Workspace

/-- a copy of the graph, beside the bends that now hold those of the copy too -/
def copyGraph (w : Workspace α) : Workspace α :=
  let slots := w.graph.slots
  ⟨w.graph.mapSlots fun slot => w.bends.fresh + slots.idxOf slot, w.bends.copySlots slots⟩

end Workspace

end LayeredDrawing
