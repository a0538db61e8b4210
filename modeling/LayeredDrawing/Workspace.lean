import LayeredDrawing.Graph.Edit

/-!
# Workspaces

A workspace is a graph together with the bends of all edges ever made, by slot.  An `Action` works
on it, and may be refused; what it did to the workspace before that stays done.

* `Bends`      the bends under each slot;
* `Action.ask`, `Action.edit`  look at the graph, or change it by a change that may be refused;
* `addEdge`, `reattach`, `addBend`, `cleanBends`  the actions that touch bends.
-/

namespace LayeredDrawing

/-- the bends of the edges, by slot; a slot not in use holds none -/
structure Bends (α : Type) where
  slots : Array (List (Point α))

namespace Bends

variable {α : Type}

def empty : Bends α := ⟨#[]⟩

instance : Inhabited (Bends α) := ⟨empty⟩

def get (b : Bends α) (slot : Nat) : List (Point α) := b.slots.getD slot []

def set (b : Bends α) (slot : Nat) (l : List (Point α)) : Bends α :=
  ⟨b.slots.setIfInBounds slot l⟩

/-- the slot that the next edge gets -/
def fresh (b : Bends α) : Nat := b.slots.size

def push (b : Bends α) (l : List (Point α)) : Bends α := ⟨b.slots.push l⟩

theorem get_set_self {b : Bends α} {slot : Nat} (h : slot < b.fresh) (l : List (Point α)) :
    (b.set slot l).get slot = l := by
  have h' : slot < b.slots.size := h
  simp [get, set, h']

theorem get_set_of_ne {b : Bends α} {slot other : Nat} (h : other ≠ slot) (l : List (Point α)) :
    (b.set slot l).get other = b.get other := by
  simp [get, set, h.symm]

theorem get_push_of_lt {b : Bends α} {slot : Nat} (h : slot < b.fresh) (l : List (Point α)) :
    (b.push l).get slot = b.get slot := by
  have h' : slot < b.slots.size := h
  have hn : ¬ slot = b.slots.size := by omega
  simp [get, push, Array.getElem?_push, hn]

theorem fresh_set (b : Bends α) (slot : Nat) (l : List (Point α)) :
    (b.set slot l).fresh = b.fresh := by simp [fresh, set]

theorem fresh_push (b : Bends α) (l : List (Point α)) : (b.push l).fresh = b.fresh + 1 := by
  simp [fresh, push]

end Bends

structure Workspace (α : Type) where
  graph : Graph α
  bends : Bends α

instance {α : Type} : Inhabited (Workspace α) := ⟨⟨default, default⟩⟩

/-- work on a workspace that may be refused -/
abbrev Action (α : Type) := ExceptT Fault (StateM (Workspace α))

namespace Action

variable {α β γ : Type}

/-- the answer and the workspace afterwards -/
def perform (a : Action α β) (w : Workspace α) : Except Fault β × Workspace α := a.run.run w

/-- goes on with an answer, or is refused with a fault -/
def check (r : Except Fault β) : Action α β := ExceptT.mk (pure r)

/-- looks at the graph -/
def ask (f : Graph α → Except Fault β) : Action α β := do check (f (← get).graph)

/-- changes the graph, unless the change is refused -/
def edit (f : Graph α → Except Fault (Graph α)) : Action α Unit := do
  let g ← ask f
  modify fun w => { w with graph := g }

def bendsOf (e : Edge) : Action α (List (Point α)) := return (← get).bends.get e.slot

def setBends (e : Edge) (l : List (Point α)) : Action α Unit :=
  modify fun w => { w with bends := w.bends.set e.slot l }

/-! ## what an action does -/

theorem perform_pure (b : β) (w : Workspace α) : (pure b : Action α β).perform w = (.ok b, w) := rfl

theorem perform_throw (fault : Fault) (w : Workspace α) :
    (throw fault : Action α β).perform w = (.error fault, w) := rfl

/-- the second action is performed where the first one left off, unless that was refused -/
theorem perform_bind (a : Action α β) (f : β → Action α γ) (w : Workspace α) :
    (a >>= f).perform w = match a.perform w with
      | (.ok b, v) => (f b).perform v
      | (.error fault, v) => (.error fault, v) := by
  simp only [perform, ExceptT.run_bind, StateT.run_bind]
  rcases a.run.run w with ⟨r, v⟩
  cases r <;> rfl

theorem perform_bind_ok {a : Action α β} {w v : Workspace α} {b : β} (h : a.perform w = (.ok b, v))
    (f : β → Action α γ) : (a >>= f).perform w = (f b).perform v := by
  rw [perform_bind, h]

theorem perform_bind_error {a : Action α β} {w v : Workspace α} {fault : Fault}
    (h : a.perform w = (.error fault, v)) (f : β → Action α γ) :
    (a >>= f).perform w = (.error fault, v) := by
  rw [perform_bind, h]

theorem perform_check (r : Except Fault β) (w : Workspace α) :
    (check r : Action α β).perform w = (r, w) := rfl

theorem perform_ask (f : Graph α → Except Fault β) (w : Workspace α) :
    (ask f).perform w = (f w.graph, w) := rfl

theorem perform_edit (f : Graph α → Except Fault (Graph α)) (w : Workspace α) :
    (edit f).perform w = match f w.graph with
      | .ok g => (.ok (), { w with graph := g })
      | .error fault => (.error fault, w) := by
  rw [edit, perform_bind, perform_ask]
  cases f w.graph <;> rfl

theorem perform_bendsOf (e : Edge) (w : Workspace α) :
    (bendsOf e).perform w = (.ok (w.bends.get e.slot), w) := rfl

theorem perform_setBends (e : Edge) (l : List (Point α)) (w : Workspace α) :
    (setBends e l).perform w = (.ok (), { w with bends := w.bends.set e.slot l }) := rfl

/-! ## edges and their bends -/

/-- a new edge without bends -/
def addEdge (source target : NodeId) (isDummy : Bool) : Action α Edge := do
  let slot := (← get).bends.fresh
  let (e, g) ← ask fun g => g.addEdge slot source target isDummy
  modify fun w => ⟨g, w.bends.push []⟩
  return e

/-- puts a removed edge back, without bends -/
def reattach (e : Edge) : Action α Edge := do
  edit fun g => g.reattach e
  setBends e []
  return e

def addBend (e : Edge) (p : Point α) : Action α Unit := do
  setBends e ((← bendsOf e) ++ [p])

/-- cleans the bends of one edge and says how many went -/
def cleanRoute [Metric α] (tol : α) (e : Edge) : Action α Nat := do
  let old ← bendsOf e
  if old.isEmpty then return 0
  let start ← ask fun g => g.node e.source
  let finish ← ask fun g => g.node e.target
  let new ← check (Route.clean tol start.position old finish.position)
  setBends e new
  return old.length - new.length

/-- cleans the bends of every edge and says how many went -/
def cleanRoutes [Metric α] (tol : α) : Action α Nat := do
  let edges ← ask fun g => .ok g.edges
  edges.foldlM (fun removed e => return removed + (← cleanRoute tol e)) 0

theorem perform_addEdge (source target : NodeId) (isDummy : Bool) (w : Workspace α) :
    (addEdge source target isDummy).perform w =
      match w.graph.addEdge w.bends.fresh source target isDummy with
      | .ok (e, g) => (.ok e, ⟨g, w.bends.push []⟩)
      | .error fault => (.error fault, w) := by
  show ((ask fun g => g.addEdge w.bends.fresh source target isDummy) >>= fun p =>
    ((modify fun w => ⟨p.2, w.bends.push []⟩ : Action α Unit) >>= fun _ => pure p.1)).perform w = _
  rw [perform_bind, perform_ask]
  cases w.graph.addEdge w.bends.fresh source target isDummy <;> rfl

theorem perform_reattach (e : Edge) (w : Workspace α) :
    (reattach e).perform w = match w.graph.reattach e with
      | .ok g => (.ok e, ⟨g, w.bends.set e.slot []⟩)
      | .error fault => (.error fault, w) := by
  rw [reattach, perform_bind, perform_edit]
  cases w.graph.reattach e <;> rfl

theorem perform_addBend (e : Edge) (p : Point α) (w : Workspace α) :
    (addBend e p).perform w
      = (.ok (), { w with bends := w.bends.set e.slot (w.bends.get e.slot ++ [p]) }) := rfl

/-! ## lists of actions -/

theorem perform_forM_nil (f : γ → Action α Unit) (w : Workspace α) :
    (([] : List γ).forM f).perform w = (.ok (), w) := rfl

theorem forM_cons (f : γ → Action α Unit) (c : γ) (l : List γ) :
    (c :: l).forM f = f c >>= fun _ => l.forM f := rfl

theorem perform_foldlM_nil (f : β → γ → Action α β) (b : β) (w : Workspace α) :
    (([] : List γ).foldlM f b).perform w = (.ok b, w) := rfl

theorem foldlM_cons (f : β → γ → Action α β) (b : β) (c : γ) (l : List γ) :
    (c :: l).foldlM f b = f b c >>= fun b => l.foldlM f b := rfl

end Action

end LayeredDrawing
