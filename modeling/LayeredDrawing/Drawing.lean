import LayeredDrawing.Phase.Reconstruction

/-!
# Drawings

`draw` takes a graph through all phases, in order.  A phase that is refused ends the run, and the
graph stays as that phase left it.
-/

namespace LayeredDrawing

inductive Phase where
  | layering
  | expansion
  | ordering
  | placement
  | reconstruction
deriving DecidableEq, Repr

namespace Phase

def all : List Phase := [layering, expansion, ordering, placement, reconstruction]

/-- what a report calls the phase -/
def title : Phase → String
  | layering => "layering"
  | expansion => "expansion"
  | ordering => "crossing minimisation"
  | placement => "vertical placement"
  | reconstruction => "reconstruction"

/-- the stage at which the phase begins -/
def expects : Phase → Stage
  | layering => .unlaidOut
  | expansion => .layered
  | ordering => .expanded
  | placement => .ordered
  | reconstruction => .positioned

variable {α : Type} [Metric α]

def apply (c : Config α) : Phase → Snapshot → Action α Snapshot
  | layering => Action.putInLayers c
  | expansion => Action.subdivide c
  | ordering => Action.reorder c
  | placement => Action.place c
  | reconstruction => Action.restoreEdges c

end Phase

variable {α : Type} [Metric α]

/-- runs the phases one after the other -/
def runPhases (c : Config α) (phases : List Phase) (s : Snapshot) : Action α Snapshot :=
  phases.foldlM (fun s phase => phase.apply c s) s

/-- lays the graph out -/
def draw (c : Config α) : Action α Snapshot := runPhases c Phase.all .initial

/-- how one phase of a run went -/
structure Report (α : Type) where
  phase : Phase
  outcome : Except Fault Snapshot
  /-- the graph and the bends after the phase -/
  workspace : Workspace α

/-- runs phases one after the other and reports on each, up to the first that is refused -/
def traceFrom (c : Config α) : List Phase → Snapshot → Workspace α → List (Report α)
  | [], _, _ => []
  | phase :: rest, s, w =>
    match (phase.apply c s).perform w with
    | (.ok s, w) => ⟨phase, .ok s, w⟩ :: traceFrom c rest s w
    | (.error fault, w) => [⟨phase, .error fault, w⟩]

/-- a whole run, phase by phase -/
def trace (c : Config α) (w : Workspace α) : List (Report α) := traceFrom c Phase.all .initial w

end LayeredDrawing
