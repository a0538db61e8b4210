import LayeredDrawing.Session.Basic

/-!
# Running sessions

`Session.step` carries out one command.  A refused command adds no graph, edge or snapshot, but what
it did to a graph before it was refused stays done; `Session.run` goes on after it.
-/

namespace LayeredDrawing

/-- work on a session that may be refused -/
abbrev SessionAction (α : Type) := ExceptT (Refusal α) (StateM (Session α))

namespace SessionAction

variable {α β : Type}

def check (r : Except Fault β) : SessionAction α β :=
  MonadExcept.ofExcept (r.mapError .fault)

def configure [Scalar α] (settings : List (Setting α)) : SessionAction α (Config α) :=
  MonadExcept.ofExcept ((Config.ofSettings settings).mapError .config)

/-- the member of a list at a position -/
def pick {γ : Type} (l : List γ) (i : Int) : Except Fault (Nat × γ) := do
  let p ← position l.length i
  match l[p]? with
  | none => .error .outOfRange
  | some a => .ok (p, a)

/-- works on the graph at a position -/
def onGraph (g : Int) (a : Action α β) : SessionAction α β := do
  let s ← get
  let (p, graph) ← check (pick s.graphs g)
  let (result, w) := a.perform ⟨graph, s.bends⟩
  set { s with graphs := s.graphs.set p w.graph, bends := w.bends }
  check result

/-- looks at the graph at a position -/
def askGraph (g : Int) (f : Graph α → Except Fault β) : SessionAction α β := do
  let (_, graph) ← check (pick (← get).graphs g)
  check (f graph)

/-- the position of a graph, counted from the start -/
def graphPosition (g : Int) : SessionAction α Nat := do
  let (p, _) ← check (pick (← get).graphs g)
  return p

def edgeAt (e : Int) : SessionAction α Edge := do
  let (_, edge) ← check (pick (← get).edges e)
  return edge

/-- the edge at a position, for work on the graph at a position: that graph has to be there first -/
def edgeFor (g e : Int) : SessionAction α Edge := do
  discard (graphPosition g)
  edgeAt e

/-- the snapshot at a position, and the position of its graph -/
def snapshotAt (s : Int) : SessionAction α (Nat × Snapshot) := do
  let (_, entry) ← check (pick (← get).snapshots s)
  return entry

def replyEdge (e : Edge) : SessionAction α (Reply α) := return .edge e ((← get).bends.get e.slot)

def replySnapshot (s : Snapshot) : SessionAction α (Reply α) := return .snapshot s (← get).bends

/-- adds an edge to the list of edges -/
def keepEdge (e : Edge) : SessionAction α (Reply α) := do
  modify fun s => { s with edges := s.edges ++ [e] }
  replyEdge e

/-- adds a snapshot to the list of snapshots -/
def keepSnapshot (g : Nat) (snapshot : Snapshot) : SessionAction α (Reply α) := do
  modify fun s => { s with snapshots := s.snapshots ++ [(g, snapshot)] }
  replySnapshot snapshot

/-- adds a graph to the list of graphs -/
def keepGraph (g : Graph α) : SessionAction α (Reply α) := do
  let n := (← get).graphs.length
  modify fun s => { s with graphs := s.graphs ++ [g] }
  return .number n

def stageNamed (name : String) : SessionAction α Stage :=
  match Stage.ofName? name with
  | some stage => return stage
  | none => check (.error (.noStage name))

/-- asks about a node that the graph has to have -/
def askNode (g : Int) (id : NodeId) (f : Graph α → Reply α) : SessionAction α (Reply α) :=
  askGraph g fun graph => do
    graph.require id
    return f graph

def execute [Metric α] : Command α → SessionAction α (Reply α)
  | .newGraph => keepGraph .empty
  | .copyGraph g => do
    let graph ← askGraph g .ok
    let w := Workspace.copyGraph ⟨graph, (← get).bends⟩
    modify fun s => { s with bends := w.bends }
    keepGraph w.graph
  | .addNode g id node => do
    onGraph g (Action.edit fun graph => graph.addNode id node)
    return .node id node
  | .removeNode g id => do
    onGraph g (Action.edit fun graph => graph.removeNode id)
    return .done
  | .node g id => askGraph g fun graph => return .node id (← graph.node id)
  | .hasNode g id => askGraph g fun graph => return .flag (graph.hasNode id)
  | .addEdge g source target isDummy => do
    keepEdge (← onGraph g (Action.addEdge source target isDummy))
  | .makeEdge key source target => do
    let slot := (← get).bends.fresh
    modify fun s => { s with bends := s.bends.push [] }
    keepEdge ⟨slot, key, source, target, false⟩
  | .findEdge g key => do
    keepEdge (← askGraph g fun graph => graph.edge key)
  | .removeEdge g e => do
    let edge ← edgeFor g e
    onGraph g (Action.edit fun graph => graph.detach edge)
    return .done
  | .reattach g e => do
    let edge ← edgeFor g e
    replyEdge (← onGraph g (Action.reattach edge))
  | .hasEdge g e => do
    let edge ← edgeFor g e
    askGraph g fun graph => return .flag (graph.hasEdge edge)
  | .sourceNode g e => do
    let edge ← edgeFor g e
    askGraph g fun graph => return .node edge.source (← graph.node edge.source)
  | .targetNode g e => do
    let edge ← edgeFor g e
    askGraph g fun graph => return .node edge.target (← graph.node edge.target)
  | .addBend e p => do
    let edge ← edgeAt e
    modify fun s => { s with bends := s.bends.set edge.slot (s.bends.get edge.slot ++ [p]) }
    replyEdge edge
  | .showEdge e => do replyEdge (← edgeAt e)
  | .describeEdge e => return .text (← edgeAt e).text
  | .inEdges g id => askNode g id fun graph => .keys ((graph.inEdges id).map Edge.key)
  | .outEdges g id => askNode g id fun graph => .keys ((graph.outEdges id).map Edge.key)
  | .inDegree g id => askNode g id fun graph => .number (graph.inEdges id).length
  | .outDegree g id => askNode g id fun graph => .number (graph.outEdges id).length
  | .predecessors g id => askNode g id fun graph => .ids (graph.predecessors id)
  | .successors g id => askNode g id fun graph => .ids (graph.successors id)
  | .setPosition g id p => do
    onGraph g (Action.edit fun graph => graph.setPosition id p.x p.y)
    return .done
  | .position g id => askGraph g fun graph => return .point (← graph.node id).position
  | .cleanRoutes g tol => return .number (← onGraph g (Action.cleanRoutes tol))
  | .nodeIds g => askGraph g fun graph => return .ids graph.nodeIds
  | .edgeKeys g => askGraph g fun graph => return .keys (graph.edges.map Edge.key)
  | .showGraph g => do
    let graph ← askGraph g .ok
    return .graph ⟨graph, (← get).bends⟩
  | .describeGraph g => askGraph g fun graph => return .text graph.text
  | .newSnapshot g stage layers arrangement => do
    let p ← graphPosition g
    let stage ← stageNamed stage
    keepSnapshot p ⟨stage, .ofList layers, arrangement, ∅⟩
  | .phase s phase settings => do
    let (g, snapshot) ← snapshotAt s
    let c ← configure settings
    keepSnapshot g (← onGraph g (phase.apply c snapshot))
  | .draw g settings => do
    let p ← graphPosition g
    let c ← configure settings
    keepSnapshot p (← onGraph g (LayeredDrawing.draw c))
  | .showSnapshot s => do replySnapshot (← snapshotAt s).2
  | .requireUnitSpans s => do
    let (g, snapshot) ← snapshotAt s
    askGraph g fun graph => LayeredDrawing.requireUnitSpans graph snapshot
    return .done
  | .requireStage s stage => do
    let (_, snapshot) ← snapshotAt s
    check (snapshot.requireStage (← stageNamed stage))
    return .done
  | .crossings s => do
    let (g, snapshot) ← snapshotAt s
    return .number (← askGraph g fun graph => crossings? graph snapshot.arrangement)

end SessionAction

namespace Session

variable {α : Type} [Metric α]

/-- the answer to one command, and the session afterwards -/
def step (c : Command α) (s : Session α) : Except (Refusal α) (Reply α) × Session α :=
  (SessionAction.execute c).run.run s

/-- the answers to the commands in turn, and the session afterwards -/
def run : List (Command α) → Session α → List (Except (Refusal α) (Reply α)) × Session α
  | [], s => ([], s)
  | c :: rest, s =>
    let (r, s) := step c s
    let (rs, s) := run rest s
    (r :: rs, s)

/-- a graph of the session with the bends of its edges -/
def workspace (s : Session α) (g : Graph α) : Workspace α := ⟨g, s.bends⟩

end Session

end LayeredDrawing
