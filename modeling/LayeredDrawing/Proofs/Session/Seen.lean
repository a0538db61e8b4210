import LayeredDrawing.Proofs.Phase.Parting
import LayeredDrawing.Session.Step

/-!
# What can be seen of a session

An answer shows edges with their bends; which slots the bends are kept under cannot be seen.  `Reply.seen`
leaves the slots out and lists the bends instead, edge by edge.  Answers on either side of a parting look
the same.

* `Reply.seen`, `Refusal.seen`, `answerSeen`   what an answer shows;
* `alike_graph`, `alike_snapshot`              graphs and snapshots on either side of a parting;
* `Command.graph?`, `Command.edge?`, `Command.snapshot?`   the positions that a command names;
* `Command.redirect`                           the same command for another graph.
-/

namespace LayeredDrawing

/-! ## answers -/

def Chain.seen (C : Chain) : Chain := ⟨C.edge.seen, C.nodes, C.edges.map Edge.seen⟩

namespace Snapshot

def seen (s : Snapshot) : Snapshot := { s with chains := s.chains.mapValues fun _ C => C.seen }

/-- the edges of the chains, each hidden edge before those that stand in for it -/
def edges (s : Snapshot) : List Edge := s.chains.values.flatMap fun C => C.edge :: C.edges

end Snapshot

variable {α : Type}

/-- the refusal without slots: its kind and its words are the same (`Fault.kind_seen`,
`Fault.message_seen`) -/
def Refusal.seen : Refusal α → Refusal α
  | .fault f => .fault f.seen
  | .config f => .config f

/-- the reply without slots, and the bends of the edges that it shows -/
def Reply.seen : Reply α → Reply α × List (List (Point α))
  | .edge e bends => (.edge e.seen bends, [])
  | .graph w => (.graph ⟨w.graph.mapSlots fun _ => 0, .empty⟩,
      (w.graph.arcs ++ w.graph.index.values).map fun e => w.bends.get e.slot)
  | .snapshot s bends => (.snapshot s.seen .empty, s.edges.map fun e => bends.get e.slot)
  | r => (r, [])

/-- what an answer shows -/
def answerSeen (r : Except (Refusal α) (Reply α)) :
    Except (Refusal α) (Reply α × List (List (Point α))) :=
  (r.map Reply.seen).mapError Refusal.seen

def Refusal.Alike (f f' : Refusal α) : Prop := f'.seen = f.seen

def Reply.Alike (r r' : Reply α) : Prop := r'.seen = r.seen

theorem answerSeen_eq {r r' : Except (Refusal α) (Reply α)} (h : Paired Refusal.Alike Reply.Alike r r') :
    answerSeen r' = answerSeen r := by
  cases r <;> cases r'
  · exact congrArg Except.error h
  · exact h.elim
  · exact h.elim
  · exact congrArg Except.ok h

namespace Parting

variable {p : Parting α}

theorem mapValues_seen {κ ν : Type} {R : ν → ν → Prop} {f : ν → ν} {m m' : OrderedMap κ ν}
    (h : m.Related R m') (hf : ∀ v v', R v v' → f v' = f v) :
    (m'.mapValues fun _ => f) = m.mapValues fun _ => f :=
  OrderedMap.ext (map_eq_map_of_forall₂ h fun _ _ hx => Prod.ext hx.1 (hf _ _ hx.2))

theorem map_get {b b' : Bends α} (hb : p.Stores b b') {l l' : List Edge}
    (h : List.Forall₂ p.Edges l l') : l'.map (fun e => b'.get e.slot) = l.map fun e => b.get e.slot :=
  map_eq_map_of_forall₂ h fun _ _ he => hb.get_slot he

theorem alike_edge {b b' : Bends α} (hb : p.Stores b b') {e e' : Edge} (he : p.Edges e e') :
    (Reply.edge e (b.get e.slot)).Alike (.edge e' (b'.get e'.slot)) := by
  show (Reply.edge e'.seen (b'.get e'.slot), []) = (Reply.edge e.seen (b.get e.slot), [])
  rw [he.seen, hb.get_slot he]

theorem alike_graph {w w' : Workspace α} (h : p.Workspaces w w') :
    (Reply.graph w).Alike (.graph w') := by
  have hgraph : (w'.graph.mapSlots fun _ => 0) = w.graph.mapSlots fun _ => 0 := by
    have harcs : w'.graph.arcs.map Edge.seen = w.graph.arcs.map Edge.seen :=
      map_eq_map_of_forall₂ h.graph.arcs fun _ _ he => he.seen
    have hindex := mapValues_seen (f := Edge.seen) h.graph.index fun _ _ he => he.seen
    show Graph.mk w'.graph.nodes (w'.graph.arcs.map Edge.seen)
        (w'.graph.index.mapValues fun _ => Edge.seen) w'.graph.nextKey
      = Graph.mk w.graph.nodes (w.graph.arcs.map Edge.seen)
        (w.graph.index.mapValues fun _ => Edge.seen) w.graph.nextKey
    rw [harcs, hindex, h.graph.nodes, h.graph.nextKey]
  have hbends := map_get h.bends (List.rel_append h.graph.arcs h.graph.index.values)
  exact Prod.ext (congrArg (fun g => Reply.graph ⟨g, .empty⟩) hgraph) hbends

theorem alike_snapshot {s s' : Snapshot} (hs : p.Snapshots s s') {b b' : Bends α}
    (hb : p.Stores b b') : (Reply.snapshot s b).Alike (.snapshot s' b') := by
  have hchain (C C' : Chain) (h : p.Chains C C') : C'.seen = C.seen := by
    rw [Chain.seen, Chain.seen, h.edge.seen, h.nodes,
      map_eq_map_of_forall₂ h.edges fun _ _ he => Edges.seen he]
  have hseen : s'.seen = s.seen := by
    rw [Snapshot.seen, Snapshot.seen, hs.stage, hs.layers, hs.arrangement,
      mapValues_seen hs.chains hchain]
  have hedges : List.Forall₂ p.Edges s.edges s'.edges :=
    List.rel_flatMap hs.chains.values fun _ _ h => .cons h.edge h.edges
  exact Prod.ext (congrArg (Reply.snapshot · .empty) hseen) (map_get hb hedges)

end Parting

/-! ## commands -/

namespace Command

/-- the position of the graph that the command names -/
def graph? : Command α → Option Int
  | copyGraph g | addNode g _ _ | removeNode g _ | node g _ | hasNode g _ | addEdge g _ _ _
  | findEdge g _ | removeEdge g _ | reattach g _ | hasEdge g _ | sourceNode g _ | targetNode g _
  | inEdges g _ | outEdges g _ | inDegree g _ | outDegree g _ | predecessors g _ | successors g _
  | setPosition g _ _ | position g _ | cleanRoutes g _ | nodeIds g | edgeKeys g | showGraph g
  | describeGraph g | newSnapshot g _ _ _ | draw g _ => some g
  | newGraph | makeEdge _ _ _ | addBend _ _ | showEdge _ | describeEdge _ | phase _ _ _
  | showSnapshot _ | requireUnitSpans _ | requireStage _ _ | crossings _ => none

/-- the position of the edge that the command names -/
def edge? : Command α → Option Int
  | removeEdge _ e | reattach _ e | hasEdge _ e | sourceNode _ e | targetNode _ e | addBend e _
  | showEdge e | describeEdge e => some e
  | _ => none

/-- the position of the snapshot that the command names -/
def snapshot? : Command α → Option Int
  | phase s _ _ | showSnapshot s | requireUnitSpans s | requireStage s _ | crossings s => some s
  | _ => none

/-- the command names only graphs, edges and snapshots that came after those of the session -/
def After (s : Session α) (c : Command α) : Prop :=
  (∀ i ∈ c.graph?, (s.graphs.length : Int) ≤ i) ∧ (∀ i ∈ c.edge?, (s.edges.length : Int) ≤ i) ∧
    ∀ i ∈ c.snapshot?, (s.snapshots.length : Int) ≤ i

instance (s : Session α) (c : Command α) : Decidable (c.After s) :=
  inferInstanceAs (Decidable (_ ∧ _ ∧ _))

/-- the command with another position for its graph -/
def mapGraph (f : Int → Int) : Command α → Command α
  | newGraph => newGraph
  | copyGraph g => copyGraph (f g)
  | addNode g id n => addNode (f g) id n
  | removeNode g id => removeNode (f g) id
  | node g id => node (f g) id
  | hasNode g id => hasNode (f g) id
  | addEdge g source target isDummy => addEdge (f g) source target isDummy
  | makeEdge key source target => makeEdge key source target
  | findEdge g key => findEdge (f g) key
  | removeEdge g e => removeEdge (f g) e
  | reattach g e => reattach (f g) e
  | hasEdge g e => hasEdge (f g) e
  | sourceNode g e => sourceNode (f g) e
  | targetNode g e => targetNode (f g) e
  | addBend e q => addBend e q
  | showEdge e => showEdge e
  | describeEdge e => describeEdge e
  | inEdges g id => inEdges (f g) id
  | outEdges g id => outEdges (f g) id
  | inDegree g id => inDegree (f g) id
  | outDegree g id => outDegree (f g) id
  | predecessors g id => predecessors (f g) id
  | successors g id => successors (f g) id
  | setPosition g id q => setPosition (f g) id q
  | position g id => position (f g) id
  | cleanRoutes g tol => cleanRoutes (f g) tol
  | nodeIds g => nodeIds (f g)
  | edgeKeys g => edgeKeys (f g)
  | showGraph g => showGraph (f g)
  | describeGraph g => describeGraph (f g)
  | newSnapshot g stage layers arrangement => newSnapshot (f g) stage layers arrangement
  | phase s step settings => phase s step settings
  | draw g settings => draw (f g) settings
  | showSnapshot s => showSnapshot s
  | requireUnitSpans s => requireUnitSpans s
  | requireStage s stage => requireStage s stage
  | crossings s => crossings s

/-- the command for the graph `g`, where it is for the graph `n` -/
def redirect (n g : Nat) (c : Command α) : Command α :=
  c.mapGraph fun i => if i = n then g else i

end Command

end LayeredDrawing
