import LayeredDrawing.Proofs.Renaming.Cycle
import LayeredDrawing.Proofs.Renaming.Expansion
import Mathlib.Algebra.Group.End
import Mathlib.Data.Set.Finite.List
import Mathlib.Data.Set.Finite.Range
import Mathlib.Logic.Equiv.Fintype

/-!
# Graphs with the same structure

Two graphs have the same structure if their nodes come in the same order, and so do the edges from each
node and those to each node, under other names.  The names are given for the nodes and edges that there
are; names for all others are found, so that they make up a renaming.

* `exists_renaming`          a renaming that extends given names;
* `Isomorphic`               graphs with the same structure, under given names;
* `RenamedGraph`             the same, under a renaming;
* `RenamedGraph.renamed`     what drawing needs to know of such graphs;
* `RenamedGraph.someCycle`   the search for a cycle ends alike.
-/

namespace LayeredDrawing

/-! ## names for all nodes and keys -/

/-- an injective map of some elements with a property extends to a permutation that changes no element
without it -/
theorem exists_perm_of_injOn {β : Type} {P : β → Prop} {f : β → β} {l : List β}
    (hl : ∀ a ∈ l, P a) (hf : ∀ a ∈ l, P (f a)) (hinj : Set.InjOn f {a | a ∈ l}) :
    ∃ π : Equiv.Perm β, (∀ a ∈ l, π a = f a) ∧ ∀ a, ¬ P a → π a = a := by
  classical
  let left (a : {a // a ∈ l}) : Subtype P := ⟨a, hl a a.2⟩
  let right (a : {a // a ∈ l}) : Subtype P := ⟨f a, hf a a.2⟩
  have hleft : Function.Injective left := fun a b hab =>
    Subtype.ext (Subtype.mk.inj hab)
  have hright : Function.Injective right := fun a b hab =>
    Subtype.ext (hinj a.2 b.2 (congrArg Subtype.val hab))
  have : Finite {a // a ∈ l} := l.finite_toSet.to_subtype
  have : Finite {b | b ∈ Set.range left} := (Set.finite_range left).to_subtype
  let e := (Equiv.ofInjective left hleft).symm.trans (Equiv.ofInjective right hright)
  refine ⟨Equiv.Perm.ofSubtype e.extendSubtype, fun a ha => ?_, fun a ha => ?_⟩
  · rw [Equiv.Perm.ofSubtype_apply_of_mem _ (hl a ha),
      e.extendSubtype_apply_of_mem ⟨a, hl a ha⟩ ⟨⟨a, ha⟩, rfl⟩]
    have hback : (Equiv.ofInjective left hleft).symm ⟨left ⟨a, ha⟩, ⟨⟨a, ha⟩, rfl⟩⟩ = ⟨a, ha⟩ :=
      Equiv.ofInjective_symm_apply hleft _
    exact congrArg (fun i => (right i).1) hback
  · exact Equiv.Perm.ofSubtype_apply_of_not_mem _ ha

/-- dummy nodes get other keys, and all other nodes keep their names -/
def NodeId.rekey (key : Int → Int) : NodeId → NodeId
  | .dummy k i => .dummy (key k) i
  | a => a

theorem NodeId.rekey_injective {key : Int → Int} (h : Function.Injective key) :
    Function.Injective (rekey key) := by
  intro a b hab
  cases a <;> cases b <;> simp_all [rekey, h.eq_iff]

theorem NodeId.rekey_eq_self {key : Int → Int} {a : NodeId} (h : ∀ k i, a ≠ .dummy k i) :
    a.rekey key = a := by
  cases a with
  | dummy k i => exact absurd rfl (h k i)
  | _ => rfl

/-- names for nodes that are no dummy nodes, and keys for edges, extend to a renaming -/
theorem exists_renaming {ids : List NodeId} {keys : List Int} {f : NodeId → NodeId} {h : Int → Int}
    (hids : ∀ a ∈ ids, ∀ k i, a ≠ .dummy k i) (hf : ∀ a ∈ ids, ∀ k i, f a ≠ .dummy k i)
    (hnode : Set.InjOn f {a | a ∈ ids}) (hkey : Set.InjOn h {k | k ∈ keys}) :
    ∃ r : Renaming, (∀ a ∈ ids, r.node a = f a) ∧ ∀ k ∈ keys, r.key k = h k := by
  obtain ⟨κ, hκ, _⟩ := exists_perm_of_injOn (P := fun _ => True) (fun _ _ => trivial)
    (fun _ _ => trivial) hkey
  obtain ⟨π, hπ, hfixed⟩ := exists_perm_of_injOn hids hf hnode
  refine ⟨⟨fun a => π (a.rekey κ), κ, π.injective.comp (NodeId.rekey_injective κ.injective),
    fun k i => ?_⟩, fun a ha => ?_, hκ⟩
  · exact hfixed _ fun hname => hname (κ k) i rfl
  · show π (a.rekey κ) = f a
    rw [NodeId.rekey_eq_self (hids a ha), hπ a ha]

/-! ## graphs -/

section
variable {α : Type}

/-- the second graph has the nodes of the first one in order, dummy or not, the edges from each node in
order, and those to each node in order by source, with nodes and keys under the given names; no two
nodes have got the same name, and no two edges the same key -/
structure Isomorphic (f : NodeId → NodeId) (h : Int → Int) (g g' : Graph α) : Prop where
  nodes : g'.nodes.entries.map (fun p => (p.1, p.2.isDummy))
    = g.nodes.entries.map fun p => (f p.1, p.2.isDummy)
  outEdges : ∀ a ∈ g.nodeIds, (g'.outEdges (f a)).map (fun e => (e.key, e.target))
    = (g.outEdges a).map fun e => (h e.key, f e.target)
  predecessors : ∀ a ∈ g.nodeIds, g'.predecessors (f a) = (g.predecessors a).map f
  node_injOn : Set.InjOn f {a | a ∈ g.nodeIds}
  key_injOn : Set.InjOn h {k | k ∈ g.edges.map Edge.key}

/-- the second graph has the renamed nodes in order, dummy or not, and the edges at each node in order -/
structure RenamedGraph (r : Renaming) (g g' : Graph α) : Prop where
  nodeIds : g'.nodeIds = g.nodeIds.map r.node
  isDummy : ∀ a, (g'.nodes.get? (r.node a)).map Node.isDummy = (g.nodes.get? a).map Node.isDummy
  fans : FansAlike r g.arcs g'.arcs
  predecessors : ∀ a, g'.predecessors (r.node a) = (g.predecessors a).map r.node

theorem Graph.outEdges_of_not_mem {g : Graph α} (hg : g.Coherent) {a : NodeId} (ha : a ∉ g.nodeIds) :
    g.outEdges a = [] :=
  List.filter_eq_nil_iff.2 fun e he hs => ha (of_decide_eq_true hs ▸ hg.source_mem e he)

theorem Graph.inEdges_of_not_mem {g : Graph α} (hg : g.Coherent) {a : NodeId} (ha : a ∉ g.nodeIds) :
    g.inEdges a = [] :=
  List.filter_eq_nil_iff.2 fun e he ht => ha (of_decide_eq_true ht ▸ hg.target_mem e he)

section
variable {f : NodeId → NodeId} {h : Int → Int} {g g' : Graph α} (hiso : Isomorphic f h g g')
include hiso

theorem Isomorphic.nodeIds : g'.nodeIds = g.nodeIds.map f := by
  have hids := congrArg (List.map Prod.fst) hiso.nodes
  rw [List.map_map, List.map_map] at hids
  rw [Graph.nodeIds, Graph.nodeIds, OrderedMap.keys, OrderedMap.keys, List.map_map]
  exact hids

variable {r : Renaming} (hnode : ∀ a ∈ g.nodeIds, r.node a = f a)
include hnode

theorem Isomorphic.nodeIds_rename : g'.nodeIds = g.nodeIds.map r.node :=
  hiso.nodeIds.trans (List.map_congr_left fun a ha => (hnode a ha).symm)

theorem Isomorphic.isDummy_rename (a : NodeId) :
    (g'.nodes.get? (r.node a)).map Node.isDummy = (g.nodes.get? a).map Node.isDummy := by
  have himage : (g'.nodes.mapValues fun _ n => n.isDummy)
      = r.table (g.nodes.mapValues fun _ n => n.isDummy) := by
    refine OrderedMap.ext (hiso.nodes.trans ?_)
    simp only [OrderedMap.image, OrderedMap.mapValues, List.map_map]
    exact List.map_congr_left fun p hp => Prod.ext (hnode p.1 (List.mem_map_of_mem hp)).symm rfl
  have hget := congrArg (fun m => OrderedMap.get? m (r.node a)) himage
  rwa [Renaming.get?_table, OrderedMap.get?_mapValues, OrderedMap.get?_mapValues] at hget

/-- a node that the graph does not have goes under no name that the other graph knows -/
theorem Isomorphic.not_mem_rename {a : NodeId} (ha : a ∉ g.nodeIds) : r.node a ∉ g'.nodeIds := by
  rw [hiso.nodeIds_rename hnode, List.mem_map_of_injective r.injective]
  exact ha

variable (hg : g.Coherent) (hg' : g'.Coherent)
include hg hg'

theorem Isomorphic.predecessors_rename (a : NodeId) :
    g'.predecessors (r.node a) = (g.predecessors a).map r.node := by
  by_cases ha : a ∈ g.nodeIds
  · rw [hnode a ha, hiso.predecessors a ha]
    refine List.map_congr_left fun b hb => (hnode b ?_).symm
    obtain ⟨e, he, _, rfl⟩ := Graph.mem_predecessors.1 hb
    exact hg.source_mem e he
  · rw [Graph.predecessors, Graph.predecessors, Graph.inEdges_of_not_mem hg ha,
      Graph.inEdges_of_not_mem hg' (hiso.not_mem_rename hnode ha)]
    rfl

/-- names that agree with the given ones make a renaming of the graph -/
theorem Isomorphic.renamedGraph (hkey : ∀ k ∈ g.edges.map Edge.key, r.key k = h k) :
    RenamedGraph r g g' := by
  refine ⟨hiso.nodeIds_rename hnode, hiso.isDummy_rename hnode, fun a => ?_,
    hiso.predecessors_rename hnode hg hg'⟩
  show List.Forall₂ r.Matches (g.outEdges a) (g'.outEdges (r.node a))
  by_cases ha : a ∈ g.nodeIds
  · have hlist := forall₂_of_map_eq (hiso.outEdges a ha)
    rw [hnode a ha]
    refine List.forall₂_iff_zip.2 ⟨hlist.length_eq, fun {e e'} hzip => ?_⟩
    obtain ⟨he, hs⟩ := List.mem_filter.1 (List.of_mem_zip hzip).1
    have hs' := (List.mem_filter.1 (List.of_mem_zip hzip).2).2
    obtain ⟨hk, ht⟩ := Prod.mk.inj ((List.forall₂_iff_zip.1 hlist).2 hzip)
    refine ⟨hk.trans (hkey _ (List.mem_map_of_mem (hg.mem_edges.2 he))).symm, ?_,
      ht.trans (hnode _ (hg.target_mem e he)).symm⟩
    rw [of_decide_eq_true hs, of_decide_eq_true hs', hnode a ha]
  · rw [Graph.outEdges_of_not_mem hg ha,
      Graph.outEdges_of_not_mem hg' (hiso.not_mem_rename hnode ha)]
    exact .nil

end

theorem Graph.linked_shortArcs (g : Graph α) (table : OrderedMap NodeId Int) (a : NodeId) :
    linked ((g.shortArcs table).map Edge.ends) .outgoing a
        = (g.successors a).filter (fun b => NextLayer table a b) ∧
      linked ((g.shortArcs table).map Edge.ends) .incoming a
        = (g.predecessors a).filter fun b => NextLayer table b a := by
  constructor
  · rw [linked, List.filter_map, List.map_map, shortArcs, successors, outEdges, List.filter_map]
    refine congrArg (List.map Edge.target) ((List.filter_comm ..).trans ?_)
    exact List.filter_congr fun e he => by rw [← of_decide_eq_true (List.mem_filter.1 he).2]; rfl
  · rw [linked, List.filter_map, List.map_map, shortArcs, predecessors, inEdges, List.filter_map]
    refine congrArg (List.map Edge.source) ((List.filter_comm ..).trans ?_)
    exact List.filter_congr fun e he => by rw [← of_decide_eq_true (List.mem_filter.1 he).2]; rfl

section
variable {r : Renaming} {g g' : Graph α} (hr : RenamedGraph r g g')
include hr

theorem RenamedGraph.successors (a : NodeId) :
    g'.successors (r.node a) = (g.successors a).map r.node := by
  rw [Graph.successors, Graph.successors, List.map_map]
  exact map_eq_map_of_forall₂ (hr.fans a) fun _ _ hmatch => hmatch.target

theorem RenamedGraph.matches_edges : List.Forall₂ r.Matches g.edges g'.edges := by
  rw [Graph.edges, Graph.edges, hr.nodeIds, List.flatMap_map]
  refine List.rel_flatMap (R := Eq) (List.forall₂_refl g.nodeIds) fun a b hab => ?_
  rw [hab]
  exact hr.fans b

theorem RenamedGraph.someCycle : List.Forall₂ r.Matches g.someCycle g'.someCycle :=
  Graph.someCycle_rename hr.fans hr.nodeIds

theorem RenamedGraph.someCycle_ends : g'.someCycle.map Edge.ends
    = (g.someCycle.map Edge.ends).map (Prod.map r.node r.node) := by
  rw [List.map_map]
  exact map_eq_map_of_forall₂ hr.someCycle fun e e' hmatch => Prod.ext hmatch.source hmatch.target

end

theorem RenamedGraph.renamed {r : Renaming} {w w' : Workspace α}
    (hr : RenamedGraph r w.graph w'.graph) (table : OrderedMap NodeId Int) : Renamed r table w w' where
  nodeIds := hr.nodeIds
  isDummy := hr.isDummy
  short side a := by
    cases side with
    | incoming =>
      rw [(Graph.linked_shortArcs ..).2, (Graph.linked_shortArcs ..).2, hr.predecessors, List.filter_map]
      refine congrArg (List.map r.node) (List.filter_congr fun b _ => ?_)
      exact decide_eq_decide.2 Renaming.nextLayer_iff
    | outgoing =>
      rw [(Graph.linked_shortArcs ..).1, (Graph.linked_shortArcs ..).1, hr.successors, List.filter_map]
      refine congrArg (List.map r.node) (List.filter_congr fun b _ => ?_)
      exact decide_eq_decide.2 Renaming.nextLayer_iff
  long := by
    refine List.rel_filter (fun e e' hmatch => ?_) hr.matches_edges
    simp only [hmatch.source, hmatch.target, Renaming.nextLayer_iff]

end

end LayeredDrawing
