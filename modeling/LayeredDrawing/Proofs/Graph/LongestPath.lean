import LayeredDrawing.Proofs.Arrangement.Filed
import LayeredDrawing.Proofs.Arrangement.Precedence
import Mathlib.Order.Bounds.Basic

/-!
# Longest paths

The layer that a node of an acyclic graph is given is the length of the longest path that ends there,
and there is no lower way to give layers that grow along every edge.

* `IsPath`, `pathLengthsTo`, `pathLengths`   the paths of a graph and how long they are;
* `le_of_mem_pathLengthsTo`                  numbers that grow along the edges bound the paths;
* `Longest.mem_pathLengthsTo`                a path as long as the layer of its end is high;
* `longestPaths_of_layering`                 the table of layers;
* `listedByRank_arrange`                     the lists made from it.
-/

namespace LayeredDrawing

/-- nodes come after those that their edges come from -/
theorem precedes_of_inOrder {arcs : List Edge} {done order : List NodeId} (h : InOrder arcs done order)
    {e : Edge} (he : e ∈ arcs) (ht : e.target ∈ order) :
    e.source ∈ done ∨ Precedes order e.source e.target := by
  induction order generalizing done with
  | nil => cases ht
  | cons id order ih =>
    obtain ⟨_, hready, hrest⟩ := h
    by_cases hid : e.target = id
    · exact .inl (hready e he hid)
    · have htail : e.target ∈ order := (List.mem_cons.1 ht).resolve_left hid
      rcases ih hrest htail with hs | hs
      · rcases List.mem_cons.1 hs with hs | hs
        · rw [hs]
          exact .inr (List.Sublist.cons_cons id (List.singleton_sublist.2 htail))
        · exact .inl hs
      · exact .inr (List.Sublist.cons id hs)

namespace Graph

variable {α : Type} {g : Graph α} {path : List Edge} {e : Edge} {id : NodeId} {n : Nat}

/-- edges of which each leads to the source of the next -/
structure IsPath (g : Graph α) (path : List Edge) : Prop where
  mem : ∀ e ∈ path, e ∈ g.arcs
  chain : path.IsChain fun d e => d.target = e.source

/-- the numbers of edges of the paths that end at a node; the path without edges ends anywhere -/
def pathLengthsTo (g : Graph α) (id : NodeId) : Set Nat :=
  {n | ∃ path, g.IsPath path ∧ (∀ e ∈ path.getLast?, e.target = id) ∧ path.length = n}

def pathLengths (g : Graph α) : Set Nat := {n | ∃ path, g.IsPath path ∧ path.length = n}

theorem isPath_nil (g : Graph α) : g.IsPath [] := ⟨fun _ he => absurd he List.not_mem_nil, List.isChain_nil⟩

theorem isPath_concat : g.IsPath (path ++ [e]) ↔
    g.IsPath path ∧ e ∈ g.arcs ∧ ∀ d ∈ path.getLast?, d.target = e.source := by
  constructor
  · intro h
    obtain ⟨hpath, _, hlast⟩ := List.isChain_append.1 h.chain
    exact ⟨⟨fun d hd => h.mem d (List.mem_append_left _ hd), hpath⟩,
      h.mem e (List.mem_append_right _ List.mem_cons_self), fun d hd => hlast d hd e rfl⟩
  · rintro ⟨h, he, hlast⟩
    refine ⟨fun d hd => ?_, List.isChain_append.2 ⟨h.chain, List.isChain_singleton e, ?_⟩⟩
    · rcases List.mem_append.1 hd with hd | hd
      · exact h.mem d hd
      · rw [List.mem_singleton.1 hd]
        exact he
    · intro d hd a ha
      rw [← Option.some.inj ha]
      exact hlast d hd

theorem zero_mem_pathLengthsTo (g : Graph α) (id : NodeId) : 0 ∈ g.pathLengthsTo id := by
  refine ⟨[], g.isPath_nil, fun e he => ?_, rfl⟩
  cases he

/-- a path goes on along an edge -/
theorem succ_mem_pathLengthsTo (he : e ∈ g.arcs) (h : n ∈ g.pathLengthsTo e.source) :
    n + 1 ∈ g.pathLengthsTo e.target := by
  obtain ⟨path, hpath, hlast, rfl⟩ := h
  refine ⟨path ++ [e], isPath_concat.2 ⟨hpath, he, hlast⟩, fun d hd => ?_, List.length_append⟩
  rw [List.getLast?_concat] at hd
  rw [← Option.some.inj hd]

/-- numbers that grow along every edge are at least as large as the paths are long -/
theorem le_of_mem_pathLengthsTo {f : NodeId → Nat} (hf : ∀ e ∈ g.arcs, f e.source < f e.target)
    (h : n ∈ g.pathLengthsTo id) : n ≤ f id := by
  obtain ⟨path, hpath, hlast, rfl⟩ := h
  induction path using List.reverseRecOn generalizing id with
  | nil => exact Nat.zero_le _
  | append_singleton path e ih =>
    obtain ⟨hpath, he, hsource⟩ := isPath_concat.1 hpath
    obtain rfl : e.target = id := hlast e List.getLast?_concat
    have hle := ih hpath hsource
    have hlt := hf e he
    rw [List.length_append, List.length_singleton]
    omega

/-- a path without edges, or one that ends at the target of an edge -/
theorem eq_zero_or_of_mem_pathLengths (h : n ∈ g.pathLengths) :
    n = 0 ∨ ∃ e ∈ g.arcs, n ∈ g.pathLengthsTo e.target := by
  obtain ⟨path, hpath, rfl⟩ := h
  induction path using List.reverseRecOn with
  | nil => exact .inl rfl
  | append_singleton path e _ =>
    refine .inr ⟨e, (isPath_concat.1 hpath).2.1, path ++ [e], hpath, fun d hd => ?_, rfl⟩
    rw [List.getLast?_concat] at hd
    rw [← Option.some.inj hd]

theorem pathLengthsTo_subset (g : Graph α) (id : NodeId) : g.pathLengthsTo id ⊆ g.pathLengths :=
  fun _ ⟨path, hpath, _, hlength⟩ => ⟨path, hpath, hlength⟩

end Graph

/-! ## the layers -/

section
variable {α : Type} {g : Graph α} {layers : OrderedMap NodeId Int} {id : NodeId}

theorem Longest.mem_pathLengthsTo (h : Longest g.arcs layers) {n : Nat}
    (hid : layers.get? id = some (n : Int)) : n ∈ g.pathLengthsTo id := by
  induction n generalizing id with
  | zero => exact Graph.zero_mem_pathLengthsTo g id
  | succ n ih =>
    rcases h.attained id _ hid with hzero | ⟨e, he, rfl, hsource⟩
    · omega
    · refine Graph.succ_mem_pathLengthsTo he (ih ?_)
      rw [hsource]
      congr 1
      omega

end

/-- every node once and after its predecessors, with the length of the longest path to it; no other
numbers that grow along every edge are lower anywhere -/
structure LongestPaths {α : Type} (g : Graph α) (layers : OrderedMap NodeId Int) (rank : NodeId → Nat) :
    Prop where
  perm_keys : layers.keys.Perm g.nodeIds
  precedes : ∀ e ∈ g.arcs, Precedes layers.keys e.source e.target
  get? : ∀ id ∈ g.nodeIds, layers.get? id = some (rank id : Int)
  longest : ∀ id ∈ g.nodeIds, IsGreatest (g.pathLengthsTo id) (rank id)
  eq_zero : ∀ id ∈ g.nodeIds, g.inEdges id = [] → rank id = 0
  least : IsLeast {f : NodeId → Nat | ∀ e ∈ g.arcs, f e.source < f e.target} rank

/-- one list for each number up to the length of the longest path, with the nodes of that number in
node order -/
structure ListedByRank {α : Type} (g : Graph α) (rank : NodeId → Nat) (lists : Arrangement) : Prop where
  eq_nil : g.nodeIds = [] → lists = []
  length : g.nodeIds ≠ [] → ∃ n, IsGreatest g.pathLengths n ∧ lists.length = n + 1
  ne_nil : ∀ l ∈ lists, l ≠ []
  getElem? : ∀ (i : Nat) (l : List NodeId), lists[i]? = some l →
    l = g.nodeIds.filter fun id => decide (rank id = i)

section
variable {α : Type} {g : Graph α} {layers : OrderedMap NodeId Int} {rank : NodeId → Nat}

theorem longestPaths_of_layering (hg : g.Joined) (hacyclic : g.Acyclic) (h : g.layering = .ok layers) :
    LongestPaths g layers (rankOf layers) := by
  obtain ⟨hkeys, hlongest⟩ := Graph.layering_ok h
  have hmem (id : NodeId) : id ∈ layers.keys ↔ id ∈ g.nodeIds := Graph.mem_layers_iff hg hacyclic h id
  have hget {id : NodeId} (hid : id ∈ g.nodeIds) : layers.get? id = some (rankOf layers id : Int) :=
    hlongest.get?_eq_rankOf ((hmem id).2 hid)
  have hgrow : ∀ e ∈ g.arcs, rankOf layers e.source < rankOf layers e.target := fun e he =>
    hlongest.rankOf_lt he ((hmem _).2 (hg e he).1) ((hmem _).2 (hg e he).2)
  refine ⟨?_, fun e he => ?_, fun id hid => hget hid, fun id hid => ⟨?_, fun n hn => ?_⟩,
    fun id hid hnone => ?_, hgrow, fun f hf id => ?_⟩
  · exact (List.perm_ext_iff_of_nodup layers.nodup_keys g.nodup_nodeIds).2 hmem
  · have ht : e.target ∈ g.topologicalOrder := hkeys ▸ (hmem _).2 (hg e he).2
    rw [hkeys]
    exact (precedes_of_inOrder g.inOrder_topologicalOrder he ht).resolve_left List.not_mem_nil
  · exact hlongest.mem_pathLengthsTo (hget hid)
  · exact Graph.le_of_mem_pathLengthsTo hgrow hn
  · rcases hlongest.attained id _ (hget hid) with hzero | ⟨e, he, ht, _⟩
    · omega
    · have hin : e ∈ g.inEdges id := List.mem_filter.2 ⟨he, decide_eq_true ht⟩
      rw [hnone] at hin
      cases hin
  · by_cases hid : id ∈ layers.keys
    · exact Graph.le_of_mem_pathLengthsTo hf
        (hlongest.mem_pathLengthsTo (hlongest.get?_eq_rankOf hid))
    · rw [rankOf, OrderedMap.get?_eq_none_iff.2 hid]
      exact Nat.zero_le _

theorem listedByRank_arrange (hg : g.Joined) (hlongest : Longest g.arcs layers)
    (h : LongestPaths g layers rank) : ListedByRank g rank (arrange g.nodeIds layers) := by
  have hlt {i : Nat} (hi : i < (arrange g.nodeIds layers).length) :
      ∃ id ∈ g.nodeIds, rank id = i := by
    obtain ⟨id, hid⟩ := occupied_arrange hlongest hi
    have hnode := h.perm_keys.mem_iff.1 (OrderedMap.mem_keys_of_get? hid)
    have heq := (h.get? id hnode).symm.trans hid
    exact ⟨id, hnode, Int.ofNat_inj.1 (Option.some.inj heq)⟩
  have hlist {i : Nat} {l : List NodeId} (hl : (arrange g.nodeIds layers)[i]? = some l) :
      l = g.nodeIds.filter fun id => decide (rank id = i) := by
    rw [getElem?_arrange hl]
    refine List.filter_congr fun id hid => ?_
    rw [h.get? id hid, decide_eq_decide, Option.some.injEq, Int.ofNat_inj]
  refine ⟨fun hnil => ?_, fun hne => ?_, fun l hl hnil => ?_, fun i l hl => hlist hl⟩
  · refine List.eq_nil_iff_length_eq_zero.2 (Nat.eq_zero_of_not_pos fun hpos => ?_)
    obtain ⟨id, hid, _⟩ := hlt hpos
    rw [hnil] at hid
    cases hid
  · have hle {id : NodeId} (hid : id ∈ g.nodeIds) : rank id < (arrange g.nodeIds layers).length :=
      lt_length_arrange (h.get? id hid)
    obtain ⟨first, hfirst⟩ := List.exists_mem_of_ne_nil _ hne
    have hpos := hle hfirst
    obtain ⟨top, htop, hrank⟩ := hlt (Nat.sub_lt (Nat.zero_lt_of_lt hpos) Nat.one_pos)
    refine ⟨rank top, ⟨g.pathLengthsTo_subset top (h.longest top htop).1, fun n hn => ?_⟩, by omega⟩
    rcases Graph.eq_zero_or_of_mem_pathLengths hn with rfl | ⟨e, he, hn⟩
    · exact Nat.zero_le _
    · have hn := (h.longest e.target (hg e he).2).2 hn
      have hlast := hle (hg e he).2
      omega
  · obtain ⟨i, hi⟩ := List.mem_iff_getElem?.1 hl
    obtain ⟨id, hid, hrank⟩ := hlt (List.getElem?_eq_some_iff.1 hi).1
    have hmem : id ∈ l := by
      rw [hlist hi]
      exact List.mem_filter.2 ⟨hid, decide_eq_true hrank⟩
    rw [hnil] at hmem
    cases hmem

end

end LayeredDrawing
