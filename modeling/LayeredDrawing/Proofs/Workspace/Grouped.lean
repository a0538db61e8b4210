import LayeredDrawing.Proofs.Workspace.Built

/-!
# Parallel edges stand together

`Grouped arcs` says that between two parallel edges of the list there are only edges parallel to
them.  Attaching puts an edge behind those that are parallel to it, so this holds of every graph built
by public operations, and of its edges by source.

* `Grouped.insertArc`     attaching keeps the groups;
* `Built.grouped`, `Graph.grouped_edges`   the edges of a graph.
-/

namespace LayeredDrawing

def Grouped : List Edge → Prop
  | [] => True
  | a :: l => (l.Pairwise fun b c => a.parallel c = true → a.parallel b = true) ∧ Grouped l

/-! ## parts of a list -/

theorem Grouped.sublist {l m : List Edge} (h : Grouped m) (hl : l.Sublist m) : Grouped l := by
  induction hl with
  | slnil => trivial
  | cons a _ ih => exact ih h.2
  | cons_cons a hl ih => exact ⟨h.1.sublist hl, ih h.2⟩

theorem Grouped.append {l m : List Edge} (hl : Grouped l) (hm : Grouped m)
    (hapart : ∀ a ∈ l, ∀ b ∈ m, ¬ a.parallel b = true) : Grouped (l ++ m) := by
  induction l with
  | nil => exact hm
  | cons a l ih =>
    have hnone {c : Edge} (hc : c ∈ m) : ¬ a.parallel c = true := hapart a List.mem_cons_self c hc
    refine ⟨List.pairwise_append.2 ⟨hl.1, ?_, fun b _ c hc hac => absurd hac (hnone hc)⟩,
      ih hl.2 fun b hb => hapart b (List.mem_cons_of_mem _ hb)⟩
    exact List.pairwise_of_forall_mem_list fun b _ c hc hac => absurd hac (hnone hc)

theorem Grouped.map {l : List Edge} (h : Grouped l) {f : Edge → Edge}
    (hf : ∀ a : Edge, a.parallel (f a) = true) : Grouped (l.map f) := by
  have himage {a b : Edge} : (f a).parallel (f b) = true ↔ a.parallel b = true :=
    ⟨fun hab => Edge.parallel_trans (Edge.parallel_trans (hf a) hab) (Edge.parallel_symm (hf b)),
      fun hab => Edge.parallel_trans (Edge.parallel_trans (Edge.parallel_symm (hf a)) hab) (hf b)⟩
  induction l with
  | nil => trivial
  | cons a l ih =>
    refine ⟨List.pairwise_map.2 (h.1.imp fun {b c} hbc => ?_), ih h.2⟩
    rw [himage, himage]
    exact hbc

/-- the last of the edges before `e` is parallel to it if any of them is -/
theorem Grouped.parallel_last {l : List Edge} {d e : Edge} (h : Grouped (l ++ [e])) (hd : d ∈ l)
    (hde : d.parallel e = true) : ∃ x, l.getLast? = some x ∧ x.parallel e = true := by
  induction l with
  | nil => cases hd
  | cons a l ih =>
    cases hlast : l.getLast? with
    | none =>
      obtain rfl := List.getLast?_eq_none_iff.1 hlast
      exact ⟨d, by rw [List.mem_singleton.1 hd]; rfl, hde⟩
    | some x =>
      have hx : (a :: l).getLast? = some x := by rw [List.getLast?_cons, hlast]; rfl
      rcases List.mem_cons.1 hd with rfl | hd
      · have hpair := (List.pairwise_append.1 h.1).2.2 x (List.mem_of_getLast? hlast) e
          (List.mem_singleton_self e)
        exact ⟨x, hx, Edge.parallel_trans (Edge.parallel_symm (hpair hde)) hde⟩
      · obtain ⟨y, hy, hye⟩ := ih h.2 hd
        obtain rfl := Option.some.inj (hlast.symm.trans hy)
        exact ⟨x, hx, hye⟩

/-! ## attaching -/

namespace Graph

/-- an edge goes behind the last one parallel to it, or to the end if there is none -/
theorem insertArc_split (e : Edge) (l : List Edge) :
    insertArc e l = l ++ [e] ∧ (∀ a ∈ l, ¬ a.parallel e = true) ∨
      ∃ before x after, l = before ++ x :: after ∧ insertArc e l = before ++ x :: e :: after ∧
        x.parallel e = true ∧ ∀ a ∈ after, ¬ e.parallel a = true := by
  induction l with
  | nil => exact .inl ⟨rfl, fun a ha => by cases ha⟩
  | cons a l ih =>
    unfold insertArc
    split
    · rename_i hcond
      simp only [Bool.and_eq_true, Bool.not_eq_true', List.any_eq_false] at hcond
      exact .inr ⟨[], a, l, rfl, rfl, hcond⟩
    · rename_i hcond
      rcases ih with ⟨heq, hnone⟩ | ⟨before, x, after, rfl, heq, hx⟩
      · refine .inl ⟨by rw [heq]; rfl, fun b hb => ?_⟩
        rcases List.mem_cons.1 hb with rfl | hb
        · intro hbe
          refine hcond ?_
          simp only [Bool.and_eq_true, Bool.not_eq_true', List.any_eq_false]
          exact ⟨hbe, fun d hd hed => hnone d hd (Edge.parallel_symm hed)⟩
        · exact hnone b hb
      · exact .inr ⟨a :: before, x, after, rfl, by rw [heq]; rfl, hx⟩

end Graph

theorem Grouped.insert {before after : List Edge} {x e : Edge} (h : Grouped (before ++ x :: after))
    (hx : x.parallel e = true) (hnone : ∀ a ∈ after, ¬ e.parallel a = true) :
    Grouped (before ++ x :: e :: after) := by
  induction before with
  | nil =>
    refine ⟨List.pairwise_cons.2 ⟨fun _ _ _ => hx, h.1⟩, ?_, h.2⟩
    exact List.pairwise_of_forall_mem_list fun b _ c hc hec => absurd hec (hnone c hc)
  | cons a before ih =>
    have hpairs := List.pairwise_append.1 h.1
    obtain ⟨hxafter, hafter⟩ := List.pairwise_cons.1 hpairs.2.1
    have hback (hae : a.parallel e = true) : a.parallel x = true :=
      Edge.parallel_trans hae (Edge.parallel_symm hx)
    refine ⟨List.pairwise_append.2 ⟨hpairs.1, ?_, fun b hb c hc hac => ?_⟩, ih h.2⟩
    · refine List.pairwise_cons.2 ⟨fun c hc hac => ?_, List.pairwise_cons.2 ⟨fun c hc hac => ?_, hafter⟩⟩
      · rcases List.mem_cons.1 hc with rfl | hc
        · exact hback hac
        · exact hxafter c hc hac
      · exact Edge.parallel_trans (hxafter c hc hac) hx
    · rcases List.mem_cons.1 hc with rfl | hc
      · exact hpairs.2.2 b hb c List.mem_cons_self hac
      · rcases List.mem_cons.1 hc with rfl | hc
        · exact hpairs.2.2 b hb x List.mem_cons_self (hback hac)
        · exact hpairs.2.2 b hb c (List.mem_cons_of_mem _ hc) hac

theorem Grouped.insertArc {l : List Edge} (h : Grouped l) (e : Edge) :
    Grouped (Graph.insertArc e l) := by
  rcases Graph.insertArc_split e l with ⟨heq, hnone⟩ | ⟨before, x, after, rfl, heq, hx, hafter⟩
  · rw [heq]
    refine h.append ⟨List.Pairwise.nil, trivial⟩ fun a ha b hb => ?_
    rw [List.mem_singleton.1 hb]
    exact hnone a ha
  · rw [heq]
    exact h.insert hx hafter

theorem Grouped.placeArc {l : List Edge} (h : Grouped l) (e : Edge) :
    Grouped (Graph.placeArc e l) := by
  unfold Graph.placeArc
  split
  · refine h.map fun a => ?_
    split
    · rename_i hae
      exact Edge.parallel_iff.2 (Edge.sameArc_iff.1 hae).1
    · exact Edge.parallel_iff.2 ⟨rfl, rfl⟩
  · exact h.insertArc e

/-! ## the edges of a graph -/

namespace Graph

variable {α : Type}

theorem lasting_grouped : Lasting fun g : Graph α => Grouped g.arcs where
  empty := trivial
  addNode h hok := by
    obtain ⟨_, rfl⟩ := addNode_ok hok
    exact h
  removeNode h hok := by
    obtain ⟨_, rfl⟩ := removeNode_ok hok
    exact h.sublist List.filter_sublist
  modifyNode h hok := by
    obtain rfl := modifyNode_ok hok
    exact h
  addEdge h hok := by
    obtain ⟨_, _, rfl, rfl⟩ := addEdge_ok hok
    exact h.placeArc _
  detach h hok := by
    rw [eq_of_detach hok]
    exact h.sublist List.filter_sublist
  reattach h hok := by
    obtain ⟨_, _, _, rfl⟩ := reattach_ok hok
    exact h.placeArc _
  mapSlots h f := h.map fun _ => Edge.parallel_iff.2 ⟨rfl, rfl⟩

/-- edges listed by source are grouped as in the list of arcs -/
theorem grouped_edges {g : Graph α} (h : Grouped g.arcs) : Grouped g.edges := by
  have hids (ids : List NodeId) (hnodup : ids.Nodup) : Grouped (ids.flatMap g.outEdges) := by
    induction ids with
    | nil => trivial
    | cons id ids ih =>
      obtain ⟨hid, hnodup⟩ := List.nodup_cons.1 hnodup
      rw [List.flatMap_cons]
      refine Grouped.append (h.sublist List.filter_sublist) (ih hnodup) fun a ha b hb hab => ?_
      obtain ⟨j, hj, hb⟩ := List.mem_flatMap.1 hb
      have ha' : a.source = id := by simpa using (List.mem_filter.1 ha).2
      have hb' : b.source = j := by simpa using (List.mem_filter.1 hb).2
      exact hid (by rwa [← ha', (Edge.parallel_iff.1 hab).1, hb'])
  exact hids g.nodeIds g.nodup_nodeIds

end Graph

theorem Built.grouped {α : Type} [Metric α] {w : Workspace α} (h : Built w) :
    Grouped w.graph.arcs := h.of_lasting Graph.lasting_grouped

end LayeredDrawing
