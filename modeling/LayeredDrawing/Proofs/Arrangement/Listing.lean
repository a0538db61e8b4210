import LayeredDrawing.Proofs.Arrangement.Filed

/-!
# How chains are listed

Expansion lists the nodes of a chain one after the other, each beside the one before it.  Where they
come to stand is settled by the hidden edges, by the names of the dummy nodes and by the layers of the
graph itself: the layers that the table gets on the way, and the dummy edges, do not matter.

* `listChain`     the nodes of one chain;
* `listChains`    the nodes of one chain after the other;
* `map_filter_listChains`   nothing else in the lists changes.
-/

namespace LayeredDrawing

/-- lists the nodes of a chain that comes from `prev`, the first of them in layer number `layer` -/
def listChain (layer : Int) (prev : NodeId) : List NodeId → Arrangement → Except Fault Arrangement
  | [], lists => .ok lists
  | id :: nodes, lists => do listChain (layer + 1) id nodes (← insertBeside lists layer prev id)

/-- lists the nodes of all chains; `table` has the layers of the ends of their edges -/
def listChains (table : OrderedMap NodeId Int) : List Chain → Arrangement → Except Fault Arrangement
  | [], lists => .ok lists
  | C :: chains, lists => do
    let start ← table.entry C.edge.source
    listChains table chains (← listChain (start + 1) C.edge.source C.nodes lists)

/-- the last node of a chain is listed when the others are -/
theorem listChain_concat (layer : Int) (prev id : NodeId) (nodes : List NodeId)
    (lists : Arrangement) : listChain layer prev (nodes ++ [id]) lists = (do
      let lists ← listChain layer prev nodes lists
      insertBeside lists (layer + nodes.length) (nodes.getLastD prev) id) := by
  induction nodes generalizing layer prev lists with
  | nil =>
    simp only [List.nil_append, listChain, List.length_nil, Int.natCast_zero, Int.add_zero,
      List.getLastD_nil]
    exact bind_pure _
  | cons a nodes ih =>
    have hlayer : layer + 1 + (nodes.length : Int) = layer + ((nodes.length + 1 : Nat) : Int) := by
      omega
    simp only [List.cons_append, listChain, ih, bind_assoc, List.getLastD_cons, List.length_cons,
      hlayer]

/-- the last chain is listed when the others are -/
theorem listChains_concat (table : OrderedMap NodeId Int) (chains : List Chain) (C : Chain)
    (lists : Arrangement) : listChains table (chains ++ [C]) lists = (do
      let lists ← listChains table chains lists
      let start ← table.entry C.edge.source
      listChain (start + 1) C.edge.source C.nodes lists) := by
  induction chains generalizing lists with
  | nil =>
    simp only [List.nil_append, listChains]
    exact bind_congr fun start => bind_pure _
  | cons D chains ih => simp only [List.cons_append, listChains, ih, bind_assoc]

/-! ## leaving out what has been listed -/

theorem filter_insertIdx {β : Type} {p : β → Bool} {x : β} (hx : p x = false) (l : List β) (k : Nat) :
    (l.insertIdx k x).filter p = l.filter p := by
  induction l generalizing k with
  | nil =>
    cases k with
    | zero => rw [List.insertIdx_zero, List.filter_cons, if_neg (by rw [hx]; exact Bool.false_ne_true)]
    | succ k => rfl
  | cons y l ih =>
    cases k with
    | zero => rw [List.insertIdx_zero, List.filter_cons, if_neg (by rw [hx]; exact Bool.false_ne_true)]
    | succ k => rw [List.insertIdx_succ_cons, List.filter_cons, List.filter_cons, ih]

theorem set_getD_self {β : Type} (l : List β) (i : Nat) (x : β) : l.set i (l.getD i x) = l := by
  by_cases hi : i < l.length
  · rw [List.getD_eq_getElem _ _ hi]
    exact List.set_getElem_self hi
  · exact List.set_eq_of_length_le (Nat.not_lt.1 hi)

/-- only the new node is put into some list -/
theorem exists_of_insertBeside {lists lists' : Arrangement} {layer : Int} {prev id : NodeId}
    (h : insertBeside lists layer prev id = .ok lists') :
    ∃ i k, lists' = lists.set i ((lists.getD i []).insertIdx k id) := by
  unfold insertBeside at h
  cases hbelow : position lists.length (layer - 1) with
  | error fault => rw [hbelow] at h; cases h
  | ok below =>
    cases hslot : (lists.getD below []).idxOf? prev with
    | none => simp only [hbelow, hslot, bind, Except.bind] at h; cases h
    | some slot =>
      cases hhere : position lists.length layer with
      | error fault => simp only [hbelow, hslot, hhere, bind, Except.bind] at h; cases h
      | ok here =>
        simp only [hbelow, hslot, hhere, bind, Except.bind, pure, Except.pure, Except.ok.injEq] at h
        exact ⟨here, _, h.symm⟩

section
variable {p : NodeId → Bool}

theorem map_filter_insertBeside {lists lists' : Arrangement} {layer : Int} {prev id : NodeId}
    (hid : p id = false) (h : insertBeside lists layer prev id = .ok lists') :
    lists'.map (List.filter p) = lists.map (List.filter p) := by
  obtain ⟨i, k, rfl⟩ := exists_of_insertBeside h
  rw [List.map_set, filter_insertIdx hid, ← List.map_set, set_getD_self]

theorem map_filter_listChain {nodes : List NodeId} (hnodes : ∀ id ∈ nodes, p id = false) {layer : Int}
    {prev : NodeId} {lists lists' : Arrangement} (h : listChain layer prev nodes lists = .ok lists') :
    lists'.map (List.filter p) = lists.map (List.filter p) := by
  induction nodes generalizing layer prev lists with
  | nil =>
    obtain rfl := Except.ok.inj h
    rfl
  | cons id nodes ih =>
    rw [listChain] at h
    cases hins : insertBeside lists layer prev id with
    | error fault => rw [hins] at h; cases h
    | ok next =>
      rw [hins] at h
      rw [ih (fun j hj => hnodes j (List.mem_cons_of_mem id hj)) h,
        map_filter_insertBeside (hnodes id List.mem_cons_self) hins]

/-- without the nodes of the chains, the lists are as they were -/
theorem map_filter_listChains {table : OrderedMap NodeId Int} {chains : List Chain}
    (hnodes : ∀ C ∈ chains, ∀ id ∈ C.nodes, p id = false) {lists lists' : Arrangement}
    (h : listChains table chains lists = .ok lists') :
    lists'.map (List.filter p) = lists.map (List.filter p) := by
  induction chains generalizing lists with
  | nil =>
    obtain rfl := Except.ok.inj h
    rfl
  | cons C chains ih =>
    rw [listChains] at h
    cases hstart : table.entry C.edge.source with
    | error fault => rw [hstart] at h; cases h
    | ok start =>
      rw [hstart] at h
      cases hchain : listChain (start + 1) C.edge.source C.nodes lists with
      | error fault => simp only [hchain, bind, Except.bind] at h; cases h
      | ok next =>
        simp only [hchain, bind, Except.bind] at h
        rw [ih (fun D hD => hnodes D (List.mem_cons_of_mem C hD)) h,
          map_filter_listChain (hnodes C List.mem_cons_self) hchain]

end

end LayeredDrawing
