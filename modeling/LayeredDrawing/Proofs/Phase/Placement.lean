import LayeredDrawing.Phase.Placement
import LayeredDrawing.Proofs.Phase.Ordering

/-!
# What placement does

Placement writes the heights into the graph, and nothing else changes (`leads_place`).  It is
refused only if no heights can be computed or those computed turn nodes round, which cannot happen
over the rationals (`placeable_rat`).
-/

namespace LayeredDrawing

/-- every listed node gets a height, and the heights are accepted -/
def Placeable {α : Type} [Scalar α] (g : Graph α) (c : Config α) (lists : Arrangement) : Prop :=
  ∃ hs, heights g c lists = .ok hs ∧ requireOrdered hs lists = .ok () ∧
    ∀ id ∈ lists.flatten, id ∈ hs.keys

theorem placeable_rat {g : Graph Rat} {c : Config Rat} {lists : Arrangement} (hg : g.Coherent)
    (hp : Partition g lists) : Placeable g c lists := by
  obtain ⟨hs, hok, hspread⟩ := heights_spec (c := c) hg hp
  refine ⟨hs, hok, requireOrdered_of_spread (not_le.1 c.nodeSpacing_pos) hspread, fun id hid => ?_⟩
  exact hspread.mem_keys hid

/-- the heights computed stand in the graph -/
structure Positioned {α : Type} [Scalar α] (c : Config α) (v : Workspace α) (s : Snapshot)
    (u : Workspace α) : Prop where
  redrawn : Redrawn v u
  heights : ∃ hs, heights v.graph c s.arrangement = .ok hs ∧
    requireOrdered hs s.arrangement = .ok () ∧
      ∀ id n, u.graph.nodes.get? id = some n → hs.get? id = some n.y

/-- the heights, if they are accepted -/
def checkedHeights {α : Type} [Scalar α] (g : Graph α) (c : Config α) (lists : Arrangement) :
    Except Fault (Heights α) := do
  let hs ← heights g c lists
  requireOrdered hs lists
  return hs

section
variable {α : Type} [Scalar α] {g : Graph α} {c : Config α} {lists : Arrangement} {hs : Heights α}

theorem checkedHeights_eq_ok_iff : checkedHeights g c lists = .ok hs ↔
    heights g c lists = .ok hs ∧ requireOrdered hs lists = .ok () := by
  unfold checkedHeights
  constructor
  · intro h
    cases hok : heights g c lists with
    | error fault =>
      rw [hok] at h
      cases h
    | ok ys =>
      cases hordered : requireOrdered ys lists with
      | error fault =>
        rw [hok] at h
        simp only [bind, Except.bind, hordered] at h
        cases h
      | ok _ =>
        rw [hok] at h
        simp only [bind, Except.bind, hordered, pure, Except.pure] at h
        cases h
        exact ⟨rfl, hordered⟩
  · intro h
    rw [h.1]
    simp only [bind, Except.bind, h.2, pure, Except.pure]

theorem not_placeable {fault : Fault} (h : checkedHeights g c lists = .error fault) :
    ¬ Placeable g c lists := by
  intro hx
  obtain ⟨hs, hok, hordered, _⟩ := hx
  rw [checkedHeights_eq_ok_iff.2 ⟨hok, hordered⟩] at h
  cases h

end

namespace Action

variable {α : Type} [Scalar α] {c : Config α}

/-- the nodes of one layer get their heights -/
theorem leads_positionLayer {v u : Workspace α} {layers : OrderedMap NodeId Int} {hs : Heights α}
    {done layer : List NodeId} {i : Nat} (hnodes : ∀ id ∈ layer, id ∈ v.graph.nodeIds)
    (hlayers : ∀ id ∈ layer, layers.get? id = some (i : Int))
    (h : Written (InPlace c layers) (fun id n => hs.get? id = some n.y) v done u) :
    (positionLayer c hs layer i).Leads u
      (fun _ u' => Written (InPlace c layers) (fun id n => hs.get? id = some n.y) v (done ++ layer) u')
      fun _ _ => ∃ id ∈ layer, id ∉ hs.keys := by
  have hstart : Written (InPlace c layers) (fun id n => hs.get? id = some n.y) v (done ++ []) u := by
    rw [List.append_nil]
    exact h
  unfold positionLayer
  refine leads_forM layer
    (fun d _ u => Written (InPlace c layers) (fun id n => hs.get? id = some n.y) v (done ++ d) u) hstart
    fun d id left u' hall hu' => ?_
  have hid : id ∈ layer := by
    rw [← hall]
    exact List.mem_append_right _ List.mem_cons_self
  have hnode : id ∈ u'.graph.nodeIds := by
    rw [hu'.redrawn.nodeIds]
    exact hnodes id hid
  refine leads_bind (leads_check (fun y hy => leads_modifyNode hnode ?_) fun fault hfault => ?_)
  · rw [← List.append_assoc]
    refine hu'.modify (fun _ => rfl) (fun n hn => ⟨hn.1, ?_⟩) fun _ => OrderedMap.entry_eq_ok_iff.1 hy
    -- the list that a node stands in has the number of its layer
    show layerPosition c i = layerPosition c n.layer
    rw [Option.some.inj (hn.1.symm.trans (hlayers id hid))]
  · refine ⟨id, hid, fun hkey => ?_⟩
    obtain ⟨y, hy⟩ := OrderedMap.entry_of_mem hkey
    rw [hy] at hfault
    cases hfault

/-- the fourth phase, after the third -/
theorem leads_place {w v : Workspace α} {table : OrderedMap NodeId Int} {s : Snapshot}
    (hstage : s.stage = .ordered) (h : Expanded c w table s v) :
    (place c s).Leads v
      (fun s' u => s' = { s with stage := .positioned } ∧ Expanded c w table s' u ∧
        Positioned c v s u)
      fun fault _ => checkedHeights v.graph c s.arrangement = .error fault := by
  have hpartition := h.partition
  obtain ⟨known, hexp⟩ := h.expanding
  unfold place
  refine leads_bind (leads_check_ok (Snapshot.requireStage_eq_ok_iff.2 hstage) ?_)
  refine leads_bind (leads_ask (fun hs hheights => ?_) fun fault hfault => ?_)
  · refine leads_bind (leads_check (fun _ hordered => ?_) fun fault hfault => ?_)
    · refine leads_bind (Leads.imp (leads_forM s.arrangement.zipIdx
        (fun done _ u => Written (InPlace c s.layers) (fun id n => hs.get? id = some n.y) v
          (done.map Prod.fst).flatten u)
        ⟨Redrawn.refl v, hexp.placed, fun _ hid => (List.not_mem_nil hid).elim⟩
        fun done p left u hall hwritten => ?_) fun _ u hwritten => leads_pure ?_)
      · have hp : p ∈ s.arrangement.zipIdx := by
          rw [← hall]
          exact List.mem_append_right _ List.mem_cons_self
        have hget : s.arrangement[p.2]? = some p.1 := List.mem_zipIdx_iff_getElem?.1 hp
        have hmem : p.1 ∈ s.arrangement := List.mem_of_getElem? hget
        refine (leads_positionLayer (fun id hid => hpartition.mem_nodeIds hmem hid)
          (fun id hid => hexp.filed.get?_of_mem hget hid) hwritten).mono (fun _ u' hu' => ?_)
          fun _ _ hmissing => ?_
        · rw [List.map_append, List.flatten_append, List.map_singleton, List.flatten_singleton]
          exact hu'
        · obtain ⟨id, hid, hkey⟩ := hmissing
          exact absurd (grants_heights (List.mem_flatten.2 ⟨p.1, hmem, hid⟩) hs hheights) hkey
      · rw [List.zipIdx_map_fst] at hwritten
        refine ⟨rfl, h.redrawn hwritten.redrawn hwritten.all (Reordered.refl _) _,
          hwritten.redrawn, hs, hheights, hordered, fun id n hn => hwritten.done id ?_ n hn⟩
        rw [hpartition.mem_iff, ← hwritten.redrawn.nodeIds]
        exact OrderedMap.mem_keys_of_get? hn
    · rw [checkedHeights, hheights]
      simp only [bind, Except.bind, hfault]
  · rw [checkedHeights, hfault]
    rfl

end Action

end LayeredDrawing
