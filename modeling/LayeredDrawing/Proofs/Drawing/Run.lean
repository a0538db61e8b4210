import LayeredDrawing.Drawing
import LayeredDrawing.Proofs.Phase.Placement
import LayeredDrawing.Proofs.Phase.Reconstruction

/-!
# Whole runs

The phases, one after the other.  `Prepared` is what the first four hand to the last one, and
`Obstructed` lists all that can stop them.

* `leads_prepare`   the first four phases;
* `draw_ok`         a drawing that is not refused is a preparation and a reconstruction.
-/

namespace LayeredDrawing

/-- the phases before the last one -/
def Phase.preparation : List Phase := [layering, expansion, ordering, placement]

section
variable {α : Type} [Metric α]

theorem runPhases_cons (c : Config α) (phase : Phase) (rest : List Phase) (s : Snapshot) :
    runPhases c (phase :: rest) s = phase.apply c s >>= runPhases c rest :=
  Action.foldlM_cons ..

theorem draw_eq (c : Config α) :
    draw c = runPhases c Phase.preparation .initial >>= Action.restoreEdges c := by
  show runPhases c (Phase.preparation ++ [Phase.reconstruction]) .initial = _
  rw [runPhases, List.foldlM_append]
  congr 1
  funext s
  rw [List.foldlM_cons]
  exact bind_pure _

theorem draw_ok {c : Config α} {w v : Workspace α} {s : Snapshot}
    (h : (draw c).perform w = (.ok s, v)) :
    ∃ t u, (runPhases c Phase.preparation .initial).perform w = (.ok t, u) ∧
      (Action.restoreEdges c t).perform u = (.ok s, v) := by
  rw [draw_eq] at h
  rcases hp : (runPhases c Phase.preparation .initial).perform w with ⟨t | t, u⟩
  · rw [Action.perform_bind_error hp] at h
    cases h
  · rw [Action.perform_bind_ok hp] at h
    exact ⟨t, u, rfl, h⟩

end

section
variable {α : Type} [Scalar α]

/-- the drawing is complete but for the chains -/
structure Prepared (c : Config α) (w : Workspace α) (table : OrderedMap NodeId Int) (t : Snapshot)
    (u : Workspace α) : Prop extends Expanded c w table t u where
  stage : t.stage = .positioned
  layering : w.graph.layering = .ok table
  mem_table_iff : ∀ id, id ∈ table.keys ↔ id ∈ w.graph.nodeIds
  heights : ∃ g hs, g.Coherent ∧ Partition g t.arrangement ∧ heights g c t.arrangement = .ok hs ∧
    ∀ id n, u.graph.nodes.get? id = some n → hs.get? id = some n.y

section
variable {c : Config α} {w u : Workspace α} {table : OrderedMap NodeId Int} {t : Snapshot} {e : Edge}
  {a b : Int}

theorem Prepared.ends (h : Prepared c w table t u) (hw : w.graph.Coherent) (he : e ∈ w.graph.arcs) :
    ∃ a b, table.get? e.source = some a ∧ table.get? e.target = some b ∧ a < b := by
  obtain ⟨a, ha⟩ := OrderedMap.exists_get?_of_mem ((h.mem_table_iff _).2 (hw.source_mem e he))
  obtain ⟨b, hb⟩ := OrderedMap.exists_get?_of_mem ((h.mem_table_iff _).2 (hw.target_mem e he))
  exact ⟨a, b, ha, hb, (Graph.layering_ok h.layering).2.lt e he a b ha hb⟩

theorem Prepared.acyclic (h : Prepared c w table t u) (hw : w.graph.Coherent) : w.graph.Acyclic :=
  Graph.acyclic_of_ascending hw (Graph.layering_ok h.layering).2.toAscending
    fun id => (h.mem_table_iff id).2

/-- nodes of the graph stay apart from dummy nodes, and stand in their layers -/
theorem Prepared.exists_node (h : Prepared c w table t u) {id : NodeId} {layer : Int}
    (hid : table.get? id = some layer) : id ∉ t.dummyNodes ∧ t.layers.get? id = some layer ∧
      ∃ n, u.graph.nodes.get? id = some n ∧ n.x = layerPosition c layer := by
  obtain ⟨known, hexp⟩ := h.expanding
  have hlayer := hexp.extends _ _ hid
  have hbase : id ∈ w.graph.nodeIds := (h.mem_table_iff id).1 (OrderedMap.mem_keys_of_get? hid)
  obtain ⟨n, hn⟩ :=
    OrderedMap.exists_get?_of_mem ((hexp.mem_keys_iff _).1 (OrderedMap.mem_keys_of_get? hlayer))
  obtain ⟨hlayer', hx⟩ := hexp.placed _ n hn
  have hsame : n.layer = layer := Option.some.inj (hlayer'.symm.trans hlayer)
  exact ⟨fun hd => hexp.replaced.not_mem_base hd hbase, hlayer, n, hn, by rw [hx, hsame]⟩

/-- the dummy node of a long edge in one of the layers between its ends -/
theorem Prepared.exists_dummy (h : Prepared c w table t u) (he : e ∈ w.graph.arcs)
    (ha : table.get? e.source = some a) (hb : table.get? e.target = some b) {i : Nat}
    (hi : a + i + 1 < b) :
    .dummy e.key ((i + 1 : Nat) : Int) ∈ t.dummyNodes ∧
      t.layers.get? (.dummy e.key ((i + 1 : Nat) : Int)) = some (a + i + 1) ∧
      ∃ n, u.graph.nodes.get? (.dummy e.key ((i + 1 : Nat) : Int)) = some n ∧
        n.x = layerPosition c (a + i + 1) := by
  obtain ⟨known, hexp⟩ := h.expanding
  obtain ⟨C, hC, rfl, hnodes⟩ := h.exists_chain he ha hb (by omega)
  have hid : C.nodes[i]? = some (.dummy C.edge.key ((i + 1 : Nat) : Int)) := by
    rw [hnodes]
    exact getElem?_dummies (by omega)
  have hlayer := (h.bridges C hC).layer_node (hexp.extends _ _ ha) hid
  obtain ⟨n, hn⟩ :=
    OrderedMap.exists_get?_of_mem ((hexp.mem_keys_iff _).1 (OrderedMap.mem_keys_of_get? hlayer))
  obtain ⟨hlayer', hx⟩ := hexp.placed _ n hn
  have hsame : n.layer = a + i + 1 := Option.some.inj (hlayer'.symm.trans hlayer)
  refine ⟨?_, hlayer, n, hn, by rw [hx, hsame]⟩
  exact List.mem_flatMap.2 ⟨C, hC, List.mem_of_getElem? hid⟩

end

/-- what can stop a drawing before its last phase -/
def Obstructed (c : Config α) (w : Workspace α) : Prop :=
  ¬ w.graph.Acyclic ∨ (∃ table fault, w.graph.layering = .ok table ∧ Hindered c w table fault) ∨
    ∃ (g : Graph α) (lists : Arrangement), g.Coherent ∧ Partition g lists ∧ ¬ Placeable g c lists

end

section
variable {α : Type} [Metric α] {c : Config α}

open LayeredDrawing.Action

theorem leads_prepare {w : Workspace α} {known : List Edge} (hw : w.Sound known) :
    (runPhases c Phase.preparation .initial).Leads w (fun t u => ∃ table, Prepared c w table t u)
      fun _ _ => Obstructed c w := by
  unfold Phase.preparation
  rw [runPhases_cons]
  refine leads_bind ((leads_putInLayers c hw.coherent.joined).mono (fun s₁ v₁ h₁ => ?_)
    fun _ _ hcyclic => .inl hcyclic)
  rw [runPhases_cons]
  refine leads_bind ((leads_subdivide hw h₁).mono (fun s₂ v₂ h₂ => ?_)
    fun _ _ hhindered => .inr (.inl ⟨_, _, h₁.layering, hhindered⟩))
  obtain ⟨hstage₂, h₂, _⟩ := h₂
  rw [runPhases_cons]
  refine leads_bind ((leads_reorder hstage₂ h₂).mono (fun s₃ v₃ h₃ => ?_) fun _ _ h => h.elim)
  obtain ⟨_, ⟨lists, _, rfl⟩, h₃⟩ := h₃
  have hsound : v₃.graph.Coherent := by
    obtain ⟨_, hexp⟩ := h₃.expanding
    exact hexp.replaced.sound.coherent
  rw [runPhases_cons]
  refine leads_bind ((leads_place rfl h₃).mono (fun s₄ v₄ h₄ => ?_)
    fun _ _ hfault => .inr (.inr ⟨_, _, hsound, h₃.partition, not_placeable hfault⟩))
  obtain ⟨rfl, h₄, hpositioned⟩ := h₄
  obtain ⟨hs, hok, _, hy⟩ := hpositioned.heights
  exact leads_pure ⟨s₁.layers, h₄, rfl, h₁.layering, h₁.mem_keys_iff, v₃.graph, hs, hsound,
    h₃.partition, hok, hy⟩

/-- a drawing, the preparation for it, and the graph in between -/
theorem draw_spec {w v : Workspace α} {known : List Edge} {s : Snapshot} (hw : w.Sound known)
    (h : (draw c).perform w = (.ok s, v)) :
    ∃ table t u, (runPhases c Phase.preparation .initial).perform w = (.ok t, u) ∧
      Prepared c w table t u ∧ s = t.withoutChains ∧ Reconstructed c w u t v := by
  obtain ⟨t, u, hprepare, hrestore⟩ := draw_ok h
  obtain ⟨table, hprepared⟩ := (leads_prepare hw).of_ok hprepare
  obtain ⟨hs, hreconstructed⟩ :=
    (leads_restoreEdges hprepared.stage hprepared.toSubdivided).of_ok hrestore
  exact ⟨table, t, u, hprepare, hprepared, hs, hreconstructed⟩

end

end LayeredDrawing
