import LayeredDrawing.Edge
import LayeredDrawing.Proofs.Arrangement.Listing
import LayeredDrawing.Proofs.Fault.Carried
import LayeredDrawing.Proofs.OrderedMap.Image

/-!
# Renamings

A renaming gives every node and every key another name.  No two nodes get the same one, and a dummy
node stays the dummy node with the same number, of the edge with the new key.  An arrangement is
renamed node by node.  Lists of which one is renamed are compared in step, by `List.Forall₂`.

* `exists_right_of_forall₂`, `forall₂_dropWhile`   lists in step;
* `Renaming.Matches`       an edge and what it is called under the renaming;
* `carried_entry`          looking a node up in a table;
* `carried_insertBeside`, `carried_listChains`   listing dummy nodes.
-/

namespace LayeredDrawing

/-! ## lists in step -/

section
variable {β γ : Type} {R : β → γ → Prop} {l : List β} {m : List γ}

theorem exists_right_of_forall₂ (h : List.Forall₂ R l m) {b : β} (hb : b ∈ l) : ∃ c ∈ m, R b c := by
  induction h with
  | nil => cases hb
  | cons hbc _ ih =>
    rcases List.mem_cons.1 hb with rfl | hb
    · exact ⟨_, List.mem_cons_self, hbc⟩
    · obtain ⟨c, hc, hr⟩ := ih hb
      exact ⟨c, List.mem_cons_of_mem _ hc, hr⟩

theorem exists_left_of_forall₂ (h : List.Forall₂ R l m) {c : γ} (hc : c ∈ m) : ∃ b ∈ l, R b c :=
  exists_right_of_forall₂ h.flip hc

theorem map_eq_map_of_forall₂ {δ : Type} {f : β → δ} {g : γ → δ} (h : List.Forall₂ R l m)
    (hfg : ∀ b c, R b c → g c = f b) : m.map g = l.map f := by
  induction h with
  | nil => rfl
  | cons hbc _ ih => rw [List.map_cons, List.map_cons, hfg _ _ hbc, ih]

theorem forall₂_of_map_eq {δ : Type} {f : β → δ} {g : γ → δ}
    (h : m.map g = l.map f) : List.Forall₂ (fun b c => g c = f b) l m := by
  have heq : List.Forall₂ Eq (m.map g) (l.map f) := List.forall₂_eq_eq_eq ▸ h
  exact (List.forall₂_map_right_iff.1 (List.forall₂_map_left_iff.1 heq)).flip

theorem forall₂_dropWhile {p : β → Bool} {q : γ → Bool} (h : List.Forall₂ R l m)
    (hpq : ∀ b c, R b c → q c = p b) : List.Forall₂ R (l.dropWhile p) (m.dropWhile q) := by
  induction h with
  | nil => exact .nil
  | cons hbc htail ih =>
    rw [List.dropWhile_cons, List.dropWhile_cons, hpq _ _ hbc]
    split
    · exact ih
    · exact .cons hbc htail

end

/-! ## renamings -/

structure Renaming where
  node : NodeId → NodeId
  key : Int → Int
  injective : Function.Injective node
  node_dummy : ∀ k i, node (.dummy k i) = .dummy (key k) i

namespace Renaming

/-- every node keeps its name -/
def refl : Renaming := ⟨id, id, Function.injective_id, fun _ _ => rfl⟩

variable (r : Renaming)

def arrangement (lists : Arrangement) : Arrangement := lists.map (List.map r.node)

/-- the second edge goes under the new key from and to the nodes with the new names -/
structure Matches (e e' : Edge) : Prop where
  key : e'.key = r.key e.key
  source : e'.source = r.node e.source
  target : e'.target = r.node e.target

/-- the same table of nodes under their new names -/
abbrev table {ν : Type} (m : OrderedMap NodeId ν) : OrderedMap NodeId ν :=
  m.image r.node r.injective id

theorem refl_arrangement (lists : Arrangement) : refl.arrangement lists = lists :=
  (List.map_congr_left fun l _ => List.map_id l).trans (List.map_id _)

variable {r}

theorem refl_table {ν : Type} (m : OrderedMap NodeId ν) : refl.table m = m := OrderedMap.image_id m

theorem get?_table {ν : Type} {m : OrderedMap NodeId ν} {a : NodeId} :
    (r.table m).get? (r.node a) = m.get? a := by
  rw [OrderedMap.get?_image, Option.map_id_fun, id]

theorem arrangement_injective : Function.Injective r.arrangement :=
  List.map_injective_iff.2 (List.map_injective_iff.2 r.injective)

theorem flatten_arrangement (lists : Arrangement) :
    (r.arrangement lists).flatten = lists.flatten.map r.node := List.map_flatten.symm

theorem arrangement_filter (lists : Arrangement) (ids : List NodeId) :
    ((r.arrangement lists).map fun layer => layer.filter fun id => !(ids.map r.node).contains id)
      = r.arrangement (lists.map fun layer => layer.filter fun id => !ids.contains id) := by
  rw [arrangement, arrangement, List.map_map, List.map_map]
  refine List.map_congr_left fun layer _ => ?_
  rw [Function.comp_apply, List.filter_map]
  refine congrArg (List.map r.node) (List.filter_congr fun a _ => ?_)
  simp [r.injective.eq_iff]

theorem dropLast_arrangement (lists : Arrangement) :
    (r.arrangement lists).dropLast = r.arrangement lists.dropLast := List.map_dropLast.symm

end Renaming

section
variable {r : Renaming}

theorem lastPosition?_map (l : List NodeId) (id : NodeId) :
    lastPosition? (l.map r.node) (r.node id) = lastPosition? l id := by
  induction l with
  | nil => rfl
  | cons a l ih => simp only [List.map_cons, lastPosition?, ih, r.injective.eq_iff]

/-- a node is found in a table where it is found under its new name -/
theorem carried_entry {ν ν' : Type} {k : ν → ν'} {m : OrderedMap NodeId ν}
    {m' : OrderedMap NodeId ν'} {a : NodeId} (h : m'.get? (r.node a) = (m.get? a).map k) :
    Carried k (m.entry a) (m'.entry (r.node a)) := by
  unfold OrderedMap.entry
  rw [h]
  cases m.get? a with
  | none => exact carried_error rfl
  | some v => exact carried_ok rfl

/-! ## listing dummy nodes -/

theorem carried_insertBeside (lists : Arrangement) (layer : Int) (prev new : NodeId) :
    Carried r.arrangement (insertBeside lists layer prev new)
      (insertBeside (r.arrangement lists) layer (r.node prev) (r.node new)) := by
  have hlength : (r.arrangement lists).length = lists.length := List.length_map ..
  have hposition (i : Int) :
      Carried id (position lists.length i) (position (r.arrangement lists).length i) := by
    rw [hlength]
    cases position lists.length i with
    | ok p => exact carried_ok rfl
    | error fault => exact carried_error rfl
  have hget (i : Nat) : (r.arrangement lists).getD i [] = (lists.getD i []).map r.node :=
    List.getD_map lists [] (List.map r.node)
  have hslot (l : List NodeId) : (l.map r.node).idxOf? (r.node prev) = l.idxOf? prev := by
    rw [List.idxOf?, List.findIdx?_map]
    congr 1
    funext a
    simp [r.injective.eq_iff]
  unfold insertBeside
  refine (hposition _).bind fun below _ => ?_
  simp only [hget, hslot, id]
  cases (lists.getD below []).idxOf? prev with
  | none => exact carried_error rfl
  | some slot =>
    refine (hposition _).bind fun here _ => carried_ok ?_
    rw [List.length_map, ← List.map_insertIdx]
    exact List.map_set.symm

theorem carried_listChain (layer : Int) (prev : NodeId) (nodes : List NodeId)
    (lists : Arrangement) : Carried r.arrangement (listChain layer prev nodes lists)
      (listChain layer (r.node prev) (nodes.map r.node) (r.arrangement lists)) := by
  induction nodes generalizing layer prev lists with
  | nil => exact carried_ok rfl
  | cons a nodes ih => exact (carried_insertBeside ..).bind fun lists _ => ih ..

/-- the chains come from renamed nodes and lead by renamed nodes -/
theorem carried_listChains {table table' : OrderedMap NodeId Int} {chains chains' : List Chain}
    (htable : ∀ id, table'.get? (r.node id) = table.get? id)
    (h : chains'.map (fun C => (C.edge.source, C.nodes))
      = chains.map fun C => (r.node C.edge.source, C.nodes.map r.node)) (lists : Arrangement) :
    Carried r.arrangement (listChains table chains lists)
      (listChains table' chains' (r.arrangement lists)) := by
  induction chains generalizing chains' lists with
  | nil =>
    obtain rfl := List.map_eq_nil_iff.1 h
    exact carried_ok rfl
  | cons C chains ih =>
    obtain ⟨D, rest, rfl, hCD, hrest⟩ := List.map_eq_cons_iff.1 h
    obtain ⟨hsource, hnodes⟩ := Prod.mk.inj hCD
    rw [listChains, listChains, hsource, hnodes]
    have hentry : Carried id (table.entry C.edge.source)
        (table'.entry (r.node C.edge.source)) :=
      carried_entry (by rw [htable, Option.map_id_fun, id])
    refine hentry.bind fun start _ => ?_
    exact (carried_listChain ..).bind fun lists _ => ih hrest lists

end

end LayeredDrawing
