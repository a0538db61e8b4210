import LayeredDrawing.Placement.Heights
import LayeredDrawing.Proofs.Placement.Scaling
import LayeredDrawing.Proofs.Renaming.Ordering

/-!
# Placement under a renaming, on another scale

The heights depend on the graph only through what `Mirrors` speaks of, and on where nodes stand not at
all.  So the mirrored graph gets the same heights under the new names, and on another scale if the
spacing is on that scale.

* `Scaling.heights`          the heights on the other scale;
* `Scaling.requireOrdered`   they are accepted where the first ones are.
-/

namespace LayeredDrawing

open Scalar

variable {α : Type} [Scalar α] {r : Renaming} {k : α → α} {spacing spacing' : α}

/-- the heights of the renamed nodes, on another scale -/
abbrev Renaming.heights (r : Renaming) (k : α → α) (hs : Heights α) : Heights α :=
  hs.image r.node r.injective k

section
variable (h : Scaling k spacing spacing')
include h

theorem Scaling.evenHeights (lists : Arrangement) : evenHeights spacing' (r.arrangement lists)
    = r.heights k (LayeredDrawing.evenHeights spacing lists) := by
  have hlayer (hs : Heights α) (layer : List NodeId) :
      (layer.map r.node).zipIdx.foldl (fun hs p => hs.insert p.1 (ofNat p.2 * spacing'))
          (r.heights k hs)
        = r.heights k (layer.zipIdx.foldl (fun hs p => hs.insert p.1 (ofNat p.2 * spacing)) hs) := by
    rw [List.zipIdx_map]
    exact Eq.symm (OrderedMap.image_foldl_insert fun p _ => ⟨rfl, (h.multiple p.2).symm⟩)
  have hall (hs : Heights α) : (r.arrangement lists).foldl (fun hs layer =>
        layer.zipIdx.foldl (fun hs p => hs.insert p.1 (ofNat p.2 * spacing')) hs) (r.heights k hs)
      = r.heights k (lists.foldl (fun hs layer =>
        layer.zipIdx.foldl (fun hs p => hs.insert p.1 (ofNat p.2 * spacing)) hs) hs) := by
    induction lists generalizing hs with
    | nil => rfl
    | cons layer lists ih =>
      rw [List.foldl_cons, ← ih, ← hlayer]
      rfl
  exact hall ∅

theorem Scaling.fromZero (hs : Heights α) :
    fromZero (r.heights k hs) = r.heights k (LayeredDrawing.fromZero hs) := by
  unfold LayeredDrawing.fromZero
  rw [OrderedMap.values_image, h.least?]
  cases Scalar.least? hs.values with
  | none => rfl
  | some y => exact OrderedMap.mapValues_image fun z => (h.sub z y).symm

/-- heights that grow along a layer do so on the other scale -/
theorem Scaling.requireAscending (hs : Heights α) (i : Nat) (layer : List NodeId) :
    Carried id (requireAscending hs i layer)
      (LayeredDrawing.requireAscending (r.heights k hs) i (layer.map r.node)) := by
  match layer with
  | [] => exact carried_ok rfl
  | [_] => exact carried_ok rfl
  | upper :: lower :: rest =>
    rw [List.map_cons, List.map_cons, LayeredDrawing.requireAscending,
      LayeredDrawing.requireAscending]
    refine (carried_entry OrderedMap.get?_image).bind fun y _ => ?_
    refine (carried_entry OrderedMap.get?_image).bind fun z _ => ?_
    simp only [h.lt_iff]
    split
    · exact carried_error rfl
    · exact Scaling.requireAscending hs i (lower :: rest)

theorem Scaling.requireOrdered (hs : Heights α) (lists : Arrangement) :
    Carried id (requireOrdered hs lists)
      (LayeredDrawing.requireOrdered (r.heights k hs) (r.arrangement lists)) := by
  unfold LayeredDrawing.requireOrdered Renaming.arrangement
  rw [List.zipIdx_map]
  exact carried_forM fun p _ => h.requireAscending hs p.2 p.1

variable {g g' : Graph α} (hg : Mirrors r g g')
include hg

theorem Scaling.wish (hs : Heights α) (side : Side) (a : NodeId) :
    Carried (Prod.map (Option.map k) id) (wish g hs side a)
      (LayeredDrawing.wish g' (r.heights k hs) side (r.node a)) := by
  unfold LayeredDrawing.wish
  refine (hg.require a).bind fun _ _ => ?_
  simp only [hg.neighbours, List.length_map]
  refine (carried_mapM fun b _ => carried_entry OrderedMap.get?_image).bind fun wanted _ => ?_
  -- of the node itself only matters whether it is a dummy
  have hnode := hg.nodes a
  rw [Graph.node, Graph.node, OrderedMap.entry, OrderedMap.entry]
  cases hn : g.nodes.get? a with
  | none =>
    rw [hn, Option.map_none, Option.map_eq_none_iff] at hnode
    rw [hnode]
    exact carried_error rfl
  | some n =>
    rw [hn, Option.map_some, Option.map_eq_some_iff] at hnode
    obtain ⟨n', hn', hdummy⟩ := hnode
    rw [hn']
    refine carried_ok (Prod.ext (h.mean? wanted) ?_)
    simp only [hdummy]
    rfl

theorem Scaling.alignLayer (side : Side) (hs : Heights α) (layer : List NodeId) :
    Carried (r.heights k) (alignLayer g spacing side hs layer)
      (LayeredDrawing.alignLayer g' spacing' side (r.heights k hs) (layer.map r.node)) := by
  unfold LayeredDrawing.alignLayer
  refine (carried_mapM fun a _ => carried_entry OrderedMap.get?_image).bind fun old _ => ?_
  refine (carried_mapM fun a _ => h.wish hg hs side a).bind fun wishes _ => ?_
  have hfst : (wishes.map (Prod.map (Option.map k) id)).map Prod.fst
      = (wishes.map Prod.fst).map (Option.map k) := by
    rw [List.map_map, List.map_map]
    rfl
  have hsnd : (wishes.map (Prod.map (Option.map k) id)).map Prod.snd = wishes.map Prod.snd := by
    rw [List.map_map]
    rfl
  rw [hfst, hsnd]
  refine (h.placeRow ..).bind fun new _ => carried_ok ?_
  rw [List.zip_map]
  exact Eq.symm (OrderedMap.image_foldl_insert fun p _ => ⟨rfl, rfl⟩)

theorem Scaling.alignPass (lists : Arrangement) (hs : Heights α) :
    Carried (r.heights k) (alignPass g spacing lists hs)
      (LayeredDrawing.alignPass g' spacing' (r.arrangement lists) (r.heights k hs)) := by
  have hlayers (side : Side) (lists : Arrangement) (hs : Heights α) :
      Carried (r.heights k) (lists.foldlM (LayeredDrawing.alignLayer g spacing side) hs)
        ((r.arrangement lists).foldlM (LayeredDrawing.alignLayer g' spacing' side) (r.heights k hs)) :=
    carried_foldlM (fun hs layer _ => h.alignLayer hg side hs layer) hs
  have hdrop : (r.arrangement lists).drop 1 = r.arrangement (lists.drop 1) := List.map_drop.symm
  have hreverse : (r.arrangement lists.dropLast).reverse = r.arrangement lists.dropLast.reverse :=
    List.map_reverse.symm
  unfold LayeredDrawing.alignPass
  rw [hdrop, Renaming.dropLast_arrangement, hreverse]
  exact (hlayers .incoming _ hs).bind fun hs _ => hlayers .outgoing _ hs

theorem Scaling.alignPasses (lists : Arrangement) (passes : Nat) (hs : Heights α) :
    Carried (r.heights k) (alignPasses g spacing lists passes hs)
      (LayeredDrawing.alignPasses g' spacing' (r.arrangement lists) passes (r.heights k hs)) := by
  induction passes generalizing hs with
  | zero => exact carried_ok rfl
  | succ passes ih => exact (h.alignPass hg lists hs).bind fun hs _ => ih hs

end

theorem Scaling.heights {c c' : Config α} (h : Scaling k c.nodeSpacing c'.nodeSpacing)
    (hpasses : c'.coordinatePasses = c.coordinatePasses) {g g' : Graph α} (hg : Mirrors r g g')
    (lists : Arrangement) : Carried (r.heights k) (heights g c lists)
      (LayeredDrawing.heights g' c' (r.arrangement lists)) := by
  unfold LayeredDrawing.heights
  rw [hpasses, h.evenHeights]
  exact (h.alignPasses hg ..).bind fun hs _ => carried_ok (h.fromZero hs)

end LayeredDrawing
