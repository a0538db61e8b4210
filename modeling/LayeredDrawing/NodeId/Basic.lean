/-!
# Node identifiers

A node is named by a number, a text, a tuple of identifiers, or as the `index`-th `dummy` node of
the edge with a given key.  The `null` identifier can be asked for, but names no node.  Identifiers
of different kinds are different: the number `1` is not the text `"1"`.

`NodeId.same` decides equality by recursion on the two identifiers.
-/

namespace LayeredDrawing

inductive NodeId where
  | null
  | int (n : Int)
  | text (s : String)
  | tuple (items : List NodeId)
  /-- the `index`-th intermediate node of the hidden edge with this key -/
  | dummy (key index : Int)

namespace NodeId

instance : Inhabited NodeId := ⟨.null⟩

mutual

def same : NodeId → NodeId → Bool
  | null, null => true
  | int m, int n => m == n
  | text s, text t => s == t
  | tuple l, tuple r => sameAll l r
  | dummy k i, dummy l j => k == l && i == j
  | _, _ => false

def sameAll : List NodeId → List NodeId → Bool
  | [], [] => true
  | a :: l, b :: r => same a b && sameAll l r
  | _, _ => false

end

mutual

theorem same_self : ∀ a : NodeId, same a a = true
  | null => rfl
  | int _ => by simp [same]
  | text _ => by simp [same]
  | tuple l => by simpa [same] using sameAll_self l
  | dummy _ _ => by simp [same]

theorem sameAll_self : ∀ l : List NodeId, sameAll l l = true
  | [] => rfl
  | a :: l => by simp [sameAll, same_self a, sameAll_self l]

end

mutual

theorem eq_of_same : ∀ {a b : NodeId}, same a b = true → a = b
  | null, null, _ => rfl
  | int m, int n, h => by simpa [same] using h
  | text s, text t, h => by simpa [same] using h
  | tuple l, tuple r, h => by
    have := eq_of_sameAll (by simpa [same] using h : sameAll l r = true)
    rw [this]
  | dummy k i, dummy l j, h => by simpa [same] using h
  | null, int _, h | null, text _, h | null, tuple _, h | null, dummy _ _, h => by
    simp [same] at h
  | int _, null, h | int _, text _, h | int _, tuple _, h | int _, dummy _ _, h => by
    simp [same] at h
  | text _, null, h | text _, int _, h | text _, tuple _, h | text _, dummy _ _, h => by
    simp [same] at h
  | tuple _, null, h | tuple _, int _, h | tuple _, text _, h | tuple _, dummy _ _, h => by
    simp [same] at h
  | dummy _ _, null, h | dummy _ _, int _, h | dummy _ _, text _, h | dummy _ _, tuple _, h => by
    simp [same] at h

theorem eq_of_sameAll : ∀ {l r : List NodeId}, sameAll l r = true → l = r
  | [], [], _ => rfl
  | a :: l, b :: r, h => by
    simp only [sameAll, Bool.and_eq_true] at h
    rw [eq_of_same h.1, eq_of_sameAll h.2]
  | [], _ :: _, h => by simp [sameAll] at h
  | _ :: _, [], h => by simp [sameAll] at h

end

theorem same_iff {a b : NodeId} : same a b = true ↔ a = b :=
  ⟨eq_of_same, fun h => h ▸ same_self a⟩

instance : DecidableEq NodeId := fun _ _ => decidable_of_iff _ same_iff

end NodeId

end LayeredDrawing
