import LayeredDrawing.Fault

/-!
# Arrangements

An arrangement lists the layers of a drawing, each with its nodes in order.

* `position?`      a position in a list, given by a number that may count from the end;
* `position`       the same, with the reason if there is none;
* `lastPosition?`  the position of a node in a layer.
-/

namespace LayeredDrawing

abbrev Arrangement := List (List NodeId)

/-- the position in a list of length `count` that the number stands for: negative numbers count
from the end -/
def position? (count : Nat) (i : Int) : Option Nat :=
  if 0 ≤ i then if i < count then some i.toNat else none
  else if 0 ≤ i + count then some (i + count).toNat else none

theorem position?_natCast {count i : Nat} (h : i < count) : position? count (i : Int) = some i := by
  simp [position?, h]

theorem position?_lt {count : Nat} {i : Int} {p : Nat} (h : position? count i = some p) :
    p < count := by
  unfold position? at h
  split at h
  · split at h
    · cases h; omega
    · cases h
  · split at h
    · cases h; omega
    · cases h

/-- why a number that is no position in a list is none -/
def Fault.ofPosition (i : Int) : Fault :=
  let limit : Int := 1 <<< 63
  if -limit ≤ i ∧ i < limit then .outOfRange else .positionTooLarge

def position (count : Nat) (i : Int) : Except Fault Nat :=
  match position? count i with
  | some p => .ok p
  | none => .error (.ofPosition i)

theorem position_eq_ok_iff {count : Nat} {i : Int} {p : Nat} :
    position count i = .ok p ↔ position? count i = some p := by
  unfold position
  split <;> simp_all

/-- the position of a node in a layer; the last one if it stands there repeatedly -/
def lastPosition? : List NodeId → NodeId → Option Nat
  | [], _ => none
  | a :: layer, id =>
    match lastPosition? layer id with
    | some i => some (i + 1)
    | none => if a = id then some 0 else none

theorem lastPosition?_nil (id : NodeId) : lastPosition? [] id = none := rfl

theorem lastPosition?_eq_none_iff {layer : List NodeId} {id : NodeId} :
    lastPosition? layer id = none ↔ id ∉ layer := by
  induction layer with
  | nil => simp [lastPosition?]
  | cons a layer ih =>
    unfold lastPosition?
    split
    · rename_i i hi
      have hm : ¬ id ∉ layer := fun h => by rw [ih.2 h] at hi; cases hi
      simp_all
    · rename_i hn
      have hm := ih.1 hn
      by_cases h : a = id
      · simp [h]
      · have h' : ¬ id = a := fun e => h e.symm
        simp [h, h', hm]

theorem getElem?_lastPosition? {layer : List NodeId} {id : NodeId} {i : Nat}
    (h : lastPosition? layer id = some i) : layer[i]? = some id := by
  induction layer generalizing i with
  | nil => cases h
  | cons a layer ih =>
    unfold lastPosition? at h
    split at h
    · rename_i j hj
      cases h
      simpa using ih hj
    · split at h
      · rename_i ha
        cases h
        simp [ha]
      · cases h

end LayeredDrawing
