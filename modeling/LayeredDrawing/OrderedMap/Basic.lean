/-!
# Maps that remember the order of their keys

An `OrderedMap` holds each key once, in the order in which the keys first arrived.

* `insert`   a new key goes to the end, a present one keeps its place and gets the new value;
* `erase`    removes a key, so that it goes to the end if it comes back;
* `modify`   changes the value of a present key;
* `filter`   keeps the keys with a property.

The keys are pairwise different by construction (`nodup`).
-/

namespace LayeredDrawing

structure OrderedMap (κ ν : Type) where
  entries : List (κ × ν)
  nodup : (entries.map Prod.fst).Nodup

namespace OrderedMap

variable {κ ν μ : Type}

def empty : OrderedMap κ ν := ⟨[], List.nodup_nil⟩

instance : EmptyCollection (OrderedMap κ ν) := ⟨empty⟩

instance : Inhabited (OrderedMap κ ν) := ⟨empty⟩

def keys (m : OrderedMap κ ν) : List κ := m.entries.map Prod.fst

def values (m : OrderedMap κ ν) : List ν := m.entries.map Prod.snd

def size (m : OrderedMap κ ν) : Nat := m.entries.length

theorem nodup_keys (m : OrderedMap κ ν) : m.keys.Nodup := m.nodup

/-- changes every value and no key -/
def mapValues (f : κ → ν → μ) (m : OrderedMap κ ν) : OrderedMap κ μ where
  entries := m.entries.map fun e => (e.1, f e.1 e.2)
  nodup := by
    have h : (m.entries.map fun e => (e.1, f e.1 e.2)).map Prod.fst = m.keys := by
      simp [keys, Function.comp_def]
    rw [h]
    exact m.nodup

def filter (p : κ → Bool) (m : OrderedMap κ ν) : OrderedMap κ ν where
  entries := m.entries.filter fun e => p e.1
  nodup := m.nodup.sublist (List.filter_sublist.map Prod.fst)

section
variable [DecidableEq κ]

def contains (m : OrderedMap κ ν) (k : κ) : Bool := decide (k ∈ m.keys)

def get? (m : OrderedMap κ ν) (k : κ) : Option ν :=
  (m.entries.find? fun e => e.1 = k).map Prod.snd

def erase (m : OrderedMap κ ν) (k : κ) : OrderedMap κ ν := m.filter fun j => decide (j ≠ k)

def modify (m : OrderedMap κ ν) (k : κ) (f : ν → ν) : OrderedMap κ ν :=
  m.mapValues fun j v => if j = k then f v else v

def insert (m : OrderedMap κ ν) (k : κ) (v : ν) : OrderedMap κ ν :=
  if h : k ∈ m.keys then m.modify k fun _ => v
  else
    { entries := m.entries ++ [(k, v)]
      nodup := by
        rw [List.map_append, List.nodup_append]
        refine ⟨m.nodup, by simp, ?_⟩
        intro a ha b hb hab
        simp only [List.map_cons, List.map_nil, List.mem_singleton] at hb
        exact h (by rw [← hb, ← hab]; exact ha) }

/-- the map with the given entries inserted from left to right -/
def ofList (l : List (κ × ν)) : OrderedMap κ ν := l.foldl (fun m e => m.insert e.1 e.2) empty

end

end OrderedMap

end LayeredDrawing
