/-!
# Stages of a drawing

A run goes through its stages in the order listed and never back.
-/

namespace LayeredDrawing

inductive Stage where
  | unlaidOut
  | layered
  | expanded
  | ordered
  | positioned
  | reconstructed
deriving DecidableEq, Repr

namespace Stage

instance : Inhabited Stage := ⟨.unlaidOut⟩

def all : List Stage := [unlaidOut, layered, expanded, ordered, positioned, reconstructed]

def name : Stage → String
  | unlaidOut => "UNLAIDOUT"
  | layered => "LAYERED"
  | expanded => "EXPANDED"
  | ordered => "ORDERED"
  | positioned => "POSITIONED"
  | reconstructed => "RECONSTRUCTED"

def ofName? (s : String) : Option Stage := all.find? fun stage => stage.name = s

theorem mem_all (s : Stage) : s ∈ all := by cases s <;> decide

theorem ofName?_name (s : Stage) : ofName? s.name = some s := by cases s <;> decide

/-- the stage after this one, if it is not the last -/
def next? : Stage → Option Stage
  | unlaidOut => some layered
  | layered => some expanded
  | expanded => some ordered
  | ordered => some positioned
  | positioned => some reconstructed
  | reconstructed => none

end Stage

end LayeredDrawing
