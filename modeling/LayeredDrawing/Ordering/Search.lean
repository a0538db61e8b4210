import LayeredDrawing.Ordering.Sweep
import LayeredDrawing.Random.Shuffle

/-!
# The search for an arrangement

`bestArrangement` tries the incoming arrangement, the shuffled one if there is a seed, and then what
one sweep after the other makes of it, and returns the first of those with the fewest crossings.
It stops early when nothing crosses any more, or when a sweep changes nothing.
-/

namespace LayeredDrawing

/-- an arrangement with the number of its crossings -/
structure Candidate where
  arrangement : Arrangement
  crossings : Nat
deriving DecidableEq

/-- the second candidate if it has fewer crossings, otherwise the first -/
def Candidate.better (a b : Candidate) : Candidate := if b.crossings < a.crossings then b else a

theorem Candidate.crossings_better_le_left (a b : Candidate) :
    (a.better b).crossings ≤ a.crossings := by
  unfold better
  split
  · omega
  · exact Nat.le_refl _

theorem Candidate.crossings_better_le_right (a b : Candidate) :
    (a.better b).crossings ≤ b.crossings := by
  unfold better
  split
  · exact Nat.le_refl _
  · omega

/-- the arrangement that a search starts from, shuffled if there is a seed -/
def startingArrangement (seed : Option Int) (layers : Arrangement) : Arrangement :=
  match seed with
  | none => layers
  | some n => (shuffleAll layers (.ofSeed n)).1

section
variable {α : Type} (g : Graph α)

def candidate (layers : Arrangement) : Candidate := ⟨layers, crossings g layers⟩

variable [Scalar α]

/-- sweeps on from `current`, at most `passes` times, with the best candidate so far -/
def improve (h : Heuristic) : (passes : Nat) → (current : Arrangement) →
    (best : Candidate) → Except Fault Candidate
  | 0, _, best => .ok best
  | passes + 1, current, best =>
    if best.crossings = 0 then .ok best
    else do
      let next ← sweep? g h current
      let best := best.better (candidate g next)
      if next = current then return best
      improve h passes next best

/-- the first arrangement with the fewest crossings among those tried -/
def bestArrangement (c : Config α) (layers : Arrangement) :
    Except Fault Arrangement := do
  g.requireAll layers.dropLast.flatten
  let start := startingArrangement c.seed layers
  let best := (candidate g layers).better (candidate g start)
  return (← improve g c.heuristic c.crossingPasses start best).arrangement

end

end LayeredDrawing
