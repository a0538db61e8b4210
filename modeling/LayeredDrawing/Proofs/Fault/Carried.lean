import LayeredDrawing.Fault

/-!
# Requests that are answered alike

Two requests are answered alike if both are granted, and a given function takes the one answer to the
other, or both are refused, for faults of one kind.  There is one rule for each way of building a
request, so that two runs of one function are compared along the text of the function.

* `Fault.kind`        what kind of refusal a fault is;
* `Carried k r r'`    the function `k` carries the answer of `r` to the answer of `r'`;
* `Carried.bind`, `carried_mapM`, `carried_foldlM`, `carried_forM`   the rules.
-/

namespace LayeredDrawing

/-- the kinds of refusal that a caller can tell apart -/
inductive FaultKind where
  /-- something asked for by its name or key is not there -/
  | lookup
  /-- something given is not acceptable -/
  | value
  /-- an edge is not where its ends are -/
  | adjacency
  | position
  | overflow
  | division
  /-- the graph has a cycle -/
  | cycle
  /-- a phase has found what no phase should leave behind -/
  | invariant
deriving DecidableEq

def Fault.kind : Fault → FaultKind
  | .unknownNode _ | .noEntry _ | .noEdge _ | .edgeAbsent _ | .noStage _ => .lookup
  | .nodeExists _ | .nullNode | .edgePresent _ | .notListed _ => .value
  | .notAdjacent .. | .notParallel .. => .adjacency
  | .outOfRange | .positionTooLarge => .position
  | .numberTooLarge => .overflow
  | .divisionByZero => .division
  | .cyclic _ => .cycle
  | .stageMismatch .. | .spanBelowOne .. | .spanNotOne .. | .swapped .. => .invariant

section
variable {β γ δ ε : Type}

/-- both requests are granted, and `k` takes the first answer to the second, or both are refused -/
def Carried (k : β → γ) : Except Fault β → Except Fault γ → Prop
  | .ok b, .ok c => c = k b
  | .error fault, .error fault' => fault'.kind = fault.kind
  | _, _ => False

section
variable {k : β → γ} {r : Except Fault β} {r' : Except Fault γ}

theorem carried_ok {b : β} {c : γ} (h : c = k b) : Carried k (.ok b) (.ok c) := h

theorem carried_error {fault fault' : Fault} (h : fault'.kind = fault.kind) :
    Carried k (.error fault) (.error fault') := h

theorem Carried.of_ok (h : Carried k r r') {b : β} (hr : r = .ok b) : r' = .ok (k b) := by
  subst hr
  cases r' with
  | ok c => exact congrArg Except.ok h
  | error fault => exact h.elim

theorem Carried.of_error (h : Carried k r r') {fault : Fault} (hr : r = .error fault) :
    ∃ fault', r' = .error fault' ∧ fault'.kind = fault.kind := by
  subst hr
  cases r' with
  | ok c => exact h.elim
  | error fault' => exact ⟨fault', rfl, h⟩

/-- requests that are made after requests answered alike, of the answers -/
theorem Carried.bind {m : δ → ε} {f : β → Except Fault δ} {g : γ → Except Fault ε}
    (h : Carried k r r') (hf : ∀ b, r = .ok b → Carried m (f b) (g (k b))) :
    Carried m (r >>= f) (r' >>= g) := by
  cases r with
  | ok b =>
    rw [h.of_ok rfl]
    exact hf b rfl
  | error fault =>
    obtain ⟨fault', rfl, hkind⟩ := h.of_error rfl
    exact hkind

end

/-! ## lists of requests -/

section
variable {k : β → γ} {j : δ → ε}

theorem carried_mapM {f : δ → Except Fault β} {g : ε → Except Fault γ} {l : List δ}
    (h : ∀ d ∈ l, Carried k (f d) (g (j d))) :
    Carried (List.map k) (l.mapM f) ((l.map j).mapM g) := by
  induction l with
  | nil => exact carried_ok rfl
  | cons d l ih =>
    rw [List.map_cons, List.mapM_cons, List.mapM_cons]
    refine (h d List.mem_cons_self).bind fun b _ => ?_
    exact (ih fun x hx => h x (List.mem_cons_of_mem _ hx)).bind fun bs _ => carried_ok rfl

theorem carried_foldlM {f : β → δ → Except Fault β} {g : γ → ε → Except Fault γ} {l : List δ}
    (h : ∀ b, ∀ d ∈ l, Carried k (f b d) (g (k b) (j d))) (b : β) :
    Carried k (l.foldlM f b) ((l.map j).foldlM g (k b)) := by
  induction l generalizing b with
  | nil => exact carried_ok rfl
  | cons d l ih =>
    rw [List.map_cons, List.foldlM_cons, List.foldlM_cons]
    exact (h b d List.mem_cons_self).bind fun b' _ =>
      ih (fun b x hx => h b x (List.mem_cons_of_mem _ hx)) b'

theorem carried_forM {f : δ → Except Fault Unit} {g : ε → Except Fault Unit} {l : List δ}
    (h : ∀ d ∈ l, Carried id (f d) (g (j d))) : Carried id (l.forM f) ((l.map j).forM g) := by
  induction l with
  | nil => exact carried_ok rfl
  | cons d l ih =>
    exact (h d List.mem_cons_self).bind fun _ _ => ih fun x hx => h x (List.mem_cons_of_mem _ hx)

end

end

end LayeredDrawing
