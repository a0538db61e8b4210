import LayeredDrawing.Route

/-!
# Configuration

A `Config` holds the numbers that steer a run; whatever has this type is within range.  It is made
from settings (`Config.ofSettings`, `Config.override`), of which the last one for a field counts,
and a `ConfigFault` says which one was refused.  Settings for what is no field are refused first;
then the fields are examined in the order of the structure.
-/

namespace LayeredDrawing

/-- what a node of a layer is sorted by: the mean or the median position of its neighbours -/
inductive Heuristic where
  | barycenter
  | median
deriving DecidableEq, Repr

namespace Heuristic

def all : List Heuristic := [barycenter, median]

def name : Heuristic → String
  | barycenter => "barycenter"
  | median => "median"

def ofName? (s : String) : Option Heuristic := all.find? fun h => h.name = s

theorem ofName?_name (h : Heuristic) : ofName? h.name = some h := by cases h <;> decide

end Heuristic

/-- a value asked for, by the field it is meant for -/
inductive Setting (α : Type) where
  | seed (n : Option Int)
  | heuristic (name : String)
  | crossingPasses (n : Int)
  | coordinatePasses (n : Int)
  | nodeSpacing (a : α)
  | layerSpacing (a : α)
  | cleanBends (b : Bool)
  | tolerance (a : α)
  /-- a field that no configuration has -/
  | unknown (field : String)

/-- the name of the configuration itself, which is no field and cannot be given a value -/
def reservedName : String := "self"

/-- the setting gives a value to the reserved name -/
def Setting.isReserved {α : Type} : Setting α → Bool
  | .unknown field => field == reservedName
  | _ => false

/-- how a configuration is made from settings -/
inductive ConfigSource where
  | default
  | override
deriving DecidableEq, Repr

inductive ConfigFault (α : Type) where
  | reservedField (source : ConfigSource)
  | unknownField (field : String)
  | heuristic (got : String)
  | crossingPasses (got : Int)
  | coordinatePasses (got : Int)
  | nodeSpacing (got : α)
  | layerSpacing (got : α)
  | tolerance (got : α)

def ConfigSource.text : ConfigSource → String
  | default => "LayoutConfig.__init__()"
  | override => "LayoutConfig.with_overrides()"

/-- the fault in words; `write` gives the text of a number -/
def ConfigFault.message {α : Type} (write : α → String) : ConfigFault α → String
  | reservedField source =>
    source.text ++ " got multiple values for argument '" ++ reservedName ++ "'"
  | unknownField f =>
    ConfigSource.default.text ++ " got an unexpected keyword argument '" ++ f ++ "'"
  | heuristic s =>
    "heuristic must be one of " ++ ", ".intercalate (Heuristic.all.map Heuristic.name) ++ ", got "
      ++ Text.quoted s
  | crossingPasses n => "crossing_passes must be >= 0, got " ++ toString n
  | coordinatePasses n => "coordinate_passes must be >= 0, got " ++ toString n
  | nodeSpacing a => "node_spacing must be > 0, got " ++ write a
  | layerSpacing a => "layer_spacing must be > 0, got " ++ write a
  | tolerance a => "tolerance must be >= 0, got " ++ write a

open Scalar in
structure Config (α : Type) [Scalar α] where
  /-- the seed of the shuffle before layers are reordered; without one nothing is shuffled -/
  seed : Option Int
  heuristic : Heuristic
  /-- how often the layers are reordered, down and up, at most -/
  crossingPasses : Nat
  /-- how often the layers are placed, down and up -/
  coordinatePasses : Nat
  /-- the least distance of two nodes of a layer -/
  nodeSpacing : α
  /-- the distance of two layers -/
  layerSpacing : α
  /-- drop the bends that say nothing -/
  cleanBends : Bool
  /-- the distance under which two points count as one -/
  tolerance : α
  nodeSpacing_pos : ¬ nodeSpacing ≤ zero
  layerSpacing_pos : ¬ layerSpacing ≤ zero
  tolerance_nonneg : ¬ tolerance < zero

namespace Config

variable {α : Type} [Scalar α]

open Scalar

/-- a configuration whose fields have not been examined -/
structure Draft (α : Type) where
  seed : Option Int
  heuristic : String
  crossingPasses : Int
  coordinatePasses : Int
  nodeSpacing : α
  layerSpacing : α
  cleanBends : Bool
  tolerance : α

/-- the draft that is used where nothing is set -/
def Draft.default : Draft α :=
  ⟨some 0, Heuristic.barycenter.name, 24, 8, one, one, true, Route.defaultTolerance⟩

def Draft.apply (d : Draft α) : Setting α → Except (ConfigFault α) (Draft α)
  | .seed n => .ok { d with seed := n }
  | .heuristic s => .ok { d with heuristic := s }
  | .crossingPasses n => .ok { d with crossingPasses := n }
  | .coordinatePasses n => .ok { d with coordinatePasses := n }
  | .nodeSpacing a => .ok { d with nodeSpacing := a }
  | .layerSpacing a => .ok { d with layerSpacing := a }
  | .cleanBends b => .ok { d with cleanBends := b }
  | .tolerance a => .ok { d with tolerance := a }
  | .unknown f =>
    .error (if f = reservedName then .reservedField .default else .unknownField f)

def Draft.validate (d : Draft α) : Except (ConfigFault α) (Config α) :=
  match Heuristic.ofName? d.heuristic with
  | none => .error (.heuristic d.heuristic)
  | some heuristic =>
    if d.crossingPasses < 0 then .error (.crossingPasses d.crossingPasses)
    else if d.coordinatePasses < 0 then .error (.coordinatePasses d.coordinatePasses)
    else if hn : d.nodeSpacing ≤ zero then .error (.nodeSpacing d.nodeSpacing)
    else if hl : d.layerSpacing ≤ zero then .error (.layerSpacing d.layerSpacing)
    else if ht : d.tolerance < zero then .error (.tolerance d.tolerance)
    else .ok
      { seed := d.seed
        heuristic
        crossingPasses := d.crossingPasses.toNat
        coordinatePasses := d.coordinatePasses.toNat
        nodeSpacing := d.nodeSpacing
        layerSpacing := d.layerSpacing
        cleanBends := d.cleanBends
        tolerance := d.tolerance
        nodeSpacing_pos := hn
        layerSpacing_pos := hl
        tolerance_nonneg := ht }

/-- the draft that says the same -/
def draft (c : Config α) : Draft α :=
  ⟨c.seed, c.heuristic.name, c.crossingPasses, c.coordinatePasses, c.nodeSpacing, c.layerSpacing,
    c.cleanBends, c.tolerance⟩

/-- the default configuration with the given settings -/
def ofSettings (settings : List (Setting α)) : Except (ConfigFault α) (Config α) := do
  (← settings.foldlM Draft.apply Draft.default).validate

/-- the configuration with some settings changed; the reserved name is refused before all else -/
def override (c : Config α) (settings : List (Setting α)) : Except (ConfigFault α) (Config α) := do
  if settings.any Setting.isReserved then throw (.reservedField .override)
  (← settings.foldlM Draft.apply c.draft).validate

theorem validate_draft (c : Config α) : c.draft.validate = .ok c := by
  have hp : ¬ ((c.crossingPasses : Int) < 0) := by omega
  have hq : ¬ ((c.coordinatePasses : Int) < 0) := by omega
  simp [draft, Draft.validate, Heuristic.ofName?_name, hp, hq, c.nodeSpacing_pos,
    c.layerSpacing_pos, c.tolerance_nonneg]

/-- overriding nothing changes nothing -/
theorem override_nil (c : Config α) : c.override [] = .ok c := validate_draft c

end Config

end LayeredDrawing
