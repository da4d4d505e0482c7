import OpenUltraSast.Library.Collections
import OpenUltraSast.Library.Floats
import Mathlib.Data.String.Basic

/-!
# Evaluation of a program

Scores are calibrated by maps that are fitted on other folds, and each fold gets the operating
points that its training rows give.
-/

namespace OpenUltraSast.Learn.Evaluate

open Collections Floats

inductive Verdict where
  | vulnerable
  | notVulnerable
  | unsure
deriving DecidableEq

inductive UnitKind where
  | pin
  | delta
deriving DecidableEq

inductive Point where
  | block
  | advisory
  | drop
deriving DecidableEq

structure Prediction (F : Type) where
  fold : String
  family : String
  group : String
  label : Nat
  s : F
  verdict : Verdict
  unit : UnitKind
  p : Option F
  point : Option Point
  pair : String

/-- An out-of-fold prediction, as a map is fitted on it. -/
structure Row (F : Type) where
  fold : String
  family : String
  group : String
  label : Nat
  s : F

/-- A calibration map, by `apply`; the floors of the fit are part of it. -/
abbrev Fit (F : Type) := List (Row F) → String → F → Option F

variable {F : Type}

def Prediction.blockable (r : Prediction F) : Bool := r.verdict ≠ .unsure

def Prediction.row (r : Prediction F) : Row F := ⟨r.fold, r.family, r.group, r.label, r.s⟩

def folds (preds : List (Prediction F)) : List String := sortedSet (preds.map (·.fold))

def families (preds : List (Prediction F)) : List String := sortedSet (preds.map (·.family))

def hits (rows : List (Prediction F)) : Nat := (rows.map (·.label)).sum

def off (fold : String) (preds : List (Prediction F)) : List (Prediction F) :=
  preds.filter fun r => r.fold ≠ fold

def ofFamily (family : String) (preds : List (Prediction F)) : List (Prediction F) :=
  preds.filter fun r => r.family = family

section Bounds
variable [Floats F]

def targetPrecision : F := decimal 95 2

def targetRecall : F := decimal 90 2

/-- `wilson_lower`, with its default `z`. -/
def wilsonLower (successes n : Nat) : F :=
  if n = 0 then ofNat 0
  else
    let z : F := decimal 1959964 6
    let phat : F := ratio successes n
    let centre := phat + z * z / ofNat (2 * n)
    let margin := z * sqrt (phat * (ofNat 1 - phat) / ofNat n + z * z / ofNat (4 * n * n))
    (centre - margin) / (ofNat 1 + z * z / ofNat n)

def scores (rows : List (Prediction F)) : List F := sortedSet (rows.filterMap (·.p))

/-- The rows with a calibrated score of at least `t`. -/
def atLeast (t : F) (rows : List (Prediction F)) : List (Prediction F) :=
  rows.filter fun r => r.p.any (t ≤ ·)

structure Points (F : Type) where
  block : Option F
  advisory : Option F

def Points.blockReason (points : Points F) : Option String :=
  if points.block.isSome then none else some "precision_unreachable"

def choosePoints (preds : List (Prediction F)) : Points F :=
  let rows := preds.filter (·.p.isSome)
  let thresholds := scores rows
  let deltas := rows.filter (·.unit = .delta)
  let blockable := (if deltas = [] then rows else deltas).filter (·.blockable)
  { block := thresholds.find? fun t =>
      let chosen := atLeast t blockable
      chosen ≠ [] && (targetPrecision : F) ≤ wilsonLower (hits chosen) chosen.length
    advisory := thresholds.reverse.find? fun t =>
      hits rows ≠ 0 && (targetRecall : F) ≤ ratio (hits (atLeast t rows)) (hits rows) }

/-- The point of a row under the points of its fold; a row without a score keeps the one it has. -/
def Points.pointOf (points : Points F) (r : Prediction F) : Option Point :=
  match r.p with
  | none => r.point
  | some p =>
    if r.blockable && points.block.any (· ≤ p) then some .block
    else if points.advisory.any (· ≤ p) then some .advisory
    else some .drop

def pointsOf (preds : List (Prediction F)) (fold : String) : Points F := choosePoints (off fold preds)

def nestedPoints (preds : List (Prediction F)) : List (Prediction F) × List (String × Points F) :=
  (preds.map fun r => { r with point := (pointsOf preds r.fold).pointOf r },
    (folds preds).map fun fold => (fold, pointsOf preds fold))

/-- `cross_fit`: each row's score by a map that is fitted on the other folds' rows. -/
def calibrated (fit : Fit F) (preds : List (Prediction F)) : List (Prediction F) :=
  preds.map fun r => { r with p := fit ((off r.fold preds).map (·.row)) r.family r.s }

/-- `evaluate`, as far as its points: the decided rows, and the points by fold. -/
def evaluate (fit : Fit F) (preds : List (Prediction F)) :
    List (Prediction F) × List (String × Points F) :=
  nestedPoints (calibrated fit preds)

/-- What `calibrated_block` reports of a family. -/
structure CalibratedInfo (F : Type) where
  calibrationHolds : Bool
  points : List (String × Points F)

def CalibratedInfo.reason (info : CalibratedInfo F) (points : Points F) : Option String :=
  if info.calibrationHolds then points.blockReason else some "calibration"

def calibratedFamily (fit : Fit F) (check : List (F × Nat × String) → Bool)
    (rows : List (Prediction F)) : List (Prediction F) × CalibratedInfo F :=
  let scored := calibrated fit rows
  let decided := scored.filterMap fun r => r.p.map fun p => (p, r.label, r.group)
  let holds := (decided.map (·.2.1)).eraseDups.length = 2 && check decided
  let nested := nestedPoints scored
  (nested.1.map fun r =>
      { r with point := some (if holds && r.point = some .block then .block else .drop) },
    ⟨holds, nested.2⟩)

def calibratedBlock (fit : Fit F) (check : List (F × Nat × String) → Bool)
    (preds : List (Prediction F)) : List (Prediction F) × List (String × CalibratedInfo F) :=
  ((families preds).flatMap fun family => (calibratedFamily fit check (ofFamily family preds)).1,
    (families preds).map fun family =>
      (family, (calibratedFamily fit check (ofFamily family preds)).2))

inductive Bound where
  | wilson
  | point
deriving DecidableEq

def precisionThreshold (precision : F) (bound : Bound) (minFlagged : Nat)
    (rows : List (Prediction F)) : Option F :=
  let blockable := rows.filter (·.blockable)
  (sortedSet (blockable.map (·.s))).find? fun t =>
    let chosen := blockable.filter fun r => t ≤ r.s
    let level : F := match bound with
      | .wilson => wilsonLower (hits chosen) chosen.length
      | .point => ratio (hits chosen) chosen.length
    max 1 minFlagged ≤ chosen.length && precision ≤ level

section PrecisionBlock
variable (eligible : Prediction F → Bool) (precision : F) (bound : Bound) (minFlagged : Nat)

def precisionBlockAt (preds : List (Prediction F)) (family fold : String) : Option F :=
  precisionThreshold precision bound minFlagged
    ((ofFamily family preds).filter fun r => r.fold ≠ fold && eligible r)

def nestedPrecisionBlock (preds : List (Prediction F)) :
    List (Prediction F) × List (String × List (String × Option F)) :=
  let at_ := precisionBlockAt eligible precision bound minFlagged preds
  (preds.map fun r =>
      let blocks := r.blockable && (at_ r.family r.fold).any (· ≤ r.s)
      { r with point := some (if blocks then .block else .drop) },
    (families preds).map fun family =>
      (family, (folds (ofFamily family preds)).map fun fold => (fold, at_ family fold)))

end PrecisionBlock

/-- `normalised`: the scores of some rows under the map that is fitted on the training rows. -/
def normalised (fit : Fit F) (train rows : List (Prediction F)) : List (Prediction F) :=
  rows.map fun r => { r with p := fit (train.map (·.row)) r.family r.s }

def pooledThreshold (precision : F) (rows : List (Prediction F)) : Option F :=
  let blockable := rows.filter fun r => r.blockable && r.p.isSome
  (scores blockable).find? fun t =>
    let chosen := atLeast t blockable
    precision ≤ wilsonLower (hits chosen) chosen.length

/-- An index as the language takes it: a negative one counts from the end. -/
def index? {α : Type} (items : List α) (i : Int) : Option α :=
  if 0 ≤ i then items[i.toNat]? else if -i ≤ items.length then items[(items.length + i).toNat]? else none

def quietThreshold (recalled : F) (rows : List (Prediction F)) : Option F :=
  let positives := ((rows.filter (·.label = 1)).filterMap (·.p)).insertionSort (· ≥ ·)
  index? positives (ceil (recalled * ofNat positives.length - decimal 1 9) - 1)

structure Gate (F : Type) where
  tBlock : Option F
  tQuiet : List (String × Option F)
  trainingRows : Nat
  normalisedTrainingRows : Nat
deriving DecidableEq

section Gate
variable (fit : Fit F) (eligible : Prediction F → Bool) (precision recalled : F)

def training (preds : List (Prediction F)) (fold : String) : List (Prediction F) :=
  off fold (preds.filter eligible)

def inner (train : List (Prediction F)) : List (Prediction F) :=
  (folds train).flatMap fun k =>
    (normalised fit (off k train) (train.filter (·.fold = k))).filter (·.p.isSome)

def gateOf (preds : List (Prediction F)) (fold : String) : Gate F :=
  let train := training eligible preds fold
  let rows := inner fit train
  { tBlock := pooledThreshold precision rows
    tQuiet := (families preds).map fun family => (family, quietThreshold recalled (ofFamily family rows))
    trainingRows := train.length
    normalisedTrainingRows := rows.length }

/-- The point of a row with its normalised score; nothing is silenced without a score to go by. -/
def Gate.pointOf (gate : Gate F) (r : Prediction F) : Point :=
  match r.p with
  | none => .advisory
  | some p =>
    if r.blockable && gate.tBlock.any (· ≤ p) then .block
    else if (gate.tQuiet.lookup r.family).join.all (· ≤ p) then .advisory
    else .drop

def Gate.decide (gate : Gate F) (r : Prediction F) : Prediction F :=
  { r with point := some (gate.pointOf r) }

def pooledBlockGate (preds : List (Prediction F)) : List (Prediction F) × List (String × Gate F) :=
  (preds.map fun r =>
      (gateOf fit eligible precision recalled preds r.fold).decide
        { r with p := fit ((training eligible preds r.fold).map (·.row)) r.family r.s },
    (folds preds).map fun fold => (fold, gateOf fit eligible precision recalled preds fold))

end Gate

end Bounds

end OpenUltraSast.Learn.Evaluate
