import OpenUltraSast.Learn.Evaluate
import OpenUltraSast.Learn.Unseen

/-!
# Estimates of an experiment

The outcomes of an experiment, paired by unit; the metrics over them with a bootstrap over
repositories; and the looks of the sequential test.
-/

namespace OpenUltraSast.Learn.Experiments

open Collections Floats
open Evaluate (Verdict)

/-- One decision: a unit under an arm and a replicate. A unit that was excluded because a response
was not cached has no verdict: `replay_miss`. -/
structure Outcome (F : Type) where
  unit : String
  group : String
  family : String
  label : Int
  pair : String
  arm : String
  replicate : Nat
  s : Option F
  verdict : Option Verdict
  usd : Option F
  parseFailed : Nat := 0
  order : Nat := 0

structure ArmUnit (F : Type) where
  unit : String
  group : String
  family : String
  label : Int
  pair : String
  s : Option F
  verdict : Option Verdict
  usd : Option F
  agree : Option Bool

variable {F : Type}

def ArmUnit.flag (row : ArmUnit F) : Bool := row.verdict = some .vulnerable

section Numbers
variable [Floats F]

def sum (values : List F) : F := values.foldl (· + ·) (ofNat 0)

def mean (values : List F) : Option F :=
  if values = [] then none else some (sum values / ofNat values.length)

def ofInt (n : Int) : F := if n < 0 then ofNat 0 - ofNat n.natAbs else ofNat n.natAbs

def ofBool (b : Bool) : F := ofNat b.toNat

def replicates (outcomes : List (Outcome F)) (arm unit : String) : List (Outcome F) :=
  (outcomes.filter fun o => o.arm = arm ∧ o.unit = unit).insertionSort
    fun a b => a.replicate ≤ b.replicate

def fold (rows : List (Outcome F)) : Option (ArmUnit F) :=
  rows.head?.map fun first =>
    { unit := first.unit, group := first.group, family := first.family, label := first.label
      pair := first.pair, s := first.s, verdict := first.verdict
      usd := mean (rows.filterMap (·.usd))
      agree := rows[1]?.map fun second => decide (first.verdict = second.verdict) }

/-- `arm_units`: the units of an arm. -/
def armUnits (outcomes : List (Outcome F)) (arm : String) : List (String × ArmUnit F) :=
  ((outcomes.filter (·.arm = arm)).map (·.unit)).eraseDups.filterMap fun unit =>
    (fold (replicates outcomes arm unit)).map fun row => (unit, row)

/-- `paired_units`: the units decided in both arms, in unit order. -/
def pairedUnits (outcomes : List (Outcome F)) : List (ArmUnit F × ArmUnit F) :=
  let left := armUnits outcomes "A"
  let right := armUnits outcomes "B"
  (sortedSet (left.map (·.1))).filterMap fun unit =>
    (left.lookup unit).bind fun a => (right.lookup unit).map fun b => (a, b)

inductive MetricName where
  | auc
  | withinPairAuc
  | top30Precision
  | unsureRate
  | advisoryRecall
  | advisoryPrecision
  | canaryAgreement
  | flagRate
  | usdPerCandidate
deriving DecidableEq

structure Metric where
  name : MetricName
  label : Option Int := none

/-- What a score above, at or below another counts. -/
def win (x y : F) : F := if y < x then ofNat 1 else if x = y then decimal 5 1 else ofNat 0

def scores (rows : List (ArmUnit F)) (label : Int) : List F :=
  ((rows.filter (·.label = label)).filterMap (·.s)).insertionSort (· ≤ ·)

def auc (rows : List (ArmUnit F)) : Option F :=
  let pos := scores rows 1
  let neg := scores rows 0
  if pos = [] ∨ neg = [] then none
  else some (sum (pos.flatMap fun p => neg.map (win p)) / ofNat (pos.length * neg.length))

def sides (rows : List (ArmUnit F)) : List ((String × String × String) × List (Int × F)) :=
  rows.foldl (fun pairs r =>
    match r.s with
    | some s =>
      if r.pair = "" then pairs
      else
        let key := (r.group, r.family, r.pair)
        Dicts.set pairs key (Dicts.set ((pairs.lookup key).getD []) r.label s)
    | none => pairs) []

def withinPairAuc (rows : List (ArmUnit F)) : Option F :=
  mean ((sides rows).filterMap fun entry =>
    (entry.2.lookup 1).bind fun v => (entry.2.lookup 0).map fun f => win v f)

def ranked (rows : List (ArmUnit F)) : List Int :=
  let scored := rows.filterMap fun r => r.s.map fun s => (s, r.unit, r.label)
  (scored.insertionSort fun a b => b.1 < a.1 ∨ a.1 = b.1 ∧ a.2.1 ≤ b.2.1).map (·.2.2)

def metricValue (metric : Metric) (all : List (ArmUnit F)) : Option F :=
  let rows := all.filter fun r => metric.label.all (r.label = ·)
  match metric.name with
  | .auc => auc rows
  | .withinPairAuc => withinPairAuc rows
  | .top30Precision =>
    if 30 ≤ (ranked rows).length then mean (((ranked rows).take 30).map ofInt) else none
  | .unsureRate => mean (rows.map fun r => ofBool (r.verdict = some .unsure))
  | .advisoryRecall => mean ((rows.filter (·.label = 1)).map fun r => ofBool r.flag)
  | .advisoryPrecision => mean ((rows.filter (·.flag)).map fun r => ofBool (r.label = 1))
  | .canaryAgreement => mean ((rows.filterMap (·.agree)).map ofBool)
  | .flagRate => mean (rows.map fun r => ofBool r.flag)
  | .usdPerCandidate => mean (rows.filterMap (·.usd))

/-- A `random.Random`: its coins, as `random() < 0.5`, a shuffle, and its choices of an index
below a bound. -/
structure Random where
  coin : Nat → Bool
  shuffle : List String → List String
  shuffle_perm : ∀ names, (shuffle names).Perm names
  choice : Nat → Nat → Nat
  choice_lt : ∀ draw bound, 0 < bound → choice draw bound < bound

structure Estimate (F : Type) where
  metric : MetricName
  a : Option F
  b : Option F
  diff : Option F
  ci : Option (F × F)
  se : Option F
  units : Nat
  groups : Nat
  resamples : Nat

def groupNames (pairs : List (ArmUnit F × ArmUnit F)) : List String :=
  sortedSet (pairs.map (·.1.group))

/-- One resample: repositories drawn with replacement, each under an identity of its own. -/
def resample (random : Random) (pairs : List (ArmUnit F × ArmUnit F)) (round : Nat) :
    List (ArmUnit F × ArmUnit F) :=
  let names := groupNames pairs
  (List.range names.length).flatMap fun draw =>
    let g := names[random.choice (round * names.length + draw) names.length]?.getD ""
    (pairs.filter (·.1.group = g)).map fun pair =>
      let name := toString draw ++ ":" ++ g
      ({ pair.1 with group := name }, { pair.2 with group := name })

def difference (metric : Metric) (pairs : List (ArmUnit F × ArmUnit F)) : Option F :=
  (metricValue metric (pairs.map (·.1))).bind fun a =>
    (metricValue metric (pairs.map (·.2))).map fun b => b - a

/-- `int(x)` of a number that is not negative. -/
def floor (x : F) : Nat := (-ceil (ofNat 0 - x)).toNat

def pairedBootstrap (random : Random) (pairs : List (ArmUnit F × ArmUnit F)) (metric : Metric)
    (resamples : Nat) (alpha : F) : Estimate F :=
  let names := groupNames pairs
  let rounds := if names = [] then 0 else resamples
  let values := ((List.range rounds).filterMap fun round =>
    difference metric (resample random pairs round)).insertionSort (· ≤ ·)
  let last := ofNat (values.length - 1)
  let centre := sum values / ofNat values.length
  { metric := metric.name
    a := metricValue metric (pairs.map (·.1))
    b := metricValue metric (pairs.map (·.2))
    diff := difference metric pairs
    ci :=
      if 2 ≤ values.length then
        (values[floor (alpha / ofNat 2 * last)]?).bind fun low =>
          (values[floor ((ofNat 1 - alpha / ofNat 2) * last)]?).map fun high => (low, high)
      else none
    se :=
      if 2 ≤ values.length then
        some (sqrt (sum (values.map fun v => (v - centre) * (v - centre)) / last))
      else none
    units := pairs.length, groups := names.length, resamples := values.length }

def lookOrder (random : Random) (groups : List String) : List String :=
  random.shuffle (sortedSet groups)

/-- The first `ceil(fraction * len(order))` repositories of an order. -/
def firstLook (fraction : F) (order : List String) : List String :=
  order.take (ceil (fraction * ofNat order.length)).toNat

structure Look (F : Type) where
  fraction : F
  groups : Nat
  boundary : F
  estimate : Estimate F
  z : Option F
  crossed : Bool

def look (estimate : List (ArmUnit F × ArmUnit F) → Estimate F) (fraction boundary : F)
    (taken : List String) (pairs : List (ArmUnit F × ArmUnit F)) : Look F :=
  let est := estimate (pairs.filter (·.1.group ∈ taken))
  let z := est.diff.bind fun diff => (est.se.filter (· ≠ ofNat 0)).map fun se => diff / se
  { fraction, boundary, groups := taken.length, estimate := est, z
    crossed := z.any (fun z => boundary ≤ z ∨ boundary ≤ ofNat 0 - z) ||
      (est.se = some (ofNat 0) && est.diff.any (· ≠ ofNat 0)) }

def looksIn (estimate : List (ArmUnit F × ArmUnit F) → Estimate F) (order : List String)
    (pairs : List (ArmUnit F × ArmUnit F)) : List (F × F) → List (Look F)
  | [] => []
  | (fraction, boundary) :: rest =>
    let taken := look estimate fraction boundary (firstLook fraction order) pairs
    taken :: if taken.crossed then [] else looksIn estimate order pairs rest

/-- `sequential_looks`, with the boundary of each look. -/
def sequentialLooks (random : Random) (estimate : List (ArmUnit F × ArmUnit F) → Estimate F)
    (looks : List (F × F)) (pairs : List (ArmUnit F × ArmUnit F)) : List (Look F) :=
  looksIn estimate (lookOrder random (pairs.map (·.1.group))) pairs looks

end Numbers

end OpenUltraSast.Learn.Experiments
