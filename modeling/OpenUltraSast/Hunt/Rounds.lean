import Mathlib.Data.String.Basic
import OpenUltraSast.Library.Dicts
import OpenUltraSast.Library.Rounding

/-!
# Rounds of the hunt

The records of the current program and of a candidate over the same changes and repeats, and the
paired comparison of both for all changes and for each family.
-/

namespace OpenUltraSast.Hunt.Rounds

open Collections Dicts Quantile

inductive Kind where
  | vulnerability
  | ordinary
deriving DecidableEq

abbrev Span := Int × Int

structure File where
  path : String
  headLines : List Span
  functionLines : Option Span := none
deriving DecidableEq

structure Change where
  id : String
  repo : String
  kind : Kind
  family : String
  fold : Option Nat
  path : Option String := none
  function : String := ""
  functionLines : Option Span := none
  files : List File := []
deriving DecidableEq

structure Defect where
  family : String
  function : String := ""
  locations : List (String × Int)
deriving DecidableEq

structure Record where
  id : String
  programId : String
  mask : List String
  inputDigest : String
  status : String
  done : Bool
  parseFailed : Bool
  defects : List Defect

structure Study where
  programId : String
  mask : List String
  repeats : Nat
  changes : List Change

/-- The directory of one program: its study if it has one, the numbers of its subdirectories, and
the record of each change and repeat. -/
structure Arm where
  study : Option Study
  directories : List Nat
  record : String → Nat → Option Record

/-- A location of a defect. -/
structure Finding where
  family : String
  function : String
  path : String
  line : Int

def findings (defects : List Defect) : List Finding :=
  defects.flatMap fun defect =>
    defect.locations.map fun place => ⟨defect.family, defect.function, place.1, place.2⟩

/-- `_location_match(change, finding, tolerance)`. -/
def locationMatch (change : Change) (finding : Finding) (tolerance : Int) : Bool :=
  change.files.any fun file =>
    finding.path = file.path &&
      (file.headLines.any (fun span =>
          span.1 - tolerance ≤ finding.line && finding.line ≤ span.2 + tolerance) ||
        (change.family ≠ "config_secrets" && file.path = change.path.getD file.path &&
          ((change.function ≠ "" && change.function ≠ "<global>" &&
              finding.function = change.function) ||
            (change.functionLines.or file.functionLines).any fun span =>
              span.1 ≤ finding.line && finding.line ≤ span.2)))

/-- Whether a positive site is caught, as `search_outcome` says it. -/
def searchHit (change : Change) (found : List Finding) (tolerance : Int) : Bool :=
  change.kind = .vulnerability && found.any fun finding =>
    finding.family = change.family && locationMatch change finding tolerance

structure Outcome where
  defects : List Defect
  hit : Bool
  instrumentFailures : Nat
  parseFailures : Nat
  missingRecords : Nat

def counted : Option Record → List Defect
  | none => []
  | some record =>
    if !record.done || record.status = "instrument_failure" || record.parseFailed then []
    else record.defects

/-- `_outcome(record, change, tolerance)`. -/
def outcome (record : Option Record) (change : Change) (tolerance : Int) : Outcome where
  defects := counted record
  hit := searchHit change (findings (counted record)) tolerance
  instrumentFailures := (record.any (·.status = "instrument_failure")).toNat
  parseFailures := (record.any (·.parseFailed)).toNat
  missingRecords := record.isNone.toNat

structure Paired where
  change : Change
  repeat_ : Nat
  a : Outcome
  b : Outcome

structure Row where
  repo : String
  a : ℚ
  b : ℚ

structure Estimate where
  a : Option ℚ
  b : Option ℚ
  diff : Option ℚ
  ci : Option (ℚ × ℚ)
  units : Nat
  groups : Nat
  resamples : Nat

def mean (values : List ℚ) : Option ℚ :=
  if values = [] then none else some (values.sum / values.length)

structure Generator where
  choice : List String → Nat → List String
  length : ∀ names draw, (choice names draw).length = names.length
  among : ∀ names draw, ∀ name ∈ choice names draw, name ∈ names

def alpha : ℚ := 1 / 20

def quantiles (values : List ℚ) : ℚ × ℚ :=
  let sorted := values.insertionSort (· ≤ ·)
  (quantile sorted (alpha / 2), quantile sorted (1 - alpha / 2))

def clusterResample (generator : Generator) (rows : List Row) (draw : Nat) : List Row :=
  (generator.choice (sortedSet (rows.map (·.repo))) draw).flatMap fun name =>
    rows.filter (·.repo = name)

/-- The mean of `b` minus the mean of `a`. -/
def difference (rows : List Row) : Option ℚ :=
  (mean (rows.map (·.a))).bind fun a => (mean (rows.map (·.b))).map fun b => b - a

/-- `paired_bootstrap(rows, "repo", "a", "b", ...)`. -/
def pairedBootstrap (generator : Generator) (resamples : Nat) (rows : List Row) : Estimate :=
  let values := (List.range (if rows = [] then 0 else resamples)).filterMap fun draw =>
    difference (clusterResample generator rows draw)
  { a := mean (rows.map (·.a)), b := mean (rows.map (·.b)), diff := difference rows
    ci := if 2 ≤ values.length then some (quantiles values) else none
    units := rows.length, groups := (sortedSet (rows.map (·.repo))).length
    resamples := values.length }

def families (units : List Paired) : List String :=
  sortedSet ((units.map (·.change.family) ++
    units.flatMap fun unit => (unit.a.defects ++ unit.b.defects).map (·.family)).filter (· ≠ ""))

def positives (units : List Paired) (family : Option String) : List Paired :=
  units.filter fun unit =>
    unit.change.kind = .vulnerability && family.all (unit.change.family = ·)

def ordinaries (units : List Paired) : List Paired :=
  units.filter (·.change.kind = .ordinary)

def suspicions (family : Option String) (outcome : Outcome) : Nat :=
  outcome.defects.countP fun defect => family.all (defect.family = ·)

def recallRow (unit : Paired) : Row := ⟨unit.change.repo, unit.a.hit.toNat, unit.b.hit.toNat⟩

def suspicionRow (family : Option String) (unit : Paired) : Row :=
  ⟨unit.change.repo, suspicions family unit.a, suspicions family unit.b⟩

/-- `_paired(units, family, ...)`. -/
def paired (generator : Generator) (resamples : Nat) (units : List Paired) (family : Option String) :
    Estimate × Estimate :=
  (pairedBootstrap generator resamples ((positives units family).map recallRow),
    pairedBootstrap generator resamples ((ordinaries units).map (suspicionRow family)))

inductive Scope where
  | compile
  | holdout
deriving DecidableEq

structure FoldResult where
  scope : Scope
  family : String
  recall_ : Estimate
  suspicionsPerPush : Estimate

section Fold
variable (inputDigest : Change → String → List String → String)

/-- The changes of an analysis are those of the saved study, which knows their folds. -/
def checkStudy (changes : List Change) (study : Study) : Except String Unit :=
  if changes.all fun change =>
    match study.changes.reverse.find? (·.id = change.id) with
    | none => false
    | some saved => { change with fold := change.fold.or saved.fold } = saved
  then .ok () else .error "analysis changes differ from the saved study"

def checkRecord (study : Option Study) (change : Change) (record : Option Record) :
    Except String Unit :=
  match study, record with
  | some study, some record =>
    match study.changes.find? (·.id = change.id) with
    | none => .error "StopIteration"
    | some saved =>
      if record.id = change.id ∧ record.programId = study.programId ∧
          sortedSet record.mask = sortedSet study.mask ∧
          record.inputDigest = inputDigest saved study.programId study.mask then .ok ()
      else .error "record does not match the saved change, program or mask"
  | _, _ => .ok ()

def Arm.repeats (arm : Arm) : List Nat :=
  match arm.study with
  | some study => List.range study.repeats
  | none => arm.directories

def repeats (current candidate : Arm) : List Nat :=
  let all := sortedSet (current.repeats ++ candidate.repeats)
  if all = [] then [0] else all

def pairUnit (current candidate : Arm) (tolerance : Int) (change : Change) (number : Nat) :
    Except String Paired := do
  let a := current.record change.id number
  checkRecord inputDigest current.study change a
  let b := candidate.record change.id number
  checkRecord inputDigest candidate.study change b
  .ok ⟨change, number, outcome a change tolerance, outcome b change tolerance⟩

/-- What is refused before a record is read. -/
def checkInputs (current candidate : Option Study) (changes : List Change) (tolerance : Int)
    (resamples : Nat) : Except String Unit := do
  if tolerance < 0 ∨ resamples < 2 then
    .error "tolerance must be non-negative and resamples at least two"
  else if ¬ (changes.map (·.id)).Nodup then .error "change IDs must be unique"
  else
    current.toList.forM (checkStudy changes)
    candidate.toList.forM (checkStudy changes)
    match current, candidate with
    | some a, some b =>
      if a.repeats ≠ b.repeats then .error "paired studies must have the same repeats" else .ok ()
    | _, _ => .ok ()

def unitKeys (current candidate : Arm) (changes : List Change) : List (Change × Nat) :=
  changes.flatMap fun change => (repeats current candidate).map fun number => (change, number)

def pairUnits (current candidate : Arm) (changes : List Change) (tolerance : Int) (resamples : Nat) :
    Except String (List Paired) := do
  checkInputs current.study candidate.study changes tolerance resamples
  (unitKeys current candidate changes).mapM fun key =>
    pairUnit inputDigest current candidate tolerance key.1 key.2

/-- The result of each family; `pooled` stands for all. -/
def familyResults (generator : Generator) (resamples : Nat) (scope : Scope) (units : List Paired) :
    List (String × FoldResult) :=
  ofEntries (("pooled" :: families units).map fun family =>
    let (recall_, suspicions) :=
      paired generator resamples units (if family = "pooled" then none else some family)
    (family, ⟨scope, family, recall_, suspicions⟩))

/-- `fold_results(current_dir, candidate_dir, changes, ...)`. -/
def foldResults (generator : Generator) (current candidate : Arm) (changes : List Change)
    (scope : Scope) (tolerance : Int) (resamples : Nat) : Except String (List (String × FoldResult)) := do
  let units ← pairUnits inputDigest current candidate changes tolerance resamples
  .ok (familyResults generator resamples scope units)

end Fold

end OpenUltraSast.Hunt.Rounds
