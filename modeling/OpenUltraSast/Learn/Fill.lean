import OpenUltraSast.Learn.Experiment

/-!
# Running a rule experiment

Every unit is decided once, by the program of its family, from stored responses only.
-/

namespace OpenUltraSast.Learn.Experiments

open Collections Programs Floats

def scoreArm : String := "score"

/-- `MISS_VERDICT`: what the units excluded for a response that is not stored are counted under. -/
def missVerdict : String := "replay_miss"

/-- The caller of a run that costs nothing: `zero_cost_caller`, whose meter lets no call through. -/
def zeroCost {M : Type} : Clients M := fun _ _ reply => ∃ reason, reply = .exhausted reason

/-- A rule experiment: the models of its families' programs, and whether the run is behind a meter
with zero ceilings. -/
structure RuleRun (M C F : Type) where
  experiment : Experiment M C F
  model : String → String
  metered : Bool := true

def Experiment.byGroup {M C F : Type} (e : Experiment M C F) : List Folds.Unit :=
  e.units.insertionSort fun u v =>
    toLex (u.group, toLex (u.family, u.unit)) ≤ toLex (v.group, toLex (v.family, v.unit))

def Experiment.checkedUnits {M C F : Type} (e : Experiment M C F) : Bool :=
  e.units.all (·.isUnder e.folds e.examples)

section Run
variable {M C F : Type} [DecidableEq M] [Floats F]
variable (round6 : F → F) (parse : String → List Nat → Option (Answer F))
variable (r : RuleRun M C F)

namespace RuleRun

/-- What a rule run asks for before its first unit: its kind, its meter, the registration, the units,
the programs and their model. -/
def admitted : Bool :=
  let e := r.experiment
  e.manifest.kind = "rule" && r.metered && e.registered && e.checkedUnits &&
    (e.manifest.families.all fun family => (e.program "A" family).isSome) &&
    (e.manifest.families.map r.model).eraseDups = [(e.terms scoreArm).model]

/-- `programs[unit.family].decide`. -/
def decide (unit : Folds.Unit) : Running M F (Decision F) :=
  let e := r.experiment
  match e.candidate unit, e.programOf "A" unit.family, e.foldOf unit with
  | some candidate, some program, some fold =>
    program.decide e.terms round6 parse candidate fold scoreArm "" e.manifest.foldSeed
  | _, _, _ => throw .raised

def outcome (unit : Folds.Unit) (decision : Option (Decision F)) : Outcome F :=
  { unit := unit.unit, group := unit.group, family := unit.family, label := unit.label
    pair := unit.pair, arm := scoreArm, replicate := 0, s := decision.map (·.s)
    verdict := decision.map (·.verdict), usd := some (ofNat 0)
    parseFailed := (decision.map (·.parseFailed)).getD 0 }

def decideStored (unit : Folds.Unit) : Running M F (Option (Decision F)) :=
  tryCatch (do return some (← r.decide round6 parse unit)) fun
    | .exhausted _ => return none
    | stop => throw stop

def runUnit (unit : Folds.Unit) : Running M F Unit := do
  let session ← get
  if ⟨scoreArm, unit.unit, 0⟩ ∈ session.have_ then
    modify fun session => { session with skipped := count session.skipped "already" }
  else
    let decision ← r.decideStored round6 parse unit
    ask (.putOutcome (outcome unit decision))
    modify fun session => match decision with
      | none => { session with skipped := count session.skipped missVerdict }
      | some _ => { session with decided := count session.decided scoreArm }

/-- `run_rule`. -/
def run : Running M F (RunSummary F) := do
  if !r.admitted then throw .raised
  let outcomes ← ask .outcomes
  modify fun session => { session with
    have_ := outcomes.map (·.id)
    decided := [(scoreArm, 0)], skipped := [("already", 0), (missVerdict, 0)] }
  r.experiment.byGroup.forM (r.runUnit round6 parse)
  let session ← get
  -- A call of the client voids the run.
  if (session.callers scoreArm).calls ≠ 0 then throw .raised
  let summary : RunSummary F :=
    { status := .done, units := r.experiment.units.length, decided := session.decided
      skipped := session.skipped
      spend := [(scoreArm, ⟨usd round6 r.experiment scoreArm session,
        (session.callers scoreArm).calls, (session.callers scoreArm).replayed⟩)] }
  ask (.putRun summary)
  return summary

end RuleRun

end Run

end OpenUltraSast.Learn.Experiments

/-!
## Filling an experiment

The responses that a run will ask for are asked for beforehand: every unit, selected arm, replicate
and sample, with a retry for an answer that does not parse.
-/

namespace OpenUltraSast.Learn.Experiments

open Collections Programs Floats

/-- `Request`: a response that a run will ask for. -/
structure FillRequest (M : Type) where
  family : String
  prompt : Prompt M
  temperature : ℚ
  sample : String

namespace FillRequest

variable {M F : Type} (request : FillRequest M) (terms : Terms F)

def retry : FillRequest M :=
  { request with temperature := 0, sample := request.sample ++ ":retry" }

def key : Key M :=
  keyOf (fun _ => terms) "fill" request.prompt.messages request.temperature request.sample

def ask [DecidableEq M] : Running M F String :=
  askCaller (fun _ => terms) "fill" "" request.prompt.messages request.temperature request.sample

end FillRequest

/-- Where the client of a fill comes from: there is none, its factory raises, or it is there. -/
inductive Supply where
  | none
  | broken
  | given
deriving DecidableEq

/-- What a fill is given: the experiment; the model of each arm's program for a family; the digest
and the prices of the parameters; the arms that are asked for, and those that are paid for where
none are; whether the budget and the prices are admitted; and the client. -/
structure Fill (M C F : Type) where
  experiment : Experiment M C F
  specModel : String → String → String
  params : String
  price : Usage → Option F
  arms : Option (List String) := none
  paidArms : List String := []
  dryRun : Bool := false
  affordable : Bool := true
  supply : Supply := .given

inductive FillStatus where
  | done
  | dryRun
  | unfinished
  | failed
deriving DecidableEq

structure FamilyCounts where
  units : Nat
  requests : Nat
  cached : Nat
  missing : Nat
  filled : Nat
  stillMissing : Nat
  conditionalRetries : Nat

/-- The report, without its estimates and its spend. -/
structure FillReport where
  arms : List String
  status : FillStatus
  families : List (String × FamilyCounts)

namespace Fill

variable {M C F : Type} (fill : Fill M C F)

/-- `selected`: each arm once. -/
def selected : List String :=
  (fill.arms.getD (if fill.experiment.manifest.kind = "rule" then ["A"] else fill.paidArms)).eraseDups

def scoring : List String :=
  if fill.experiment.manifest.kind = "rule" then fill.selected.take 1 else fill.selected

def repeats (arm : String) : Nat :=
  if fill.experiment.manifest.kind = "program" then fill.experiment.repeats arm else 1

def models : List String :=
  (fill.scoring.flatMap fun arm => fill.experiment.manifest.families.map (fill.specModel arm)).eraseDups

/-- What a fill checks before it prepares a request. -/
def admitted : Bool :=
  let e := fill.experiment
  (e.manifest.kind = "rule" || e.manifest.kind = "program") &&
    fill.selected ≠ [] && fill.selected.all (fun arm => (e.manifest.arms.lookup arm).isSome) &&
    fill.affordable && e.registered && e.checkedUnits &&
    fill.scoring.all fun arm => e.manifest.families.all fun family => (e.program arm family).isSome

def terms (model : String) : Terms F :=
  { client := true, model, params := fill.params, price := fill.price }

def armRequests (unit : Folds.Unit) (candidate : C) (arm : String) : Option (List (FillRequest M)) := do
  let e := fill.experiment
  let program ← e.programOf arm unit.family
  let fold ← e.foldOf unit
  let prepared ← prepareSamples program candidate fold e.manifest.foldSeed
  return (List.range (fill.repeats arm)).flatMap fun replicate =>
    prepared.map fun sample =>
      ⟨unit.family, sample.prompt, sample.temperature, salt replicate ++ sample.sample⟩

def unitRequests (unit : Folds.Unit) : Option (List (FillRequest M)) := do
  let candidate ← fill.experiment.candidate unit
  let perArm ← fill.scoring.mapM (fill.armRequests unit candidate)
  return perArm.flatten

def requests : Option (List (FillRequest M)) := do
  let perUnit ← fill.experiment.byGroup.mapM fill.unitRequests
  return perUnit.flatten

end Fill

abbrev Cells (M : Type) := List (String × List (Key M × FillRequest M))

section Fill
variable {M C F : Type} [DecidableEq M] (terms : Terms F)

/-- `result[family][key] = request`. -/
def Cells.put (cells : Cells M) (request : FillRequest M) : Cells M :=
  Dicts.set cells request.family
    (Dicts.set ((cells.lookup request.family).getD []) (request.key terms) request)

variable (parse : String → List Nat → Option (Answer F))

def unparsable (request : FillRequest M) (entry : Entry) : Bool :=
  (parse (entry.content.getD "") request.prompt.validLines).isNone

/-- `inventory`: the requests, and the retries of those whose response does not parse. -/
def inventory : List (FillRequest M) → Cells M → Running M F (Cells M)
  | [], cells => return cells
  | request :: rest, cells => do
    match ← cached (fun _ => terms) "fill" (request.key terms) with
    | some entry =>
      if unparsable parse request entry then
        inventory rest ((cells.put terms request).put terms request.retry)
      else inventory rest (cells.put terms request)
    | none => inventory rest (cells.put terms request)

def cachedKeys : List (Key M) → Running M F (List (Key M))
  | [] => return []
  | key :: rest => do
    let found ← cached (fun _ => terms) "fill" key
    let others ← cachedKeys rest
    return if found.isSome then key :: others else others

def Cells.empty (families : List String) : Cells M := Dicts.ofEntries (families.map (·, []))

def Cells.keys (cells : Cells M) : List (Key M) := cells.flatMap fun cell => Dicts.keys cell.2

def counts (fill : Fill M C F) (initially : List (Key M))
    (cell : String × List (Key M × FillRequest M)) : String × FamilyCounts :=
  let missing := cell.2.filter fun entry => entry.1 ∉ initially
  (cell.1,
    { units := fill.experiment.units.countP (·.family = cell.1)
      requests := cell.2.length
      cached := cell.2.length - missing.length
      missing := missing.length
      filled := 0
      stillMissing := missing.length
      conditionalRetries := missing.countP fun entry => !entry.2.sample.endsWith ":retry" })

def recount (initially finally_ : List (Key M)) (final : Cells M) (count : String × FamilyCounts) :
    String × FamilyCounts :=
  let keys := Dicts.keys ((final.lookup count.1).getD [])
  let cached := keys.filter (· ∈ finally_)
  (count.1, { count.2 with
    requests := keys.length
    filled := (cached.filter (· ∉ initially)).length
    stillMissing := keys.length - cached.length })

def askAll (requests : List (FillRequest M)) : Running M F Unit :=
  requests.forM fun request => do
    let content ← request.ask terms
    if (parse content request.prompt.validLines).isNone then
      let _ ← request.retry.ask terms
      return

def askMissing (supply : Supply) (requests : List (FillRequest M)) : Running M F FillStatus :=
  tryCatch
    (do
      if supply = .broken then throw .raised
      askAll terms parse requests
      return .done)
    fun
      | .exhausted _ => return .unfinished
      | _ => return .failed

/-- `fill_experiment`, from its requests on. -/
def fillRequests (fill : Fill M C F) (requests : List (FillRequest M)) : Running M F FillReport := do
  let initial ← inventory terms parse requests (.empty fill.experiment.manifest.families)
  let initially ← cachedKeys terms initial.keys
  let families := initial.map (counts fill initially)
  if fill.dryRun ∨ families.all (·.2.missing = 0) then
    return ⟨fill.selected, if fill.dryRun then .dryRun else .done, families⟩
  if fill.supply = .none then throw .raised
  let status ← askMissing terms parse fill.supply requests
  let final ← inventory terms parse requests (.empty fill.experiment.manifest.families)
  let finally_ ← cachedKeys terms final.keys
  return ⟨fill.selected, status, families.map (recount initially finally_ final)⟩

def fillExperiment (fill : Fill M C F) : Running M F FillReport :=
  match fill.admitted, fill.requests, fill.models with
  | true, some requests, [model] => fillRequests (fill.terms model) parse fill requests
  | _, _, _ => throw .raised

end Fill

end OpenUltraSast.Learn.Experiments
