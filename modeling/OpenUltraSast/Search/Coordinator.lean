import OpenUltraSast.Library.Programs
import OpenUltraSast.Search.Board
import OpenUltraSast.Search.Checkpoints

/-!
# The coordinator

The driver of a search. It reads a clock, commits the board, reserves from the budget of
the push and has tasks executed; each of these is a request to the world, and the process
may end between any two of them.
-/

namespace OpenUltraSast.Search

open Values Programs

inductive Lane where
  | ax
  | docker
deriving DecidableEq

structure Task where
  id : String
  step : Step
  snapshot : String
  payload : Payload
  wallSeconds : ℚ
  lane : Lane

/-- What an executor does: raise, raise `BudgetExhausted`, or return a value. -/
inductive Outcome where
  | raised
  | exhausted (endDetail : String)
  | returned (result : Json)

/-- What the coordinator asks of the world. -/
inductive Request where
  | now
  | commit (board : Board)
  | snapshot
  | pushReserve (amount : ℚ)
  | pushSettle (amount : ℚ)
  | execute (task : Task)

/-- A commit or a snapshot may fail, and a reservation may be refused. -/
def Request.Answer : Request → Type
  | now => ℚ
  | commit _ => Bool
  | snapshot => Option String
  | pushReserve _ => Bool
  | pushSettle _ => Unit
  | execute _ => Outcome

/-- How a step of the coordinator is left: with `BudgetExhausted`, or with another
exception that ends the process's run. -/
inductive Stop where
  | exhausted (endDetail : String)
  | raised

/-- The coordinator's objects: its copy of the board, the board as committed, its progress
and its meter. -/
structure Memory where
  state : Board
  committed : Board
  progress : Progress
  meter : SpendBudget

abbrev Coordination := Piece Request Request.Answer Stop Memory

def ask (request : Request) : Coordination request.Answer := Piece.ask request

def clock : Coordination ℚ := ask .now

/-- `Board.commit` of the coordinator's copy. -/
def commit (board : Board) : Coordination Bool := ask (.commit board)

def execute (task : Task) : Coordination Outcome := ask (.execute task)

def pushReserve (amount : ℚ) : Coordination Bool := ask (.pushReserve amount)

def pushSettle (amount : ℚ) : Coordination Unit := ask (.pushSettle amount)

def modifyProgress (change : Progress → Progress) : Coordination Unit :=
  modify fun memory => { memory with progress := change memory.progress }

def modifyState (change : Board → Board) : Coordination Unit :=
  modify fun memory => { memory with state := change memory.state }

structure Result where
  fields : List (String × Json)
  taskId : String

namespace Result

def get (result : Result) (key : String) : Option Json := result.fields.lookup key

def hasStatus (result : Result) (status : String) : Bool :=
  ((result.get "status").map (Json.isStr status)).getD false

/-- `result.get("budget_exhaustion")` is true. -/
def exhausted (result : Result) : Bool := ((result.get "budget_exhaustion").map Json.truthy).getD false

end Result

section
variable (budget : SearchBudget) (loads : String → Option Json) (decimal : String → Option ℚ)
  (tokens : String → List String)

def save : Coordination Unit := do
  let now ← clock
  modifyProgress fun progress => { progress with wallSeconds := max 0 (now - progress.startedAt) }
  modify fun memory => { memory with
    state := { memory.state with checkpoint := some memory.progress } }
  let memory ← get
  if ← commit memory.state then
    modify fun memory => { memory with committed := memory.state }
  else throw .raised

def endDetails : List String :=
  ["spend", "task_spend", "reason_rounds", "demonstrations", "tasks", "task_wall", "search_wall",
    "worker_steps", "worker_wall", "run_ceiling"]

/-- `_end`. -/
def finish (reason : String) (endDetail : Option String := none) : Coordination Unit := do
  if reason = "budget_spent" ∧ endDetail.all (· ∉ endDetails) then throw .raised
  modifyState fun state => { state with endReason := some reason, endDetail := endDetail }
  save

def remaining : Coordination ℚ := do
  let now ← clock
  let memory ← get
  return budget.wallSeconds - max 0 (now - memory.progress.startedAt)

/-- `_snapshot`: the committed board as text. -/
def snapshot : Coordination String := do
  let _ ← remaining budget
  let text : Option String ← ask .snapshot
  match text with
  | some text => return text
  | none => throw .raised

def updateIntent (id : String) (change : Intent → Intent) : List Intent → List Intent
  | [] => []
  | intent :: rest =>
    if intent.id = id then change intent :: rest else intent :: updateIntent id change rest

def taskId (number : Nat) : String := "task-" ++ toString number

/-- The reservation is charged to the meter, in full or with the reported cost; whether
the executor kept its contract. -/
def charge (maximum : ℚ) (actual : Option ℚ) : Coordination Bool := do
  let memory ← get
  match actual.bind (memory.meter.settle maximum) with
  | some meter =>
    set { memory with meter }
    pushSettle (actual.getD maximum)
    return true
  | none =>
    match memory.meter.settle maximum maximum with
    | none => throw .raised
    | some meter =>
      set { memory with meter }
      pushSettle maximum
      return false

def SearchBudget.maximum (budget : SearchBudget) (step : Step) : ℚ :=
  if step = .verify then 0 else budget.maxCallUsd

/-- `SearchTask(...)` with a snapshot; its id is checked as a search id is. -/
def searchTask (id : String) (step : Step) (payload : Payload) (wall : ℚ) (lane : Lane) :
    Coordination Task := do
  let text ← snapshot budget
  if !Checkpoints.isSearchId id then throw .raised
  return ⟨id, step, text, payload, wall, lane⟩

/-- The beginning of a call, up to the durable record of it. -/
def prepare (step : Step) (payload : Payload) (lane : Lane) : Coordination Task := do
  let left ← remaining budget
  let memory ← get
  if left ≤ budget.cleanupSeconds then throw (.exhausted "search_wall")
  if memory.progress.tasks ≥ budget.tasks then throw (.exhausted "tasks")
  let maximum := budget.maximum step
  match memory.meter.reserve maximum with
  | none => throw (.exhausted "spend")
  | some meter => set { memory with meter }
  if !(← pushReserve maximum) then
    set memory
    throw (.exhausted "run_ceiling")
  let id := taskId (memory.progress.tasks + 1)
  let wall := min budget.taskWallSeconds (left - budget.cleanupSeconds)
  let task ← searchTask budget id step payload wall lane
  -- A crash after this durable write may have spent the whole allowance.
  modify fun memory => { memory with
    progress := { memory.progress with
      tasks := memory.progress.tasks + 1
      pending := some ⟨id, step, payload⟩
      spentUsd := memory.meter.spent + maximum } }
  if let .intent intent _ := payload then
    if memory.state.intents.all (·.id ≠ intent) then throw .raised
    let claim := fun intent : Intent => { intent with status := .claimed, claimant := some id }
    modifyState fun state => { state with intents := updateIntent intent claim state.intents }
  save
  let text ← snapshot budget
  return { task with snapshot := text }

def retried (result : Result) : Bool :=
  result.hasStatus "sandbox_failure" || result.hasStatus "oom" ||
    result.hasStatus "instrument_failure"

def settleCall (task : Task) (dispatchedAt : ℚ) (value : Json) : Coordination (Option Result) := do
  let maximum := budget.maximum task.step
  let fields := match value with
    | .obj fields => fields
    | _ => [("status", .str "invalid_result")]
  let actual := match fields.lookup "cost_usd" with
    | none => some maximum
    | some cost => amount decimal cost
  let kept ← charge maximum actual
  let result : Result :=
    ⟨if kept then fields else [("status", .str "invalid_cost")], task.id⟩
  modify fun memory => { memory with
    progress := { memory.progress with spentUsd := memory.meter.spent, pending := none } }
  if result.hasStatus "invalid_cost" then throw (.exhausted "task_spend")
  let left ← remaining budget
  if left ≤ 0 then
    let still ← remaining budget
    throw (.exhausted (if still ≤ 0 then "search_wall" else "task_wall"))
  let now ← clock
  if now - dispatchedAt > task.wallSeconds then
    let still ← remaining budget
    throw (.exhausted (if still ≤ 0 then "search_wall" else "task_wall"))
  let memory ← get
  if retried result && memory.progress.retries < budget.retries then
    modifyProgress fun progress => { progress with retries := progress.retries + 1 }
    return none
  if task.step = .reason then
    modifyProgress fun progress => { progress with reasonCompleted := progress.reasonCompleted + 1 }
  return some result

def attempt (step : Step) (payload : Payload) (lane : Lane) : Coordination (Option Result) := do
  let task ← prepare budget step payload lane
  let dispatchedAt ← clock
  match ← execute task with
  | .raised =>
    let _ ← charge (budget.maximum step) none
    throw .raised
  | .exhausted endDetail =>
    let _ ← charge (budget.maximum step) none
    throw (.exhausted endDetail)
  | .returned value => settleCall budget decimal task dispatchedAt value

/-- The loop of `_call`; each round but the last is a counted retry. -/
def callLoop (step : Step) (payload : Payload) : Nat → Lane → Coordination Result
  | 0, _ => throw .raised
  | left + 1, lane => do
    match ← attempt budget decimal step payload lane with
    | some result => return result
    | none => callLoop step payload left .docker

def call (step : Step) (payload : Payload) : Coordination Result :=
  callLoop budget decimal step payload (budget.retries + 1) .ax

/-- The value of `budget_exhaustion`; a value with no keys has no `get`. -/
def exhaustion (result : Result) : Coordination (List (String × Json)) :=
  match result.get "budget_exhaustion" with
  | none => return []
  | some (.obj fields) => return fields
  | some _ => throw .raised

/-- `result.get("budget_exhaustion", {}).get("end_detail") == "task_spend"`. -/
def taskSpend (result : Result) : Coordination Bool := do
  let fields ← exhaustion result
  return ((fields.lookup "end_detail").map (Json.isStr "task_spend")).getD false

/-- `_end("budget_spent", result["budget_exhaustion"]["end_detail"])`. -/
def finishExhausted (result : Result) : Coordination Unit := do
  let fields ← exhaustion result
  match fields.lookup "end_detail" with
  | some (.str endDetail) => finish "budget_spent" (some endDetail)
  | _ => throw .raised

/-- `_refs`: a list of strings, none of them empty, and at least one. -/
def refs : Option Json → Option (List String)
  | some (.arr items) =>
    let texts := items.filterMap fun
      | .str text => if text = "" then none else some text
      | _ => none
    if items ≠ [] ∧ texts.length = items.length then some texts else none
  | _ => none

def addFailure (failure : Failure) : Coordination Unit :=
  modifyProgress fun progress => { progress with failures := progress.failures ++ [failure] }

/-- More than three fifths of the first text's words are in the second. -/
def overlaps (tokens : String → List String) (text other : String) : Bool :=
  let words := tokens text
  words ≠ [] && 5 * (words.bagInter (tokens other)).length > 3 * words.length

/-- What the loop of `_admit_intents` has changed. -/
structure Admission where
  intents : List Intent
  rejections : List Failure := []
  added : Nat := 0

def admitProposal (known : List String) (taskId : String) (admission : Admission) :
    Json → Admission
  | .obj fields =>
    match fields.lookup "description", (fields.lookup "from_facts").getD (.arr []) with
    | some (.str description), .arr items =>
      let facts := items.filterMap fun
        | .str fact => if fact ∈ known then some fact else none
        | _ => none
      if Text.isBlank description || facts.length ≠ items.length then admission
      else
        let concluded := admission.intents.find? fun intent =>
          intent.status = .concluded && overlaps tokens description intent.description
        match concluded with
        | some intent =>
          { admission with rejections := admission.rejections ++
              [⟨taskId, "duplicate_intent", some (description, intent.id)⟩] }
        | none =>
          if description ∈ admission.intents.map (·.description) then admission
          else
            let intent : Intent :=
              { id := taskId ++ "-intent-" ++ toString (admission.added + 1)
                description, fromFacts := facts, status := .opened, claimant := none
                step := "reason", taskId }
            { admission with
              intents := admission.intents ++ [intent], added := admission.added + 1 }
    | _, _ => admission
  | _ => admission

/-- `_admit_intents`: the proposals are admitted; whether one was rejected. -/
def admitIntents (result : Result) : Coordination Bool := do
  match (result.get "intents").getD (.arr []) with
  | .arr proposals =>
    if !result.hasStatus "ok" || proposals.length > budget.intentsPerRound then return false
    let memory ← get
    let known := memory.state.facts.map (·.id)
    let admission := proposals.foldl (admitProposal tokens known result.taskId)
      { intents := memory.state.intents }
    modifyState fun state => { state with intents := admission.intents }
    modifyProgress fun progress => { progress with
      failures := progress.failures ++ admission.rejections
      duplicateRejections := admission.rejections }
    return !admission.rejections.isEmpty
  | _ => return false

/-- After a verify or an explore call: end if the result says that a limit is reached. -/
def roundEnd (result : Result) : Coordination Bool := do
  if result.exhausted then
    let spent ← taskSpend result
    if !spent then
      finishExhausted result
      return false
  save
  return true

def servedRoot : String :=
  "The application did not serve the oracle root: its served-directory configuration " ++
    "(argument, environment variable, or config file) must be set to the $\x7bserved_root\x7d " ++
    "placeholder itself, not a real path or an explore-time test directory."

def verifyRound (fact : Fact) (demo : String) : Coordination Bool := do
  let memory ← get
  if memory.progress.demonstrations ≥ budget.demonstrations then
    finish "budget_spent" (some "demonstrations")
    return false
  modifyProgress fun progress => { progress with demonstrations := progress.demonstrations + 1 }
  let result ← call budget decimal .verify
    (.demo fact.id demo (candidate loads memory.committed.hints).family fact.oracle)
  modifyProgress fun progress => { progress with verified := progress.verified ++ [fact.id] }
  let demonstrated := ((result.get "outcome").map (Json.isStr "demonstrated")).getD false
  match refs (result.get "evidence_refs") with
  | some evidence =>
    if result.hasStatus "ok" && demonstrated then
      let verified : Fact :=
        { id := "verified-" ++ result.taskId, text := "Differential demonstrated"
          evidenceRefs := evidence, fromIntents := fact.fromIntents, step := "verify"
          taskId := result.taskId }
      modifyState fun state => { state with facts := state.facts ++ [verified] }
      finish "goal_met"
      return false
  | none => pure ()
  addFailure ⟨result.taskId, "not_demonstrated", none⟩
  let memory ← get
  let unserved := match result.get "control_observed" with
    | some (.bool false) => true
    | _ => false
  if unserved && memory.state.hints.all (·.id ≠ "served-root") then
    modifyState fun state => { state with
      hints := state.hints ++ [⟨"served-root", "verify", result.taskId, servedRoot⟩] }
  roundEnd result

def reportedFact (intent : Intent) (result : Result) : Option Fact :=
  match result.get "fact" with
  | some (.obj fields) =>
    match fields.lookup "text", refs (fields.lookup "evidence_refs") with
    | some (.str text), some evidence =>
      if result.hasStatus "ok" && text ≠ "" then
        let demo := match fields.lookup "demo" with
          | some (.str demo) => if demo = "" then none else some demo
          | _ => none
        some { id := "fact-" ++ result.taskId, text, evidenceRefs := evidence
               fromIntents := [intent.id], step := "explore", taskId := result.taskId
               demo, oracle := demo.bind fun _ => fields.lookup "oracle" }
      else none
    | _, _ => none
  | _ => none

def exploreFailure (result : Result) : Json :=
  let reported := (result.get "failure").filter Json.truthy
  reported.getD (if result.hasStatus "ok" then .str "invalid_result"
    else (result.get "status").getD (.str "execution_failure"))

def exploreRound (intent : Intent) : Coordination Bool := do
  let result ← call budget decimal .explore (.intent intent.id intent.description)
  let concluded := fun intent : Intent => { intent with status := .concluded }
  match reportedFact intent result with
  | some fact =>
    modifyState fun state => { state with
      facts := state.facts ++ [fact]
      intents := updateIntent intent.id concluded state.intents }
  | none =>
    let failed := fun intent : Intent =>
      { intent with status := .concluded, failure := some (exploreFailure result) }
    modifyState fun state => { state with
      intents := updateIntent intent.id failed state.intents }
  let spent ← taskSpend result
  if spent then addFailure ⟨result.taskId, "task_spend", none⟩
  roundEnd result

def refused (result : Result) : Bool :=
  result.hasStatus "ok" && !((result.get "intents").map Json.truthy).getD false &&
    (result.get "complete").isNone

def proposeReminder : String :=
  "No intents are open. You MUST propose 1-3 independent new intents, " ++
    "or cite facts containing a complete demo. An empty reply is a refusal."

def duplicateReminder : String :=
  "duplicate_intent: choose a new direction; see snapshot rejections."

/-- The proposals of a reason result are admitted, and after a rejection asked for once
more; the last result, or nothing if the search ended. -/
def admitRound (result : Result) : Coordination (Option Result) := do
  let rejected ← admitIntents budget tokens result
  if !rejected then return some result
  save
  let again ← call budget decimal .reason (.reminder duplicateReminder)
  if again.exhausted then
    let spent ← taskSpend again
    if spent then return some again
    finishExhausted again
    return none
  let _ ← admitIntents budget tokens again
  return some again

def spentRound (result : Result) : Coordination Bool := do
  addFailure ⟨result.taskId, "task_spend", none⟩
  save
  return true

/-- With nothing else to do, new intents are asked for. -/
def reasonRound : Coordination Bool := do
  let memory ← get
  if memory.progress.rounds ≥ budget.reasonRounds then
    finish "budget_spent" (some "reason_rounds")
    return false
  modifyProgress fun progress => { progress with rounds := progress.rounds + 1 }
  let first ← call budget decimal .reason .empty
  let result ← if refused first then
      call budget decimal .reason (.reminder proposeReminder)
    else pure first
  if refused first && refused result then
    addFailure ⟨result.taskId, "reason_refused", none⟩
    finish "reason_refused"
    return false
  let spent ← taskSpend result
  if spent then return ← spentRound result
  if result.exhausted then
    finishExhausted result
    return false
  match ← admitRound budget decimal tokens result with
  | none => return false
  | some result =>
    let spent ← taskSpend result
    if spent then return ← spentRound result
    let memory ← get
    if memory.state.intents.all (·.status ≠ .opened) then
      finish "exhausted"
      return false
    roundEnd result

def nextDemo (memory : Memory) : Option (Fact × String) :=
  memory.state.facts.findSome? fun fact =>
    match fact.demo with
    | some demo =>
      if demo ≠ "" ∧ fact.id ∉ memory.progress.verified then some (fact, demo) else none
    | none => none

/-- The body of the loop of `run`; whether it goes round again. -/
def round : Coordination Bool := do
  let left ← remaining budget
  if left ≤ budget.cleanupSeconds then
    finish "budget_spent" (some "search_wall")
    return false
  try
    let memory ← get
    match nextDemo memory, memory.state.intents.find? (·.status = .opened) with
    | some (fact, demo), _ => verifyRound budget loads decimal fact demo
    | none, some intent => exploreRound budget decimal intent
    | none, none => reasonRound budget decimal tokens
  catch stop =>
    match stop with
    | .exhausted endDetail =>
      finish "budget_spent" (some endDetail)
      pure false
    | .raised => throw .raised

def bootstrapIntent (function file : String) : Intent :=
  { id := "bootstrap"
    description := "Read the candidate function " ++ function ++ " in " ++ file ++ ", the code " ++
      "that calls it, and how the application is started and reached from outside; report the " ++
      "entry point, the route or CLI path to the candidate, and the inputs that reach it."
    fromFacts := [], status := .opened, claimant := none, step := "bootstrap"
    taskId := "coordinator" }

/-- An interrupted task is recorded as failed. -/
def recover (pending : Pending) : Coordination Unit := do
  addFailure ⟨pending.id, "interrupted", none⟩
  modifyState fun state => { state with
    intents := state.intents.map fun intent =>
      if intent.claimant = some pending.id then
        { intent with status := .concluded, failure := some (.str "interrupted") }
      else intent }
  modifyProgress fun progress => { progress with
    verified := match pending.payload with
      | .demo fact _ _ _ => progress.verified ++ [fact]
      | _ => progress.verified
    pending := none }
  save

/-- What `run` does before its loop; whether the loop is entered. -/
def prologue : Coordination Bool := do
  let memory ← get
  if memory.state.endReason.any (· ≠ "") then return false
  let candidate := candidate loads memory.committed.hints
  match candidate.file, candidate.function with
  | some file, some function =>
    if memory.progress.tasks = 0 ∧ memory.state.intents = [] ∧ file ≠ "" ∧ function ≠ "" then
      modifyState fun state => { state with
        intents := state.intents ++ [bootstrapIntent function file] }
      save
  | _, _ => pure ()
  let memory ← get
  match memory.progress.pending with
  | some pending => recover pending
  | none => pure ()
  return true

/-- A piece of the coordinator as a program of the host: it goes round again with its
memory, or the process's run is over. -/
def toProgram (piece : Coordination Bool) (memory : Memory) :
    Program Request Request.Answer (Option Memory) :=
  (piece memory).bind fun
    | (.ok true, memory) => .done (some memory)
    | _ => .done none

/-- `Coordinator.__init__`: a checkpoint is gone on from. -/
def Memory.load (board : Board) (now : ℚ) : Memory :=
  let progress := board.checkpoint.getD { startedAt := now }
  { state := board, committed := board, progress
    meter := { cap := budget.spendUsd, spent := progress.spentUsd } }

/-- A coordinator is made on the committed board, unless it is overspent, and run. -/
def startUp (board : Board) : Program Request Request.Answer (Option Memory) :=
  Program.ask .now fun now =>
    let memory := Memory.load budget board now
    if memory.meter.spent > memory.meter.cap then .done none
    else toProgram (prologue loads) memory

end

structure Dispatch where
  task : Task
  cost : ℚ
  outcome : Outcome

structure World where
  durable : Board
  log : List Dispatch := []

/-- A commit that succeeds is durable; no commit succeeds after the end. A dispatch is in the
log, with all it will cost, from when it begins. -/
def answers : Answers Request Request.Answer World
  | .now, _, before, after => after = before
  | .commit board, committed, before, after =>
    (committed = true ∧ before.durable.endReason = none ∧
      after = { before with durable := board }) ∨ (committed = false ∧ after = before)
  | .snapshot, _, before, after => after = before
  | .pushReserve _, _, before, after => after = before
  | .pushSettle _, _, before, after => after = before
  | .execute task, outcome, before, after =>
    ∃ cost, after = { before with log := before.log ++ [⟨task, cost, outcome⟩] }

def Unsearched (world : World) : Prop := world.durable.checkpoint = none ∧ world.log = []

abbrev SearchRun (budget : SearchBudget) (loads : String → Option Json)
    (decimal : String → Option ℚ) (tokens : String → List String) :
    Host Request Request.Answer World Memory → Prop :=
  HostRun answers (fun world => startUp budget loads world.durable)
    (toProgram (round budget loads decimal tokens)) Unsearched

end OpenUltraSast.Search
