import OpenUltraSast.Library.Programs
import OpenUltraSast.Learn.Estimates

/-!
# Callers and programs

Every model call of a program goes through a caller, which stores each response under its request and
replays it.
-/

namespace OpenUltraSast.Learn.Experiments

open Programs Floats
open Evaluate (Verdict)

/-- The arguments of `client.complete`; `M` are the messages. -/
structure Call (M : Type) where
  model : String
  messages : M
  temperature : ℚ
  jsonObject : Bool
deriving DecidableEq

/-- What `request_key` hashes; it stands for its hash. -/
structure Key (M : Type) where
  call : Call M
  params : String
  sample : String
deriving DecidableEq

structure Usage where
  promptTokens : Int := 0
  promptCacheHitTokens : Int := 0
  completionTokens : Int := 0
deriving DecidableEq

def Usage.add (a b : Usage) : Usage :=
  { promptTokens := a.promptTokens + b.promptTokens
    promptCacheHitTokens := a.promptCacheHitTokens + b.promptCacheHitTokens
    completionTokens := a.completionTokens + b.completionTokens }

/-- A stored response. -/
structure Entry where
  content : Option String
  model : String
  usage : Usage := {}
deriving DecidableEq

/-- What a client does: respond, with its usage for the call, raise `BudgetExhausted`, or raise. -/
inductive Reply where
  | responded (content : Option String) (usage : Usage)
  | exhausted (reason : String)
  | failed

inductive Status where
  | done
  | unfinished
  | stopped
deriving DecidableEq

/-- What an arm's caller has used. -/
structure Spend (F : Type) where
  usd : Option F
  clientCalls : Nat
  replayed : Nat

structure RunSummary (F : Type) where
  status : Status
  units : Nat
  decided : List (String × Nat)
  skipped : List (String × Nat)
  spend : List (String × Spend F)
  stoppedAtLook : Option Nat := none
  reason : String := ""

/-- What a run asks of the store and of the clients of its callers. -/
inductive Request (M F : Type) where
  | response (key : Key M)
  | complete (caller : String) (call : Call M)
  | putResponse (key : Key M) (entry : Entry)
  | outcomes
  | putOutcome (outcome : Outcome F)
  | putRun (summary : RunSummary F)

def Request.Answer {M F : Type} : Request M F → Type
  | response _ => Option Entry
  | complete _ _ => Reply
  | putResponse _ _ => Unit
  | outcomes => List (Outcome F)
  | putOutcome _ => Unit
  | putRun _ => Unit

/-- How a run is left: with `BudgetExhausted`, with the `TypeError` of a number that cannot be
formatted, or with another exception. -/
inductive Stop where
  | exhausted (reason : String)
  | unformatted
  | raised
deriving DecidableEq

/-- The fields of a `Caller` that stay: whether it has a client and a store, its model, and its
parameters with the price they give to a usage. -/
structure Terms (F : Type) where
  client : Bool
  model : String
  params : String
  store : Bool := true
  price : Usage → Option F

/-- The fields of a `Caller` that change. -/
structure Caller (M : Type) where
  calls : Nat := 0
  replayed : Nat := 0
  keys : List (Key M) := []
  usage : Usage := {}
  memory : List (Key M × Entry) := []

/-- `outcome_id`, before it is hashed. -/
structure OutcomeId where
  arm : String
  unit : String
  replicate : Nat
deriving DecidableEq

structure Session (M : Type) where
  callers : String → Caller M := fun _ => {}
  have_ : List OutcomeId := []
  decided : List (String × Nat) := []
  skipped : List (String × Nat) := []

abbrev Running (M F : Type) := Piece (Request M F) Request.Answer Stop (Session M)

section Run
variable {M F : Type} [DecidableEq M]

def ask (request : Request M F) : Running M F request.Answer := Piece.ask request

def Session.update (session : Session M) (name : String) (change : Caller M → Caller M) :
    Session M :=
  { session with
    callers := fun other =>
      if other = name then change (session.callers name) else session.callers other }

def modifyCaller (name : String) (change : Caller M → Caller M) : Running M F Unit :=
  modify (·.update name change)

variable (terms : String → Terms F)

def keyOf (name : String) (messages : M) (temperature : ℚ) (sample : String) : Key M :=
  { call := { model := (terms name).model, messages, temperature, jsonObject := true }
    params := (terms name).params, sample }

def cached (name : String) (key : Key M) : Running M F (Option Entry) := do
  let session ← get
  match (session.callers name).memory.lookup key with
  | some entry => return some entry
  | none => if (terms name).store then ask (.response key) else return none

def complete (name : String) (key : Key M) : Running M F Entry := do
  if !(terms name).client then throw .raised
  match ← ask (.complete name key.call) with
  | .exhausted reason => throw (.exhausted reason)
  | .failed => throw .raised
  | .responded content usage =>
    let entry : Entry := { content, model := (terms name).model, usage }
    modifyCaller name fun caller => { caller with calls := caller.calls + 1 }
    if (terms name).store then ask (.putResponse key entry)
    return entry

/-- `Caller.ask`, with the salt of the caller before the sample label. -/
def askCaller (name salt : String) (messages : M) (temperature : ℚ) (sample : String) :
    Running M F String := do
  let key := keyOf terms name messages temperature (salt ++ sample)
  modifyCaller name fun caller => { caller with keys := caller.keys ++ [key] }
  let found ← cached terms name key
  let entry ← match found with
    | some entry => do
      modifyCaller name fun caller => { caller with replayed := caller.replayed + 1 }
      pure entry
    | none => complete terms name key
  -- Spend counts once per distinct request, the same on a replay.
  modifyCaller name fun caller =>
    if (caller.memory.lookup key).isSome then caller
    else { caller with usage := caller.usage.add entry.usage }
  modifyCaller name fun caller => { caller with memory := Dicts.set caller.memory key entry }
  return entry.content.getD ""

structure Answer (F : Type) where
  verdict : Verdict
  family : String
  confidence : F
  rationale : String
  citedLines : List Nat
  parseFailed : Bool := false

def Answer.p [Floats F] (answer : Answer F) : F :=
  match answer.verdict with
  | .vulnerable => answer.confidence
  | .notVulnerable => ofNat 1 - answer.confidence
  | .unsure => decimal 5 1

def parseFailed [Floats F] : Answer F :=
  { verdict := .unsure, family := "none", confidence := ofNat 0, rationale := "", citedLines := []
    parseFailed := true }

structure Retrieval where
  mode : String
  neighbours : List (String × List (String × Nat))

structure Prompt (M : Type) where
  messages : M
  exampleIds : List String
  validLines : List Nat

structure Decision (F : Type) where
  verdict : Verdict
  family : String
  s : F
  votes : List (Verdict × Nat)
  rationale : String
  citedLines : List Nat
  parseFailed : Nat
  answers : List (Answer F)
  retrieval : Retrieval := ⟨"signals_only", []⟩

def verdicts : List Verdict := [.vulnerable, .notVulnerable, .unsure]

section Answers
variable [Floats F] (round6 : F → F)
  (parse : String → List Nat → Option (Answer F))

/-- The verdict that has the most votes, `unsure` among equals. -/
def majority (votes : List (Verdict × Nat)) : Verdict :=
  match votes.filter fun vote => votes.all (·.2 ≤ vote.2) with
  | [leader] => leader.1
  | _ => .unsure

def aggregate (answers : List (Answer F)) : Decision F :=
  let votes := verdicts.map fun v => (v, answers.countP (·.verdict = v))
  let verdict := majority votes
  let lead := answers.find? fun a => a.verdict = verdict ∧ !a.parseFailed
  { verdict, votes, answers
    family := (lead.map (·.family)).getD "none"
    s := round6 ((mean (answers.map (·.p))).getD (decimal 5 1))
    rationale := (lead.map (·.rationale)).getD ""
    citedLines := (lead.map (·.citedLines)).getD []
    parseFailed := answers.countP (·.parseFailed) }

/-- `sample_answer`: one sample, with one retry at temperature 0 when it does not parse. -/
def sampleAnswer (name salt : String) (prompt : Prompt M) (temperature : ℚ) (sample : String) :
    Running M F (Answer F) := do
  match parse (← askCaller terms name salt prompt.messages temperature sample) prompt.validLines with
  | some answer => return answer
  | none =>
    let retry ← askCaller terms name salt prompt.messages 0 (sample ++ ":retry")
    return (parse retry prompt.validLines).getD parseFailed

inductive Sampling where
  | temperature
  | retrievalEnsemble
  | unknown
deriving DecidableEq

/-- A program over one memory: its spec as far as it samples, and `Program.prepare`, which raises
on a demonstration that is not allowed. -/
structure Program (M C : Type) where
  k : Nat
  sampling : Sampling
  maxOutputTokens : Nat
  prepare : C → Folds.Fold → Int → List String → Option (Prompt M × Retrieval)

structure Sample (M : Type) where
  prompt : Prompt M
  retrieval : Retrieval
  temperature : ℚ
  sample : String

variable {C : Type}

/-- `prepare_ensemble`: prompts over disjoint sets of examples. -/
def prepareEnsemble (program : Program M C) (candidate : C) (fold : Folds.Fold) (seed : Int) :
    Nat → List String → Option (List (Prompt M × Retrieval))
  | 0, _ => some []
  | left + 1, used => do
    let (prompt, got) ← program.prepare candidate fold seed used
    let rest ← prepareEnsemble program candidate fold seed left (used ++ prompt.exampleIds)
    return (prompt, got) :: rest

def temperatureOf (j : Nat) : ℚ := if j = 0 then 0 else 7 / 10

def prepareSamples (program : Program M C) (candidate : C) (fold : Folds.Fold) (seed : Int) :
    Option (List (Sample M)) :=
  match program.sampling with
  | .retrievalEnsemble => do
    let prepared ← prepareEnsemble program candidate fold seed program.k []
    return prepared.zipIdx.map fun ((prompt, got), j) => ⟨prompt, got, 0, toString j⟩
  | .unknown => none
  | .temperature => do
    let (prompt, got) ← program.prepare candidate fold seed []
    return (List.range program.k).map fun j => ⟨prompt, got, temperatureOf j, toString j⟩

def answersTo (name salt : String) : List (Sample M) → Running M F (List (Answer F))
  | [] => return []
  | sample :: rest => do
    let answer ← sampleAnswer terms parse name salt sample.prompt sample.temperature sample.sample
    return answer :: (← answersTo name salt rest)

def Program.decide (program : Program M C) (candidate : C) (fold : Folds.Fold)
    (name salt : String) (seed : Int) : Running M F (Decision F) := do
  match prepareSamples program candidate fold seed with
  | none => throw .raised
  | some prepared =>
    let answers ← answersTo terms parse name salt prepared
    match prepared with
    | [] => throw .raised
    | first :: _ => return { aggregate round6 answers with retrieval := first.retrieval }

end Answers

end Run

end OpenUltraSast.Learn.Experiments
