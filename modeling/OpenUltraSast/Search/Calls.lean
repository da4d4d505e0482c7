import Mathlib.Data.List.Chain
import OpenUltraSast.Search.Coordinator

/-!
# Calls of a search

The dispatches of a search as calls: the attempts of a call follow each other, and what a call
is about, a fact to verify or an intent to explore, is its subject.
-/

namespace OpenUltraSast.Search

open Values Programs

/-- `Board._validate`. -/
structure Board.Valid (board : Board) : Prop where
  facts : ∀ fact ∈ board.facts, "" ∉ [fact.id, fact.step, fact.taskId, fact.text]
  intents : ∀ intent ∈ board.intents,
    "" ∉ [intent.id, intent.step, intent.taskId, intent.description]
  hints : ∀ hint ∈ board.hints, "" ∉ [hint.id, hint.step, hint.taskId, hint.text]
  factIds : (board.facts.map (·.id)).Nodup
  intentIds : (board.intents.map (·.id)).Nodup
  hintIds : (board.hints.map (·.id)).Nodup
  evidence : ∀ fact ∈ board.facts, fact.evidenceRefs ≠ [] ∧ "" ∉ fact.evidenceRefs
  fromIntents : ∀ fact ∈ board.facts, ∀ id ∈ fact.fromIntents, id ∈ board.intents.map (·.id)
  fromFacts : ∀ intent ∈ board.intents, ∀ id ∈ intent.fromFacts, id ∈ board.facts.map (·.id)
  claimed : ∀ intent ∈ board.intents, intent.status = .claimed → intent.claimant.any (· ≠ "")
  opened : ∀ intent ∈ board.intents, intent.status = .opened → intent.claimant = none
  endReason : ∀ reason ∈ board.endReason,
    reason ∈ ["goal_met", "budget_spent", "exhausted", "reason_refused"]

instance (board : Board) : Decidable board.Valid :=
  decidable_of_iff
    (((∀ fact ∈ board.facts, "" ∉ [fact.id, fact.step, fact.taskId, fact.text]) ∧
      (∀ intent ∈ board.intents,
        "" ∉ [intent.id, intent.step, intent.taskId, intent.description]) ∧
      ∀ hint ∈ board.hints, "" ∉ [hint.id, hint.step, hint.taskId, hint.text]) ∧
      ((board.facts.map (·.id)).Nodup ∧ (board.intents.map (·.id)).Nodup ∧
        (board.hints.map (·.id)).Nodup) ∧
      (∀ fact ∈ board.facts, fact.evidenceRefs ≠ [] ∧ "" ∉ fact.evidenceRefs) ∧
      (∀ fact ∈ board.facts, ∀ id ∈ fact.fromIntents, id ∈ board.intents.map (·.id)) ∧
      (∀ intent ∈ board.intents, ∀ id ∈ intent.fromFacts, id ∈ board.facts.map (·.id)) ∧
      (∀ intent ∈ board.intents, intent.status = .claimed → intent.claimant.any (· ≠ "")) ∧
      (∀ intent ∈ board.intents, intent.status = .opened → intent.claimant = none) ∧
      ∀ reason ∈ board.endReason,
        reason ∈ ["goal_met", "budget_spent", "exhausted", "reason_refused"])
    ⟨fun ⟨⟨facts, intents, hints⟩, ⟨factIds, intentIds, hintIds⟩, evidence, sources, uses, claimed,
        opened, ends⟩ =>
      ⟨facts, intents, hints, factIds, intentIds, hintIds, evidence, sources, uses, claimed, opened,
        ends⟩,
    fun ⟨facts, intents, hints, factIds, intentIds, hintIds, evidence, sources, uses, claimed,
        opened, ends⟩ =>
      ⟨⟨facts, intents, hints⟩, ⟨factIds, intentIds, hintIds⟩, evidence, sources, uses, claimed,
        opened, ends⟩⟩

def Validates : (request : Request) → request.Answer → Prop
  | .commit board, committed => committed = true → board.Valid
  | _, _ => True

def checkedAnswers : Answers Request Request.Answer World :=
  fun request reply before after => answers request reply before after ∧ Validates request reply

def Unended (world : World) : Prop := Unsearched world ∧ world.durable.endReason = none

/-- A search whose commits validate the board. -/
abbrev CheckedRun (budget : SearchBudget) (loads : String → Option Json)
    (decimal : String → Option ℚ) (tokens : String → List String) :
    Host Request Request.Answer World Memory → Prop :=
  HostRun checkedAnswers (fun world => startUp budget loads world.durable)
    (toProgram (round budget loads decimal tokens)) Unended

/-- What a task is about, where it is not to be done twice. -/
inductive Subject where
  | fact (id : String)
  | intent (id : String)
deriving DecidableEq

def subject : Step → Payload → Option Subject
  | .verify, .demo id _ _ _ => some (.fact id)
  | .explore, .intent id _ => some (.intent id)
  | _, _ => none

def Typed : Step → Payload → Prop
  | .verify, .demo _ _ _ _ => True
  | .explore, .intent _ _ => True
  | .reason, .empty => True
  | .reason, .reminder _ => True
  | _, _ => False

/-- A result for which a task is tried again. -/
def Dispatch.Retried (dispatch : Dispatch) : Prop :=
  ∃ fields, dispatch.outcome = .returned (.obj fields) ∧
    retried ⟨fields, dispatch.task.id⟩ = true

def Follows (before after : Dispatch) : Prop :=
  before.Retried ∧ after.task.step = before.task.step ∧ after.task.payload = before.task.payload

structure IsCall (attempts : List Dispatch) : Prop where
  attempted : attempts ≠ []
  chain : attempts.IsChain Follows
  typed : ∀ dispatch ∈ attempts, Typed dispatch.task.step dispatch.task.payload

def subjectOf (attempts : List Dispatch) : Option Subject :=
  attempts.head?.bind fun dispatch => subject dispatch.task.step dispatch.task.payload

def verifies (attempts : List Dispatch) : Bool :=
  attempts.head?.any fun dispatch => dispatch.task.step = .verify

def verifications (calls : List (List Dispatch)) : Nat := calls.countP verifies

def repeats (calls : List (List Dispatch)) : Nat :=
  (calls.map fun attempts => attempts.length - 1).sum

structure AreCalls (calls : List (List Dispatch)) (log : List Dispatch) : Prop where
  split : log = calls.flatten
  each : ∀ attempts ∈ calls, IsCall attempts
  apart : (calls.filterMap subjectOf).Nodup

structure Demonstrates (facts : List Fact) (dispatch : Dispatch) : Prop where
  step : dispatch.task.step = .verify
  fact : ∃ fact ∈ facts, ∃ demo family oracle, fact.demo = some demo ∧ demo ≠ "" ∧
    dispatch.task.payload = .demo fact.id demo family oracle
  result : ∃ fields, dispatch.outcome = .returned (.obj fields) ∧
    fields.lookup "status" = some (.str "ok") ∧
    fields.lookup "outcome" = some (.str "demonstrated") ∧
    ∃ items, fields.lookup "evidence_refs" = some (.arr items) ∧ items ≠ [] ∧
      ∀ item ∈ items, ∃ text, item = .str text ∧ text ≠ ""

/-- What was dispatched, and what the committed board says of it. -/
structure Accounted (budget : SearchBudget) (world : World) : Prop where
  goal : world.durable.endReason = some "goal_met" →
    ∃ dispatch, world.log.getLast? = some dispatch ∧ Demonstrates world.durable.facts dispatch
  once : ∃ calls, AreCalls calls world.log ∧ verifications calls ≤ budget.demonstrations ∧
    repeats calls ≤ budget.retries

section Adding
variable {calls : List (List Dispatch)} {log last : List Dispatch} {dispatch : Dispatch}

variable {payload : Payload} {step : Step}

theorem subjectOf_of_same (some : last ≠ [])
    (same : ∀ dispatch ∈ last, dispatch.task.step = step ∧ dispatch.task.payload = payload) :
    subjectOf last = subject step payload := by
  cases last with
  | nil => exact absurd rfl some
  | cons first rest =>
    obtain ⟨steps, payloads⟩ := same first List.mem_cons_self
    rw [← steps, ← payloads]
    rfl

theorem verifies_of_same (some : last ≠ [])
    (same : ∀ dispatch ∈ last, dispatch.task.step = step ∧ dispatch.task.payload = payload) :
    verifies last = decide (step = .verify) := by
  cases last with
  | nil => exact absurd rfl some
  | cons first rest =>
    rw [← (same first List.mem_cons_self).1]
    rfl

theorem repeats_append (more : List (List Dispatch)) :
    repeats (calls ++ more) = repeats calls + repeats more := by
  rw [repeats, List.map_append, List.sum_append]
  rfl

theorem chain_snoc (chain : last.IsChain Follows)
    (same : ∀ dispatch ∈ last, dispatch.task.step = step ∧ dispatch.task.payload = payload)
    (again : ∀ dispatch ∈ last.getLast?, dispatch.Retried)
    (own : dispatch.task.step = step ∧ dispatch.task.payload = payload) :
    (last ++ [dispatch]).IsChain Follows := by
  refine chain.append (List.isChain_singleton dispatch) fun before ends after begins => ?_
  cases begins
  obtain ⟨steps, payloads⟩ := same before (List.mem_of_getLast? ends)
  exact ⟨again before ends, own.1.trans steps.symm, own.2.trans payloads.symm⟩

end Adding

end OpenUltraSast.Search
