import OpenUltraSast.Library.Json

/-!
# The search board

What a search has found, what it means to do, and the coordinator's checkpoint.
-/

namespace OpenUltraSast.Search

open Values

inductive Step where
  | reason
  | explore
  | verify
deriving DecidableEq

inductive IntentStatus where
  | opened
  | claimed
  | concluded
deriving DecidableEq

structure Intent where
  id : String
  description : String
  fromFacts : List String
  status : IntentStatus
  claimant : Option String
  step : String
  taskId : String
  failure : Option Json := none

structure Fact where
  id : String
  text : String
  evidenceRefs : List String
  fromIntents : List String
  step : String
  taskId : String
  demo : Option String := none
  oracle : Option Json := none

structure Hint where
  id : String
  step : String
  taskId : String
  text : String

inductive Payload where
  | empty
  | reminder (text : String)
  | intent (id description : String)
  | demo (factId demo : String) (family : Option String) (oracle : Option Json)

/-- A dispatch that may be under way. -/
structure Pending where
  id : String
  step : Step
  payload : Payload

/-- A recorded failure; a rejected proposal has its text and the intent it repeats. -/
structure Failure where
  taskId : String
  reason : String
  rejected : Option (String × String) := none

/-- The coordinator's checkpoint. -/
structure Progress where
  startedAt : ℚ
  spentUsd : ℚ := 0
  tasks : Nat := 0
  rounds : Nat := 0
  retries : Nat := 0
  demonstrations : Nat := 0
  pending : Option Pending := none
  verified : List String := []
  failures : List Failure := []
  wallSeconds : ℚ := 0
  reasonCompleted : Nat := 0
  duplicateRejections : List Failure := []

structure Board where
  facts : List Fact := []
  intents : List Intent := []
  hints : List Hint := []
  endReason : Option String := none
  endDetail : Option String := none
  checkpoint : Option Progress := none

structure Candidate where
  family : Option String := none
  file : Option String := none
  function : Option String := none
  oracle : Option String := none

def stringField (fields : List (String × Json)) (key : String) : Option String :=
  match fields.lookup key with
  | some (.str text) => some text
  | _ => none

/-- `Board.candidate`: the first candidate hint that is an object. -/
def candidate (loads : String → Option Json) : List Hint → Candidate
  | [] => {}
  | hint :: rest =>
    if hint.id = "candidate" then
      match loads hint.text with
      | some (.obj fields) =>
        { family := stringField fields "family"
          file := stringField fields "file"
          function := stringField fields "function"
          oracle := stringField fields "oracle" }
      | _ => candidate loads rest
    else candidate loads rest

/-- The ceilings of a search, as `SearchBudget` accepts them. -/
structure SearchBudget where
  spendUsd : ℚ
  maxCallUsd : ℚ
  reasonRounds : Nat
  intentsPerRound : Nat
  demonstrations : Nat
  tasks : Nat
  retries : Nat
  taskWallSeconds : ℚ
  wallSeconds : ℚ
  cleanupSeconds : ℚ
  spendUsd_nonneg : 0 ≤ spendUsd
  maxCallUsd_pos : 0 < maxCallUsd

/-- `SpendBudget`: what may be spent, what is, and what is reserved. -/
structure SpendBudget where
  cap : ℚ
  spent : ℚ
  reserved : ℚ := 0

namespace SpendBudget

variable (meter : SpendBudget)

/-- `reserve`, for an amount that is finite and not negative. -/
def reserve (amount : ℚ) : Option SpendBudget :=
  if meter.spent + meter.reserved + amount > meter.cap then none
  else some { meter with reserved := meter.reserved + amount }

/-- `settle` of an active reservation; a cost over the reservation is refused. -/
def settle (reservation actual : ℚ) : Option SpendBudget :=
  if actual > reservation then none
  else some { meter with
    reserved := meter.reserved - reservation
    spent := meter.spent + actual }

end SpendBudget

/-- `SpendBudget._amount`: `Decimal(str(value))`, if it is finite and not negative. -/
def amount (decimal : String → Option ℚ) : Json → Option ℚ
  | .int value => if 0 ≤ value then some (value : ℚ) else none
  | .float value => if 0 ≤ value then some value else none
  | .str text => (decimal text).filter (0 ≤ ·)
  | _ => none

end OpenUltraSast.Search
