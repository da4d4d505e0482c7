import OpenUltraSast.Library.Json
import OpenUltraSast.Library.Text

/-!
# Scan contracts

What a change is, what a scan was asked and what came of it, as the ranker, the driver and
the push policy hand it to each other.
-/

namespace OpenUltraSast.Model

open Values

structure QuestionIdentity where
  unit : String
  language : String
  path : String
  function : Option String
  family : String
deriving DecidableEq

inductive Side where
  | base
  | head
deriving DecidableEq

structure ChangedSpan where
  path : String
  startLine : Nat
  endLine : Nat
  side : Side

structure PathRename where
  basePath : String
  headPath : String

structure AffectedRelationship where
  source : QuestionIdentity
  target : QuestionIdentity
  kind : String
  evidence : List String
deriving DecidableEq

/-- Unique identical source lines outside edit hunks. -/
structure LineCorrespondence where
  basePath : String
  headPath : String
  baseStartLine : Nat
  baseEndLine : Nat
  headStartLine : Nat
  ordered : baseStartLine ≤ baseEndLine

inductive PathEncoding where
  | text
  | filesystemBytesHex
deriving DecidableEq

structure ChangeContext where
  baseRevision : Option String
  headRevision : String
  changedPaths : List String
  deletedPaths : List String
  spans : List ChangedSpan
  renames : List PathRename
  declarationPaths : List String
  relationships : List AffectedRelationship
  unresolvedBoundaries : List String
  pathEncoding : PathEncoding := .text
  lineCorrespondences : List LineCorrespondence := []
  addedPaths : List String := []

structure DeferredQuestion where
  identity : QuestionIdentity
  reason : String

/-- What a scan decided to ask, and what it put off. -/
structure ScopeDecision where
  populationComplete : Bool
  selected : List QuestionIdentity
  deferred : List DeferredQuestion
  unresolvedBoundaries : List String
  unique : (selected ++ deferred.map (·.identity)).Nodup

inductive Status where
  | completed
  | unanswered
  | unresolved
  | notArbitrated
deriving DecidableEq

/-- Execution of a question; `raw_rows_json` is held as the rows it decodes to. -/
structure QuestionOutcome where
  identity : QuestionIdentity
  status : Status
  rawRows : Option (List Json)
  answered : status = .completed ∨ status = .notArbitrated → rawRows.isSome
  unanswered : status = .unanswered → rawRows = none

/-- What was established of a site, ascending. -/
inductive Rung where
  | suspicion
  | corroborated
  | entailed
  | executionConfirmed
deriving DecidableEq

structure ModelFinding where
  site : String
  family : String
  rung : Rung
  witness : String := ""

structure Degradation where
  reason : String
  censusLanguage : String := ""
  ownedPaths : List String := []
  missingFileNames : List String := []

/-- What `scan_repository` returns: an outcome is of a selected question, and a question has
one outcome. -/
structure ModelScanResult where
  findings : List ModelFinding := []
  degradations : List Degradation := []
  scope : Option ScopeDecision := none
  questionOutcomes : List QuestionOutcome := []
  once : (questionOutcomes.map (·.identity)).Nodup
  asked : ∀ decision ∈ scope, ∀ outcome ∈ questionOutcomes, outcome.identity ∈ decision.selected

namespace ModelScanResult

variable (scan : ModelScanResult)

/-- `next((q for q in scan.question_outcomes if q.identity == question), None)`. -/
def answer (question : QuestionIdentity) : Option QuestionOutcome :=
  scan.questionOutcomes.find? (·.identity = question)

def completed : List QuestionIdentity :=
  (scan.questionOutcomes.filter (·.status = .completed)).map (·.identity)

end ModelScanResult

end OpenUltraSast.Model
