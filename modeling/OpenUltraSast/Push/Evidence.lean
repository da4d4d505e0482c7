import OpenUltraSast.Model.Contracts

/-!
# Revision evidence

The operations that a scan's answers report, and what the comparison of two revisions reads
of a scan and of the change between them.
-/

namespace OpenUltraSast.Push

open Values Model

inductive Mechanism where
  | taint
  | dominance
  | config
deriving DecidableEq

/-- What an arbiter says of one site. -/
structure Verdict where
  rung : Rung
  witness : String

/-- What the comparison takes from elsewhere: the specs of the ruleset with their arbiter, the
ids of questions, and how values and raw paths are spelled. -/
structure Surroundings where
  Spec : Type
  specFor : (family language : String) → Option Spec
  mechanism : Spec → Mechanism
  arbitrateAll : Spec → List Json → (path function : String) → List Verdict
  questionId : QuestionIdentity → String
  dumps : Json → String
  fsdecode : String → String

variable (surroundings : Surroundings)

def decodePath (context : ChangeContext) (path : String) : String :=
  match context.pathEncoding with
  | .text => path
  | .filesystemBytesHex => surroundings.fsdecode path

structure EvidenceOperation where
  question : QuestionIdentity
  mechanism : Mechanism
  path : String
  line : Nat
  operation : String
  source : String
  discharged : Bool
  detail : List (String × Json)
  method : Option String := none

/-- `int(str(line))`, if `str(line)` is a number from one on. -/
def lineNumber (line : Json) : Option Nat :=
  let number := match line with
    | .int value => if 0 ≤ value then some value.toNat else none
    | .str text => Text.digits text
    | _ => none
  number.filter (1 ≤ ·)

def spelled : Json → Option String
  | .str text => if Text.isBlank text then none else some text
  | _ => none

def placedOperation (question : QuestionIdentity) (row : List (String × Json))
    (mechanism : Mechanism) (path line operation method : Json) (source : String)
    (discharged : Bool) : Option EvidenceOperation :=
  match path, spelled operation, lineNumber line with
  | .str path, some operation, some line =>
    if path = "" then none
    else some
      { question, mechanism, path, line, operation, source, discharged
        detail := row, method := spelled method }
  | _, _, _ => none

def isText : Json → Bool
  | .str _ => true
  | _ => false

/-- A traced flow; its source and its discharge are spelled out. -/
def sinkOperation (question : QuestionIdentity) (row : List (String × Json)) :
    Option EvidenceOperation :=
  let get := Json.field row
  match get "source", get "sanitized", get "bounded" with
  | .str source, .bool sanitized, .bool bounded =>
    if Text.isBlank source then none
    else
      let kind := (row.lookup "sourceKind").getD (.str "unknown")
      placedOperation question row .taint (get "sinkFile") (get "sinkLine") (get "sink")
        (get "sinkMethod") (surroundings.dumps (.arr [kind, .str source])) (sanitized || bounded)
  | _, _, _ => none

def guardedOperation (question : QuestionIdentity) (row : List (String × Json)) :
    Option EvidenceOperation :=
  let get := Json.field row
  match get "dominatingGuards" with
  | .arr guards =>
    if guards.all isText then
      placedOperation question row .dominance (get "opFile") (get "opLine") (get "operation")
        (get "opMethod") "obligation" !guards.isEmpty
    else none
  | _ => none

def settingOperation (question : QuestionIdentity) (row : List (String × Json)) :
    Option EvidenceOperation :=
  let get := Json.field row
  placedOperation question row .config (get "file") (get "line") (get "setting") .null
    "configuration" false

def rowOperation (question : QuestionIdentity) : Json → Option EvidenceOperation
  | .obj row =>
    if (row.lookup "sink").isSome then sinkOperation surroundings question row
    else if (row.lookup "operation").isSome then guardedOperation question row
    else if (row.lookup "setting").isSome then settingOperation question row
    else none
  | _ => none

def outcomeOperations (outcome : QuestionOutcome) : List EvidenceOperation :=
  match outcome.status, outcome.rawRows with
  | .completed, some rows =>
    let spec := surroundings.specFor outcome.identity.family outcome.identity.language
    (rows.filterMap (rowOperation surroundings outcome.identity)).filter fun op =>
      spec.map surroundings.mechanism = some op.mechanism
  | _, _ => []

def operations (scan : ModelScanResult) : List EvidenceOperation :=
  scan.questionOutcomes.flatMap (outcomeOperations surroundings)

/-- One operation the query enumerated in a question's scope, traced or not. -/
structure OperationSite where
  question : QuestionIdentity
  path : String
  line : Nat
  operation : String

/-- What a question enumerated, and whether on a structural basis. -/
structure OperationInventory where
  sites : List OperationSite
  structural : Bool

def inventoryRow : String := "operation_inventory"

def inventoryComplete : String := "operation_inventory_complete"

/-- The rows of an inventory; nothing if one is malformed, or no row completes it. -/
def inventoryOf (question : QuestionIdentity) :
    List Json → List OperationSite → Option Bool → Option OperationInventory
  | [], sites, basis => basis.map fun structural => ⟨sites, structural⟩
  | .obj row :: rest, sites, basis =>
    let get := Json.field row
    if (get "kind").isStr inventoryComplete then
      if (get "scope").isStr "structural" then inventoryOf question rest sites (some true)
      else if (get "scope").isStr "reachability" then inventoryOf question rest sites (some false)
      else none
    else if (get "kind").isStr inventoryRow then
      match get "inventoryFile", spelled (get "inventory"), lineNumber (get "inventoryLine") with
      | .str path, some operation, some line =>
        if path = "" then none
        else inventoryOf question rest (sites ++ [⟨question, path, line, operation⟩]) basis
      | _, _, _ => none
    else inventoryOf question rest sites basis
  | _ :: rest, sites, basis => inventoryOf question rest sites basis

def inventory (scan : ModelScanResult) (question : QuestionIdentity) : Option OperationInventory :=
  ((scan.answer question).bind (·.rawRows)).bind fun rows => inventoryOf question rows [] none

def isInventoryRow : Json → Bool
  | .obj row => match Json.field row "kind" with
    | .str kind => Text.startsWith kind inventoryRow
    | _ => false
  | _ => false

/-- `_valid_answer`: every other row of the answer is one of the operations. -/
def validAnswer (scan : ModelScanResult) (question : QuestionIdentity)
    (operations : List EvidenceOperation) : Bool :=
  match (scan.answer question).bind (·.rawRows) with
  | none => false
  | some rows =>
    (rows.filter fun row => !isInventoryRow row).length =
      (operations.filter (·.question = question)).length

/-- How a head operation maps to the base. -/
inductive Correspondence where
  | anchored
  | ambiguous
  | unchangedPath
  | changedLine
  | unmapped
deriving DecidableEq

def anchors (op : EvidenceOperation) (context : ChangeContext) : List (String × Nat) :=
  let decode := decodePath surroundings context
  context.lineCorrespondences.filterMap fun anchor =>
    let size := anchor.baseEndLine - anchor.baseStartLine
    if decode anchor.headPath = op.path ∧ anchor.headStartLine ≤ op.line ∧
        op.line ≤ anchor.headStartLine + size then
      some (decode anchor.basePath, anchor.baseStartLine + op.line - anchor.headStartLine)
    else none

def correspondence (op : EvidenceOperation) (context : ChangeContext) :
    Option (String × Nat) × Correspondence :=
  let decode := decodePath surroundings context
  match anchors surroundings op context with
  | location :: others =>
    if others.all (· = location) then (some location, .anchored) else (none, .ambiguous)
  | [] =>
    if op.path ∉ context.changedPaths.map decode then (some (op.path, op.line), .unchangedPath)
    else if context.spans.any fun span => span.side = .head && decode span.path = op.path &&
        span.startLine ≤ op.line && op.line ≤ span.endLine then (none, .changedLine)
    else (none, .unmapped)

def Side.text : Side → String
  | .base => "base"
  | .head => "head"

/-- The paths an operation's change may be recorded under; a rename counts by the paths found
before it. -/
def changePaths (op : EvidenceOperation) (context : ChangeContext) : List String :=
  let decode := decodePath surroundings context
  let related := context.relationships.filterMap fun relation =>
    if relation.target = op.question ∧ relation.evidence ≠ [] then some relation.source.path
    else none
  context.renames.foldl (fun paths rename =>
      if decode rename.headPath ∈ paths then paths ++ [decode rename.basePath] else paths)
    ([op.path, op.question.path] ++ related)

def changeEvidence (op : EvidenceOperation) (context : ChangeContext) : List String :=
  let decode := decodePath surroundings context
  context.spans.filterMap fun span =>
    if decode span.path ∈ changePaths surroundings op context then
      some (Side.text span.side ++ ":" ++ decode span.path ++ ":" ++ toString span.startLine ++
        "-" ++ toString span.endLine)
    else none

/-- `_counterpart`: the last rename of a path counts. -/
def counterpart (question : QuestionIdentity) (context : ChangeContext) : QuestionIdentity :=
  let decode := decodePath surroundings context
  let renamed := context.renames.reverse.find? fun rename => decode rename.headPath = question.path
  { question with path := (renamed.map fun rename => decode rename.basePath).getD question.path }

def requiredScope (question : QuestionIdentity) (context : ChangeContext) :
    List QuestionIdentity :=
  counterpart surroundings question context :: context.relationships.filterMap fun relation =>
    if relation.target = question ∧ relation.evidence ≠ [] then
      some (counterpart surroundings relation.source context)
    else none

def ambiguousCorrespondence : String := "ambiguous_line_correspondence"

def reachabilityBounded : String := "dynamic_external_or_depth_context_unresolved"

def declaredExclusionGaps : List String :=
  ["vendor_semantics_unresolved", "cross_partition_semantics_unresolved"]

def ownedPrefixes : List String :=
  ["context_projection_unavailable:contributor-scan:", "context_scope_empty:contributor-scan:",
    "context_function_unresolved:contributor-scan:",
    "dynamic_external_or_depth_context_unresolved:contributor-scan:"]

def otherQuestions (decision : ScopeDecision) (retained : List QuestionIdentity) : List String :=
  ((decision.selected ++ decision.deferred.map (·.identity)).filter (· ∉ retained)).map
    surroundings.questionId

def contextBoundaries (scan : ModelScanResult) (questions : List QuestionIdentity) :
    List String :=
  match scan.scope with
  | none => ["scope_missing"]
  | some decision =>
    decision.unresolvedBoundaries.filter fun boundary =>
      !Text.startsWith boundary "evidence_unknown:" &&
        !(questions ≠ [] && ownedPrefixes.any (Text.startsWith boundary) &&
          Text.lastPart ':' boundary ∈ otherQuestions surroundings decision questions)

def blockingContext (context : ChangeContext) : List String :=
  context.unresolvedBoundaries.filter fun gap =>
    !Text.endsWith gap (":" ++ ambiguousCorrespondence)

def blockingGaps (scan : ModelScanResult) (questions : List QuestionIdentity) : List String :=
  (contextBoundaries surroundings scan questions).filter fun gap =>
    !Text.endsWith gap (":" ++ ambiguousCorrespondence) &&
      Text.firstPart ':' gap ∉ declaredExclusionGaps

def blockingDegradations (scan : ModelScanResult) (language : String) : List String :=
  (scan.degradations.filter fun item =>
    item.reason ∉ declaredExclusionGaps &&
      !(item.censusLanguage ≠ "" && language ≠ "" && item.censusLanguage ≠ language)).map
    (·.reason)

/-- `_proven_finding`: the arbiter's exact witness, not just a coincident line number. -/
def provenFinding (finding : ModelFinding) (op : EvidenceOperation) (head : ModelScanResult) :
    Bool :=
  match (head.answer op.question).bind (·.rawRows),
    surroundings.specFor op.question.family op.question.language with
  | some rows, some spec =>
    (surroundings.arbitrateAll spec rows op.question.path (op.question.function.getD "")).any
      fun verdict => verdict.witness = finding.witness && verdict.rung = finding.rung
  | _, _ => false

end OpenUltraSast.Push
