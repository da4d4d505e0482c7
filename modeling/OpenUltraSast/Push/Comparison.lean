import OpenUltraSast.Push.Evidence

/-!
# The comparison of two revisions

Each head finding is judged new, worsened, unchanged or unknown, from what the base scan
answered about the operation behind it.
-/

namespace OpenUltraSast.Push

open Values Model

inductive Novelty where
  | new
  | worsened
  | unchanged
  | unknown
deriving DecidableEq

structure CandidateDelta where
  finding : ModelFinding
  novelty : Novelty
  reason : String
  headOperation : Option EvidenceOperation
  baseOperations : List EvidenceOperation
  changeEvidence : List String
  baseRevision : Option String
  headRevision : String
  semantics : Option String

/-- Whether a finding is judged to be the change's doing. -/
def Novelty.alerts : Novelty → Bool
  | .new => true
  | .worsened => true
  | _ => false

/-- What a head finding brings to its comparison. -/
structure Claim where
  op : EvidenceOperation
  entailed : Bool
  change : List String
  location : Option (String × Nat)
  correspondence : Correspondence

def Claim.supported (claim : Claim) : Bool :=
  claim.change ≠ [] && claim.entailed && !claim.op.discharged

/-- What the base answers to a claim. -/
structure Reading where
  contextual : List EvidenceOperation
  established : Bool
  boundaries : List String
  inventory : Option OperationInventory

namespace Reading

variable (reading : Reading)

def complete : Bool := reading.established && reading.boundaries = []

def enumerated : Bool :=
  reading.established && reading.boundaries.all fun boundary =>
    Text.startsWith boundary reachabilityBounded

def old (claim : Claim) : List EvidenceOperation :=
  reading.contextual.filter fun b =>
    claim.location = some (b.path, b.line) && b.operation = claim.op.operation

def identical (claim : Claim) : List EvidenceOperation :=
  reading.contextual.filter (·.operation = claim.op.operation)

def unchangedBy (op b : EvidenceOperation) : Bool :=
  b.discharged = op.discharged && (op.mechanism ≠ .config ||
    (Json.field b.detail "literalArgs").same (Json.field op.detail "literalArgs"))

def changedLine (claim : Claim) : Novelty × String :=
  if reading.identical claim ≠ [] then (.unknown, "operation_moved_within_change")
  else match reading.inventory with
    | none => (.unknown, "base_operation_inventory_unavailable")
    | some inventory =>
      if !inventory.structural && !reading.complete then
        (.unknown, "base_enumeration_scope_reachability_derived")
      else if inventory.sites.any (·.operation = claim.op.operation) then
        (.unknown, "operation_present_in_base_without_traced_flow")
      else if claim.entailed && !claim.op.discharged then
        (.new, "operation_absent_from_comparable_base")
      else (.unknown, "operation_correspondence_unresolved")

/-- A claim against a base that enumerated its scope. -/
def compared (claim : Claim) : Novelty × String :=
  let old := reading.old claim
  let same := old.filter (·.source = claim.op.source)
  if reading.complete && same.any (unchangedBy claim.op) then
    (.unchanged, "same_supported_mechanism")
  else if reading.complete && old ≠ [] && claim.supported then
    if same ≠ [] && same.all (·.discharged) then (.worsened, "discharge_removed")
    else if same = [] && claim.op.mechanism = .taint then
      (.unknown, "source_correspondence_unresolved")
    else (.unknown, "operation_correspondence_unresolved")
  else if reading.complete && claim.location.isSome && old = [] && claim.supported &&
      claim.op.mechanism = .taint then
    -- The absence of a traced flow needs complete reachability.
    (.new, "source_connection_absent_from_comparable_base")
  else if claim.correspondence = .changedLine && claim.change ≠ [] &&
      claim.op.mechanism = .taint then reading.changedLine claim
  else if !reading.complete then (.unknown, "base_reachability_bounded")
  else (.unknown, "operation_correspondence_unresolved")

end Reading

variable (surroundings : Surroundings) (head : ModelScanResult) (context : ChangeContext)
  (headSemantics baseSemantics : String)

def matched (finding : ModelFinding) : Option EvidenceOperation :=
  let found := (operations surroundings head).filter fun op =>
    op.question.family = finding.family &&
      Text.startsWith finding.site (op.path ++ ":" ++ toString op.line ++ ":") &&
      provenFinding surroundings finding op head
  let fromSource := fun op : EvidenceOperation =>
    op.mechanism ≠ .taint || match Json.field op.detail "source" with
      | .str source => Text.startsWith finding.witness (source ++ " -> ")
      | _ => false
  match if found.length > 1 then found.filter fromSource else found with
  | [op] => some op
  | _ => none

def headComplete (op : EvidenceOperation) : Bool :=
  match head.scope with
  | none => false
  | some decision =>
    (blockingGaps surroundings head [op.question]).all (Text.startsWith · reachabilityBounded) &&
      blockingDegradations head op.question.language = [] &&
      validAnswer head op.question (operations surroundings head) &&
      op.question ∈ decision.selected

def established (base : ModelScanResult) (op : EvidenceOperation) : Bool :=
  let required := requiredScope surroundings op.question context
  match base.scope with
  | none => false
  | some decision =>
    decision.populationComplete && decision.deferred.all (·.reason = "tier_zero") &&
      blockingDegradations base op.question.language = [] &&
      required.all (· ∈ decision.selected) && required.all (· ∈ base.completed) &&
      base.questionOutcomes.all (·.identity ∈ decision.selected) &&
      required.all fun question => validAnswer base question (operations surroundings base)

def readBase (base : Option ModelScanResult) (op : EvidenceOperation) : Reading :=
  let question := counterpart surroundings op.question context
  match base with
  | none =>
    { contextual := [], established := false, boundaries := ["base_unavailable"]
      inventory := none }
  | some base =>
    { contextual := (operations surroundings base).filter fun b =>
        b.question = question && b.mechanism = op.mechanism
      established := established surroundings context base op
      boundaries := blockingGaps surroundings base (requiredScope surroundings op.question context)
      inventory := inventory base question }

def baseOperations (base : Option ModelScanResult) : List EvidenceOperation :=
  (base.map (operations surroundings)).getD []

def heldInBase (base : Option ModelScanResult) (op : EvidenceOperation) : Bool :=
  (baseOperations surroundings base).any fun b =>
    b.operation = op.operation && b.mechanism = op.mechanism

def claimOf (finding : ModelFinding) (op : EvidenceOperation) : Claim :=
  { op, entailed := finding.rung = .entailed
    change := changeEvidence surroundings op context
    location := (correspondence surroundings op context).1
    correspondence := (correspondence surroundings op context).2 }

def inAddedFile (op : EvidenceOperation) : Bool :=
  op.path ∈ context.addedPaths.map (decodePath surroundings context)

/-- Why an operation is not compared at all, whatever the base. -/
def uncomparable (op : EvidenceOperation) : Option String :=
  if headSemantics ≠ baseSemantics then some "semantics_mismatch"
  else if context.baseRevision.isNone then some "base_unavailable"
  else if blockingContext context ≠ [] then some "change_context_unresolved"
  else if !headComplete surroundings head op then some "head_context_incomplete"
  else none

/-- The cascade of `_compare_evidence` for the operation of a finding. -/
def judge (base : Option ModelScanResult) (claim : Claim) : Novelty × String :=
  match uncomparable surroundings head context headSemantics baseSemantics claim.op with
  | some reason => (.unknown, reason)
  | none =>
    if inAddedFile surroundings context claim.op then
      -- Code moved here from elsewhere is still movement.
      if heldInBase surroundings base claim.op then (.unknown, "operation_moved_within_change")
      else if claim.supported then (.new, "file_added_in_head")
      else (.unknown, "file_added_unsupported_claim")
    else
      let reading := readBase surroundings context base claim.op
      if reading.enumerated then reading.compared claim else (.unknown, "base_incomplete")

def candidate (base : Option ModelScanResult) (finding : ModelFinding) : CandidateDelta :=
  let semantics := if headSemantics = baseSemantics then some headSemantics else none
  match matched surroundings head finding with
  | none =>
    ⟨finding, .unknown, "witness_identity_unresolved", none, [], [], context.baseRevision,
      context.headRevision, semantics⟩
  | some op =>
    let claim := claimOf surroundings context finding op
    let verdict := judge surroundings head context headSemantics baseSemantics base claim
    ⟨finding, verdict.1, verdict.2, some op,
      (readBase surroundings context base op).old claim, claim.change, context.baseRevision,
      context.headRevision, semantics⟩

/-- `_compare_evidence`, without a deadline. -/
def compareEvidence (base : Option ModelScanResult) : List CandidateDelta :=
  head.findings.map (candidate surroundings head context headSemantics baseSemantics base)

end OpenUltraSast.Push
