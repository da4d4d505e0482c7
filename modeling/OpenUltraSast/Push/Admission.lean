import OpenUltraSast.Library.Dicts
import OpenUltraSast.Push.Comparison

/-!
# The admission of candidates

A candidate is admitted when nothing speaks against it, and an admitted candidate becomes a defect or
joins the one with its id.
-/

namespace OpenUltraSast.Push.Admission

open Values Model

structure PushComparison where
  headOid : String
  baseOid : Option String
  baseReason : String
  refs : List String
deriving DecidableEq

/-- A delta as it is stored: the texts of a contract are not blank. -/
structure CandidateDelta where
  family : String
  site : String
  rung : String
  witness : Option String
  defectId : String
  novelty : Novelty
  reason : String
  headOperation : Option EvidenceOperation
  changeEvidence : List String
  baseRevision : Option String := none
  headRevision : Option String := none
  semantics : Option String := none

structure CapabilityKey where
  language : String
  runtime : String
  framework : String
  family : String
  mechanism : Mechanism
  context : String
  semantics : String
deriving DecidableEq

inductive Evaluated where
  | pass
  | noGo
  | experimental
deriving DecidableEq

structure CapabilityAdmission where
  key : CapabilityKey
  evaluationId : String
  verdict : Evaluated
  consequenceTemplate : String
  repairTemplate : String
  enabled : Bool := false
  positiveControls : Int := 0
  reviewedAlerts : Int := 0
  calibrationArtifact : Option String := none
  untouchedWorkload : Option String := none
  operationSymbols : List String := []

structure AdmissionCandidate where
  delta : CandidateDelta
  capability : CapabilityKey
  comparison : PushComparison
  dependencyGaps : List String := []
  sanitizerContexts : List String := []

structure CandidateDisposition where
  candidate : AdmissionCandidate
  admitted : Bool
  reasons : List String
  evaluationId : Option String
  capabilityEvaluations : List CapabilityAdmission

structure ActionableDefect where
  defectId : String
  family : String
  witnesses : List String
  locations : List (String × Nat)
  comparisons : List PushComparison
  refs : List String
  changeEvidence : List String
  consequences : List String
  repairs : List String
  evaluationIds : List String

structure AdmissionResult where
  defects : List ActionableDefect
  dispositions : List CandidateDisposition
  coverageReasons : List String

inductive Part where
  | literal (c : Char)
  | field (name : List Char)

/-- `Formatter().parse`, with the text of each field as it stands; none is a `ValueError`. A brace
inside a field makes a field that no template may have. -/
def parts : Option (List Char) → List Char → Option (List Part)
  | none, [] => some []
  | some _, [] => none
  | none, '\x7b' :: '\x7b' :: rest => (parts none rest).map (.literal '\x7b' :: ·)
  | none, '\x7d' :: '\x7d' :: rest => (parts none rest).map (.literal '\x7d' :: ·)
  | none, '\x7b' :: rest => parts (some []) rest
  | none, '\x7d' :: _ => none
  | none, c :: rest => (parts none rest).map (.literal c :: ·)
  | some _, '\x7b' :: _ => none
  | some name, '\x7d' :: rest => (parts none rest).map (.field name :: ·)
  | some name, c :: rest => parts (some (name ++ [c])) rest

/-- The spellings of a field without a format or a conversion. -/
def names (field : String) : List (List Char) := [field.toList, field.toList ++ [':']]

def isField (field : String) : Part → Bool
  | .field name => name ∈ names field
  | .literal _ => false

def Part.filled (operation context : String) : Part → Option (List Char)
  | literal c => some [c]
  | field name =>
    if name ∈ names "operation" then some operation.toList
    else if name ∈ names "context" then some context.toList
    else none

def groundedTemplate (template : String) (operation : EvidenceOperation) (context : String) :
    Option String := do
  let parsed ← parts none template.toList
  if parsed.any (isField "operation") && parsed.any (isField "context") then
    let filled ← parsed.mapM (Part.filled operation.operation context)
    some (String.ofList filled.flatten)
  else none

def startsName (c : Char) : Bool := (c.toNat < 128 && c.isAlpha) || c ∈ ['_', '$', '\\']

/-- `\w`, a dollar sign or a backslash; every character beyond ASCII counts as `\w`. -/
def continuesName (c : Char) : Bool := c.isAlphanum || 128 ≤ c.toNat || c ∈ ['_', '$', '\\']

/-- Where a reader of a qualified callee is. -/
inductive Place where
  | start
  | name
  | gap
  | dash
  | colon
  | separated
deriving DecidableEq

/-- What follows a name or the space behind it. -/
def separator (c : Char) : Option Place :=
  if Text.isSpace c then some .gap
  else if c = '.' then some .separated
  else if c = '-' then some .dash
  else if c = ':' then some .colon
  else none

def Place.next (c : Char) : Place → Option Place
  | start => if startsName c then some name else none
  | name => if continuesName c then some name else separator c
  | gap => separator c
  | dash => if c = '>' then some separated else none
  | colon => if c = ':' then some separated else none
  | separated =>
    if Text.isSpace c then some separated else if startsName c then some name else none

/-- `_CALLEE`, from the start of a text to its end. -/
def isCallee (text : List Char) : Bool :=
  match text.foldlM (fun place c => place.next c) Place.start with
  | some place => place = .name || place = .gap
  | none => false

/-- `operation_symbol`. A callee has spaces around its separators only. -/
def operationSymbol (operation : String) : String :=
  let statement :=
    Text.stripOf Text.isSpace (String.ofList (operation.toList.takeWhile (· ≠ '(')))
  match statement.toList.tails.find? isCallee with
  | some callee => String.ofList (callee.filter fun c => !Text.isSpace c)
  | none => statement

def unless_ (met : Bool) (reason : String) : List String := if met then [] else [reason]

def capabilityReasons : List CapabilityAdmission → List String
  | [] => ["capability_unavailable"]
  | [cap] =>
    unless_ cap.enabled "capability_disabled" ++
      unless_ (cap.verdict = .pass && 1 ≤ cap.positiveControls && 1 ≤ cap.reviewedAlerts &&
        cap.calibrationArtifact.isSome && cap.untouchedWorkload.isSome) "capability_unevaluated"
  | _ => ["capability_ambiguous"]

def provenanceReasons (candidate : AdmissionCandidate) : List String :=
  let delta := candidate.delta
  unless_ (delta.baseRevision.isSome && delta.baseRevision = candidate.comparison.baseOid &&
    delta.headRevision = some candidate.comparison.headOid &&
    delta.semantics = some candidate.capability.semantics) "comparison_provenance_mismatch"

def supportedChanges : List (Novelty × String) :=
  [(.new, "source_connection_absent_from_comparable_base"),
    (.new, "operation_absent_from_comparable_base"), (.new, "file_added_in_head"),
    (.worsened, "discharge_removed")]

def noveltyReasons (delta : CandidateDelta) : List String :=
  if delta.novelty = .unknown then ["comparison_unknown"]
  else if delta.novelty = .unchanged then ["unchanged"]
  else
    unless_ (delta.changeEvidence ≠ [] && supportedChanges.contains (delta.novelty, delta.reason))
      "change_unsupported"

def place (op : EvidenceOperation) : String := op.path ++ ":" ++ toString op.line ++ ":"

def consequenceOf (candidate : AdmissionCandidate) (op : EvidenceOperation)
    (cap : CapabilityAdmission) : Option String :=
  groundedTemplate cap.consequenceTemplate op candidate.capability.context

def repairOf (candidate : AdmissionCandidate) (op : EvidenceOperation)
    (cap : CapabilityAdmission) : Option String :=
  (groundedTemplate cap.repairTemplate op candidate.capability.context).map fun repair =>
    place op ++ " " ++ repair

def operationReasons (candidate : AdmissionCandidate) (op : EvidenceOperation)
    (cap : Option CapabilityAdmission) : List String :=
  let delta := candidate.delta
  let key := candidate.capability
  unless_ (1 ≤ op.line && !Text.startsWith op.path "/" && ".." ∉ Text.segments op.path &&
      Text.startsWith delta.site (place op)) "location_unresolved" ++
    unless_ (op.question.language = key.language && op.question.family = key.family &&
      op.mechanism = key.mechanism && delta.family = key.family) "family_semantics_mismatch" ++
    unless_ (!op.discharged) "claim_discharged" ++
    match cap with
    | none => []
    | some cap =>
      unless_ (cap.operationSymbols.contains (operationSymbol op.operation))
          "operation_semantics_mismatch" ++
        unless_ (consequenceOf candidate op cap).isSome "consequence_unsupported" ++
        unless_ (repairOf candidate op cap).isSome "repair_unsupported"

def matching (capabilities : List CapabilityAdmission) (key : CapabilityKey) :
    List CapabilityAdmission := capabilities.filter fun cap => cap.key = key

def single : List CapabilityAdmission → Option CapabilityAdmission
  | [cap] => some cap
  | _ => none

def reasonsOf (capabilities : List CapabilityAdmission)
    (defects : List (String × ActionableDefect)) (candidate : AdmissionCandidate) : List String :=
  let delta := candidate.delta
  let found := matching capabilities candidate.capability
  capabilityReasons found ++ provenanceReasons candidate ++
    unless_ (delta.rung = "model_entailed") "insufficient_rung" ++ noveltyReasons delta ++
    unless_ (delta.headOperation.isSome && delta.witness.isSome) "witness_unresolved" ++
    (match delta.headOperation with
      | some op => operationReasons candidate op (single found)
      | none => []) ++
    unless_ candidate.dependencyGaps.isEmpty "dependency_unresolved" ++
    unless_ (candidate.sanitizerContexts.all (· = candidate.capability.context))
      "sanitizer_semantics_mismatch" ++
    unless_ ((defects.lookup delta.defectId).all fun previous => previous.family = delta.family)
      "defect_identity_collision"

/-- What an admitted candidate adds to its defect. -/
structure Contribution where
  family : String
  witness : String
  location : String × Nat
  comparison : PushComparison
  changeEvidence : List String
  consequence : String
  repair : String
  evaluationId : String

def CandidateDisposition.contribution (d : CandidateDisposition) : Option Contribution := do
  let op ← d.candidate.delta.headOperation
  let witness ← d.candidate.delta.witness
  let cap ← single d.capabilityEvaluations
  let consequence ← consequenceOf d.candidate op cap
  let repair ← repairOf d.candidate op cap
  some
    { family := d.candidate.delta.family, witness, location := (op.path, op.line)
      comparison := d.candidate.comparison, changeEvidence := d.candidate.delta.changeEvidence
      consequence, repair, evaluationId := cap.evaluationId }

def CandidateDisposition.defectId (d : CandidateDisposition) : String := d.candidate.delta.defectId

def Contribution.defect (c : Contribution) (id : String) : ActionableDefect where
  defectId := id
  family := c.family
  witnesses := [c.witness]
  locations := [c.location]
  comparisons := [c.comparison]
  refs := c.comparison.refs
  changeEvidence := c.changeEvidence
  consequences := [c.consequence]
  repairs := [c.repair]
  evaluationIds := [c.evaluationId]

/-- `dict.fromkeys((*old, *new))`. -/
def union {α : Type} [DecidableEq α] (old new : List α) : List α := (old ++ new).eraseDups

def ActionableDefect.add (previous : ActionableDefect) (c : Contribution) : ActionableDefect :=
  { previous with
    witnesses := union previous.witnesses [c.witness]
    locations := union previous.locations [c.location]
    comparisons := union previous.comparisons [c.comparison]
    refs := union previous.refs c.comparison.refs
    changeEvidence := union previous.changeEvidence c.changeEvidence
    consequences := union previous.consequences [c.consequence]
    repairs := union previous.repairs [c.repair]
    evaluationIds := union previous.evaluationIds [c.evaluationId] }

structure Admitting where
  defects : List (String × ActionableDefect) := []
  dispositions : List CandidateDisposition := []
  gaps : List String := []

/-- The reasons that are no gap of the coverage. -/
def judged : List String := ["unchanged", "insufficient_rung", "claim_discharged"]

def dispose (capabilities : List CapabilityAdmission) (defects : List (String × ActionableDefect))
    (candidate : AdmissionCandidate) : CandidateDisposition :=
  let reasons := reasonsOf capabilities defects candidate
  let found := matching capabilities candidate.capability
  { candidate, admitted := reasons.isEmpty, reasons
    evaluationId := (single found).map (·.evaluationId), capabilityEvaluations := found }

def Admitting.add (capabilities : List CapabilityAdmission) (s : Admitting)
    (candidate : AdmissionCandidate) : Admitting :=
  let disposition := dispose capabilities s.defects candidate
  let id := candidate.delta.defectId
  let next := { s with
    dispositions := s.dispositions ++ [disposition]
    gaps := s.gaps ++ disposition.reasons.filter fun reason => !judged.contains reason }
  -- An admitted candidate has all that the assertion of the source asks for.
  match disposition.admitted, disposition.contribution with
  | true, some c =>
    { next with
      defects := Dicts.set s.defects id
        (match s.defects.lookup id with
          | some previous => previous.add c
          | none => c.defect id) }
  | _, _ => next

def admitCandidates (capabilities : List CapabilityAdmission)
    (candidates : List AdmissionCandidate) : AdmissionResult :=
  let s := candidates.foldl (Admitting.add capabilities) {}
  { defects := s.defects.map (·.2), dispositions := s.dispositions
    coverageReasons := s.gaps.eraseDups }

def ActionableDefect.join (previous defect : ActionableDefect) : ActionableDefect :=
  { previous with
    witnesses := union previous.witnesses defect.witnesses
    locations := union previous.locations defect.locations
    comparisons := union previous.comparisons defect.comparisons
    refs := union previous.refs defect.refs
    changeEvidence := union previous.changeEvidence defect.changeEvidence
    consequences := union previous.consequences defect.consequences
    repairs := union previous.repairs defect.repairs
    evaluationIds := union previous.evaluationIds defect.evaluationIds }

def joinDefect (defects : List (String × ActionableDefect)) (defect : ActionableDefect) :
    List (String × ActionableDefect) :=
  Dicts.set defects defect.defectId
    (match defects.lookup defect.defectId with
      | some previous => previous.join defect
      | none => defect)

def joinAdmissions (reasons : List String) (reports : List AdmissionResult) : AdmissionResult where
  defects := ((reports.flatMap (·.defects)).foldl joinDefect []).map (·.2)
  dispositions := reports.flatMap (·.dispositions)
  coverageReasons := (reasons ++ reports.flatMap (·.coverageReasons)).eraseDups

end OpenUltraSast.Push.Admission
