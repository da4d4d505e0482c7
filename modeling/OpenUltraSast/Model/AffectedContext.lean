import Mathlib.Data.Finset.Basic
import OpenUltraSast.Library.Sorting
import OpenUltraSast.Library.Dicts
import OpenUltraSast.Model.Contracts

/-!
# Graph locations of a change

The context rows of the questions are attached to a change by the spans and the unchanged lines of the
files that they name. The pass decodes and indexes these once, finds the lines by bisection, keeps the
relationships in a set beside their list, and remembers what the file system said.
-/

namespace OpenUltraSast.Model.Regions

open Bisect Dicts Values

/-- What the pass takes from elsewhere: how values are spelled and numbers read, the ids of the
questions, and how raw paths are spelled. -/
structure Spelling where
  str : Json → String
  int : String → Option Int
  questionId : QuestionIdentity → String
  fsdecode : String → String

structure FileSystem where
  root : List String
  resolve : String → Option (List String)
  isFile : String → Bool

abbrev Row := List (String × Json)

variable (w : Spelling) (fs : FileSystem)

def decodePath (context : ChangeContext) (path : String) : String :=
  match context.pathEncoding with
  | .text => path
  | .filesystemBytesHex => w.fsdecode path

/-- `str(row.get(key, default))`. -/
def textOf (row : Row) (key default : String) : String := ((row.lookup key).map w.str).getD default

def kindOf (row : Row) : Option String :=
  match row.lookup "kind" with
  | some (.str kind) => some kind
  | _ => none

def extentOf (row : Row) : Option (Int × Int) := do
  let start ← w.int (textOf w row "startLine" "0")
  let stop ← w.int (textOf w row "endLine" "0")
  if start < 1 ∨ stop < start then none else some (start, stop)

def belowRoot (raw : String) : Option (List String) :=
  (fs.resolve raw).bind fun path =>
    if fs.root.isPrefixOf path then some (path.drop fs.root.length) else none

/-- `_context_path(raw, root, resolved_root)`. -/
def contextPath (raw : String) : Option String :=
  (belowRoot fs raw).bind fun path =>
    if fs.isFile raw then some (if path = [] then "." else "/".intercalate path) else none

/-- What is remembered of a location in a file that the change did not touch. -/
def usable (raw : String) : Bool := (belowRoot fs raw).isSome && fs.isFile raw

def unusableExtents (row : Row) : Bool :=
  match w.int (textOf w row "unusableExtents" "0") with
  | some count => 0 < count
  | none => true

def unusablePaths : List Json → List (String × Bool) → Bool × List (String × Bool)
  | [], checked => (false, checked)
  | raw :: rest, checked =>
    let (found, checked) := recalled (usable fs) checked (w.str raw)
    if found then unusablePaths rest checked else (true, checked)

/-- `_elsewhere_unusable(row, root, checked)`. -/
def elsewhereUnusable (row : Row) (checked : List (String × Bool)) :
    Bool × List (String × Bool) :=
  if unusableExtents w row then (true, checked)
  else
    match row.lookup "paths" with
    | some (.arr paths) => unusablePaths w fs paths checked
    | _ => (true, checked)

structure Span where
  side : Side
  oldPath : String
  startLine : Nat
  endLine : Nat

def sideName : Side → String
  | .base => "base"
  | .head => "head"

def Span.evidence (span : Span) : String :=
  sideName span.side ++ "_span:" ++ span.oldPath ++ ":" ++ toString span.startLine ++ "-" ++
    toString span.endLine

def Span.meets (span : Span) (start stop : Int) : Bool :=
  span.side = .base || (span.startLine ≤ stop && start ≤ span.endLine)

def lineEvidence (line : Nat) : String := "unchanged_line:" ++ toString line ++ ";lexical_only"

/-- An anchor: the line in the head, and its place among the line correspondences. -/
abbrev Anchor := Nat × Nat

/-- `_anchored_lines(anchors, start, end)`. -/
def anchoredLines (anchors : List Anchor) (start stop : Int) : List Nat :=
  if anchors = [] then []
  else
    -- the keys are `(start, -1)` and `(end, inf)`, and no place is negative or infinite
    let low := bisect (fun anchor => (anchor.1 : Int) < start) anchors
    let high := bisect (fun anchor => (anchor.1 : Int) ≤ stop) anchors
    (((anchors.drop low).take (high - low)).insertionSort fun a b => a.2 ≤ b.2).map (·.1)

section Index
variable (context : ChangeContext)

def renamed : List (String × String) :=
  ofEntries (context.renames.map fun rename =>
    (decodePath w context rename.basePath, decodePath w context rename.headPath))

def attachable : List String :=
  context.changedPaths.map (decodePath w context) ++ (renamed w context).map (·.2)

def spanOf (span : ChangedSpan) : Span :=
  ⟨span.side, decodePath w context span.path, span.startLine, span.endLine⟩

def matchPath (span : ChangedSpan) : String :=
  let oldPath := decodePath w context span.path
  if span.side = .base then ((renamed w context).lookup oldPath).getD oldPath else oldPath

def spansByPath : List (String × List Span) :=
  group (context.spans.map fun span => (matchPath w context span, spanOf w context span))

def sortAnchors (anchors : List Anchor) : List Anchor :=
  anchors.insertionSort fun a b => a.1 < b.1 ∨ a.1 = b.1 ∧ a.2 ≤ b.2

def anchorsByPath : List (String × List Anchor) :=
  (group (context.lineCorrespondences.zipIdx.map fun (anchor, index) =>
    (decodePath w context anchor.headPath, (anchor.headStartLine, index)))).map
    fun (path, anchors) => (path, sortAnchors anchors)

def indexedEvidence (path : String) (start stop : Int) : List String :=
  ((valuesOf (spansByPath w context) path).filter (·.meets start stop)).map Span.evidence ++
    (anchoredLines (valuesOf (anchorsByPath w context) path) start stop).map lineEvidence

end Index

/-- What the pass holds: the relationships and the gaps found so far, those of the question at hand,
and what it remembers. -/
structure Pass where
  relationships : List AffectedRelationship
  gaps : List String
  affected : Finset QuestionIdentity := ∅
  localGaps : List String := []
  recordedOnly : List String := []
  known : Finset AffectedRelationship := ∅
  checked : List (String × Bool) := []
  resolved : List (String × Option String) := []

def reachabilityBounded : String := "dynamic_external_or_depth_context_unresolved"

def addBoundary (row : Row) (s : Pass) : Pass :=
  let reason := textOf w row "reason" "context_unresolved"
  if Text.startsWith reason reachabilityBounded then
    { s with recordedOnly := s.recordedOnly ++ [reason] }
  else { s with localGaps := s.localGaps ++ [reason] }

def addUnavailable (s : Pass) : Pass :=
  { s with localGaps := s.localGaps ++ ["context_location_unavailable"] }

def relationOf (identity : QuestionIdentity) (path : String) (row : Row) (evidence : List String) :
    AffectedRelationship where
  source :=
    { identity with
      path
      function := some (textOf w row "function" "") |>.filter (· ≠ "") }
  target := identity
  kind := textOf w row "relationship" "method"
  evidence

/-- Whether a relationship is known is asked of the set, and its place is kept in the list. -/
def addKnown (relation : AffectedRelationship) (s : Pass) : Pass :=
  if relation ∈ s.known then s
  else
    { s with
      known := insert relation s.known
      relationships := s.relationships ++ [relation] }

section Rows
variable (context : ChangeContext) (identity : QuestionIdentity)

def indexedRow (s : Pass) (row : Row) : Pass :=
  match kindOf row with
  | some "context_boundary" => addBoundary w row s
  | some "context_elsewhere" =>
    let (unusable, checked) := elsewhereUnusable w fs row s.checked
    let s := { s with checked }
    if unusable then addUnavailable s else s
  | some "context_method" =>
    let (path, resolved) := recalled (contextPath fs) s.resolved (textOf w row "path" "")
    let s := { s with resolved }
    match path, extentOf w row with
    | some path, some (start, stop) =>
      if path ∈ attachable w context then
        let evidence := indexedEvidence w context path start stop
        if evidence = [] then s else addKnown (relationOf w identity path row evidence) s
      else s
    | _, _ => addUnavailable s
  | _ => s

end Rows

/-- What is missing of the rows of a question before they are read. -/
def openingGaps (rows : List Row) : List String :=
  if !rows.any (kindOf · = some "context_summary") then
    ["context_projection_unavailable:contributor-scan"]
  else if !rows.any (fun row => kindOf row = some "context_method" ∨
      kindOf row = some "context_elsewhere") ∧ !rows.any (kindOf · = some "context_boundary") then
    ["context_scope_empty:contributor-scan"]
  else []

def closeQuestion (inherited : Bool) (identity : QuestionIdentity) (s : Pass) : Pass :=
  { s with
    affected := if s.localGaps ≠ [] ∨ inherited then insert identity s.affected else s.affected
    gaps := s.gaps ++ (s.localGaps ++ s.recordedOnly).map (· ++ ":" ++ w.questionId identity) }

section Questions
variable (readRow : QuestionIdentity → Pass → Row → Pass) (inherited : Bool)
  (questions : List QuestionIdentity) (rowsByQuestion : QuestionIdentity → List Row)

def askQuestion (identity : QuestionIdentity) (s : Pass) : Pass :=
  let rows := rowsByQuestion identity
  closeQuestion w inherited identity
    (rows.foldl (readRow identity) { s with localGaps := openingGaps rows, recordedOnly := [] })

/-- The loop over the questions. It ends where the deadline has passed. -/
def askQuestions (expired : Nat → Bool) : Nat → List QuestionIdentity → Pass → Pass
  | _, [], s => s
  | number, identity :: rest, s =>
    if expired number then
      { s with
        gaps := s.gaps ++ ["change_context_deadline_exhausted"]
        affected := s.affected ∪ questions.toFinset }
    else
      askQuestions expired (number + 1) rest
        (askQuestion w readRow inherited rowsByQuestion identity s)

end Questions

def ambiguousCorrespondence : String := "ambiguous_line_correspondence"

def contextGaps (context : ChangeContext) : List String :=
  context.unresolvedBoundaries ++
    (if context.deletedPaths ≠ [] then
      ["deleted_dependency_projection_unavailable:contributor-scan"] else []) ++
    (if (context.changedPaths.map (decodePath w context)).any
        (· ∈ context.declarationPaths.map (decodePath w context)) then
      ["configuration_dependency_projection_unavailable:contributor-scan"] else []) ++
    (if context.baseRevision = none then ["comparison_base_unavailable"] else [])

def inheritedGap (gaps : List String) : Bool :=
  gaps.any fun gap => !Text.endsWith gap (":" ++ ambiguousCorrespondence)

section Context
variable (context : ChangeContext) (questions : List QuestionIdentity)
  (rowsByQuestion : QuestionIdentity → List Row) (expired : Nat → Bool)

def finishContext (s : Pass) : ChangeContext × Finset QuestionIdentity :=
  ({ context with relationships := s.relationships, unresolvedBoundaries := s.gaps.eraseDups },
    s.affected)

/-- `affected_context(context, questions, rows_by_question, root, execution_budget)`. Without a budget
the deadline never passes. -/
def affectedContext : ChangeContext × Finset QuestionIdentity :=
  let gaps := contextGaps w context
  finishContext context
    (askQuestions w (indexedRow w fs context) (inheritedGap gaps) questions rowsByQuestion expired 0
      questions
      { relationships := context.relationships
        known := context.relationships.toFinset
        gaps })

end Context

section Plain
variable (context : ChangeContext)

/-- The evidence for the lines of a file among all spans and all line correspondences. -/
def plainEvidence (path : String) (start stop : Int) : List String :=
  (context.spans.filterMap fun span =>
    if matchPath w context span = path ∧ (spanOf w context span).meets start stop then
      some (spanOf w context span).evidence
    else none) ++
  context.lineCorrespondences.filterMap fun anchor =>
    if decodePath w context anchor.headPath = path ∧ start ≤ anchor.headStartLine ∧
        anchor.headStartLine ≤ stop then
      some (lineEvidence anchor.headStartLine)
    else none

def addNew (relation : AffectedRelationship) (s : Pass) : Pass :=
  if relation ∈ s.relationships then s
  else { s with relationships := s.relationships ++ [relation] }

def plainUnusable (row : Row) : Bool :=
  unusableExtents w row ||
    match row.lookup "paths" with
    | some (.arr paths) => paths.any fun raw => !usable fs (w.str raw)
    | _ => true

def plainRow (touched : String → Bool) (identity : QuestionIdentity) (s : Pass) (row : Row) : Pass :=
  match kindOf row with
  | some "context_boundary" => addBoundary w row s
  | some "context_elsewhere" => if plainUnusable w fs row then addUnavailable s else s
  | some "context_method" =>
    match contextPath fs (textOf w row "path" ""), extentOf w row with
    | some path, some (start, stop) =>
      let evidence := plainEvidence w context path start stop
      if touched path = false ∨ evidence = [] then s
      else addNew (relationOf w identity path row evidence) s
    | _, _ => addUnavailable s
  | _ => s

/-- The plain pass: every row scans all spans and all line correspondences. -/
def plainContext (touched : String → Bool) (questions : List QuestionIdentity)
    (rowsByQuestion : QuestionIdentity → List Row) (expired : Nat → Bool) :
    ChangeContext × Finset QuestionIdentity :=
  let gaps := contextGaps w context
  finishContext context
    (askQuestions w (plainRow w fs context touched) (inheritedGap gaps) questions rowsByQuestion
      expired 0 questions { relationships := context.relationships, gaps })

end Plain

end OpenUltraSast.Model.Regions
