import OpenUltraSast.Library.Dicts
import OpenUltraSast.Semantic.Taint

/-!
# The overlay

The inventory findings of a scan against the analysed flows of its files: a finding meets the taint
paths and demotions of its file by path, line and name, and a taint path on a line without a finding
becomes a coverage record.
-/

namespace OpenUltraSast.Semantic.Overlay

open Dicts Text Taint

structure FileTarget where
  path : String
  language : String

structure StaticFinding where
  findingId : String
  path : String
  title : String
  rationale : String
  line : Option Nat

inductive Disposition where
  | promote
  | demote
  | unadjudicated
  | coverage
deriving DecidableEq

structure OverlayRecord where
  proposalId : String
  path : String
  line : Option Nat
  disposition : Disposition
  reason : String
  cwe : String
  sources : List String
  sinks : List String
  sanitizers : List String
  evidenceLevel : String := "static_corroboration"
  dominatingFact : Option String := none
  origin : String := "inventory"
  engine : String
  language : String
  function : Option String := none
  mechanismId : Option String := none
deriving DecidableEq

def unadjudicatedReasons : List String :=
  ["parse_failed", "language_unsupported", "flow_incomplete", "facts_unavailable"]

def allowedEvidence : List String := ["static_corroboration", "suspicion"]

def forbiddenEvidence : List String :=
  ["crash_reproduced", "exploit_demonstrated", "patch_validated", "root_cause_explained"]

/-- The record, unless `__post_init__` refuses it. -/
def OverlayRecord.checked (r : OverlayRecord) : Except String OverlayRecord :=
  if r.evidenceLevel ∈ forbiddenEvidence then .error "overlay cannot claim proof rungs"
  else if r.evidenceLevel ∉ allowedEvidence then
    .error ("invalid evidence_level: " ++ r.evidenceLevel)
  else if r.disposition = .demote ∧ r.dominatingFact.getD "" = "" ∧ r.sanitizers = [] then
    .error "demote requires a recorded constant or sanitizer"
  else if r.disposition = .unadjudicated ∧ r.reason ∉ unadjudicatedReasons then
    .error ("invalid unadjudicated reason: " ++ r.reason)
  else .ok r

inductive Flow where
  | analysed (engine : String) (flow : FileFlow)
  | unadjudicated (reason engine : String)
deriving DecidableEq

structure FunctionRange where
  name : String
  start : Nat
  stop : Nat
  kind : String

def functionAt (ranges : List FunctionRange) (line : Option Nat) : String :=
  let found := ranges.filter fun item =>
    item.kind = "function" ∧ line.any fun line => item.start ≤ line && line ≤ item.stop
  match found with
  | [] => "<module>"
  | first :: rest =>
    (rest.foldl (fun best item =>
      if item.stop - item.start < best.stop - best.start then item else best) first).name

/-- `merge_joern_paths(existing, extra)`. -/
def mergeJoernPaths (existing extra : List TaintPath) : List TaintPath :=
  let key (item : TaintPath) := (item.path, item.sinkLine, item.sink)
  (extra.foldl (fun (merged, seen) item =>
    if seen.contains (key item) then (merged, seen) else (merged ++ [item], seen ++ [key item]))
    (existing, existing.map key)).1

/-- What reads the files: the parser with its engine, the ranges of the functions, and the paths of
the second engine. -/
structure Engines where
  text : String → String
  parseFile : String → String → String → FileIR × String
  rangesFromIr : FileIR → String → List FunctionRange
  joernFlow : String → String → String → List TaintPath

variable (engines : Engines)

def flowOf (factsFor : String → FlowFacts) (joernExtra : Option (List TaintPath))
    (target : FileTarget) : Flow × Option (List FunctionRange) :=
  let text := engines.text target.path
  let (ir, engine) := engines.parseFile target.path text target.language
  if !ir.parseOk then
    (.unadjudicated ((ir.reason.filter (· ≠ "")).getD "parse_failed") engine, none)
  else
    let analyzed := analyzeIr ir (factsFor target.language)
    let extra := joernExtra.getD (engines.joernFlow target.path text target.language)
    let paths :=
      if extra = [] then analyzed.taintPaths else mergeJoernPaths analyzed.taintPaths extra
    (.analysed engine { analyzed with taintPaths := paths }, some (engines.rangesFromIr ir text))

/-- `_flows_for(...)`. -/
def flowsFor (targets : List FileTarget) (factsFor : String → FlowFacts)
    (joernExtra : Option (List TaintPath)) :
    List (String × Flow) × List (String × List FunctionRange) :=
  (ofEntries (targets.map fun target => (target.path, (flowOf engines factsFor joernExtra target).1)),
    ofEntries (targets.filterMap fun target =>
      ((flowOf engines factsFor joernExtra target).2).map fun ranges => (target.path, ranges)))

/-- `str.lower`. It treats what follows a space as it treats that text alone. -/
structure Lowercase where
  lower : String → String
  space : ∀ front text, lower (front ++ " " ++ text) = lower (front ++ " ") ++ lower text

variable (lc : Lowercase)

def sinkHint (finding : StaticFinding) : String := firstPart ':' finding.findingId

def lineMatches (line : Option Nat) (sinkLine : Nat) : Bool :=
  line.all (· = sinkLine)

/-- `_sink_matches(finding, sink)`. -/
def sinkMatches (finding : StaticFinding) (sink : String) : Bool :=
  let haystack := lc.lower (finding.findingId ++ " " ++ finding.title ++ " " ++ finding.rationale ++
    " " ++ sink)
  contains haystack (lc.lower sink) || contains (lc.lower sink) (lc.lower (sinkHint finding))

def firstMatch {α : Type} (finding : StaticFinding) (path sink : α → String) (line : α → Nat)
    (items : List α) : Option α :=
  (items.find? fun item => path item = finding.path && lineMatches finding.line (line item) &&
      sinkMatches lc finding (sink item)).or
    (items.find? fun item => path item = finding.path && lineMatches finding.line (line item))

def matchingTaint (finding : StaticFinding) (flow : FileFlow) : Option TaintPath :=
  firstMatch lc finding (·.path) (·.sink) (·.sinkLine) flow.taintPaths

def matchingDemotion (finding : StaticFinding) (flow : FileFlow) : Option Demotion :=
  firstMatch lc finding (·.path) (·.sink) (·.sinkLine) flow.demotions

/-- `_cwe_of(finding)`. -/
def cweOf (finding : StaticFinding) : String :=
  let spaced := finding.rationale.toList.map fun c => if c = '(' ∨ c = ')' then ' ' else c
  match ((spaced.splitOnP isSpace).map String.ofList).find? (startsWith · "CWE-") with
  | some token => rstripOf (fun c => c = '.' || c = ',' || c = ';') token
  | none => ""

def unadjudicated (finding : StaticFinding) (language reason engine : String)
    (function : Option String := none) : Except String OverlayRecord :=
  OverlayRecord.checked
    { proposalId := finding.findingId, path := finding.path, line := finding.line
      disposition := .unadjudicated, reason := reason, cwe := cweOf finding
      sources := [], sinks := [], sanitizers := [], engine := engine, language := language
      function := function }

def orElse (first second : String) : String := if first = "" then second else first

def demoted (finding : StaticFinding) (language engine function : String) (demotion : Demotion) :
    Except String OverlayRecord :=
  OverlayRecord.checked
    { proposalId := finding.findingId, path := finding.path, line := finding.line
      disposition := .demote
      reason := demotion.sink ++ " dominated by " ++ demotion.dominatingFact
      cwe := orElse demotion.cwe (cweOf finding)
      sources := [], sinks := [demotion.sink], sanitizers := demotion.sanitizers
      dominatingFact := some demotion.dominatingFact, engine := engine, language := language
      function := some function }

def promoted (finding : StaticFinding) (language engine function : String) (taint : TaintPath) :
    Except String OverlayRecord :=
  OverlayRecord.checked
    { proposalId := finding.findingId, path := finding.path, line := finding.line
      disposition := .promote
      reason := taint.source ++ " reaches " ++ taint.sink ++ " without a dominating sanitizer"
      cwe := orElse taint.cwe (cweOf finding)
      sources := [taint.source], sinks := [taint.sink], sanitizers := [], engine := engine
      language := language, function := some function }

/-- `_record_for_finding(finding, language, flow, function)`. -/
def recordForFinding (finding : StaticFinding) (language : String) (flow : Option Flow)
    (function : String) : Except String OverlayRecord :=
  match flow with
  | none => unadjudicated finding language "flow_incomplete" "none"
  | some (.unadjudicated reason engine) =>
    unadjudicated finding language
      (if reason ∈ unadjudicatedReasons then reason else "flow_incomplete") engine
  | some (.analysed engine flow) =>
    match matchingDemotion lc finding flow, matchingTaint lc finding flow with
    | some demotion, none => demoted finding language engine function demotion
    | some demotion, some taint =>
      if demotion.sanitizers = [] then promoted finding language engine function taint
      else demoted finding language engine function demotion
    | none, some taint => promoted finding language engine function taint
    | none, none => unadjudicated finding language "flow_incomplete" engine (some function)

abbrev Claim := String × Option Nat × String

structure Traced where
  taint : TaintPath
  engine : String
  language : String
  function : String

def covers (traced : Traced) : Except String OverlayRecord :=
  let taint := traced.taint
  OverlayRecord.checked
    { proposalId := "overlay-coverage:" ++ taint.path ++ ":" ++ toString taint.sinkLine ++ ":" ++
        taint.sink
      path := taint.path, line := some taint.sinkLine, disposition := .coverage
      reason := "uninventoried sink " ++ taint.sink ++ " reached from " ++ taint.source
      cwe := taint.cwe, sources := [taint.source], sinks := [taint.sink], sanitizers := []
      origin := "overlay", engine := traced.engine, language := traced.language
      function := some traced.function }

def onLine (findings : List StaticFinding) (taint : TaintPath) : Bool :=
  findings.any fun item => item.path = taint.path && item.line = some taint.sinkLine

def coverage (findings : List StaticFinding) :
    List Claim → List Traced → Except String (List OverlayRecord)
  | _, [] => .ok []
  | claimed, traced :: rest => do
    let key := (traced.taint.path, some traced.taint.sinkLine, traced.taint.sink)
    if key ∈ claimed ∨ onLine findings traced.taint then coverage findings claimed rest
    else
      let record ← covers traced
      let records ← coverage findings (claimed ++ [key]) rest
      .ok (record :: records)

def tracedPaths (languages : List (String × String)) (ranges : List (String × List FunctionRange))
    (flows : List (String × Flow)) : List Traced :=
  flows.flatMap fun (path, flow) =>
    match flow with
    | .unadjudicated _ _ => []
    | .analysed engine flow =>
      flow.taintPaths.map fun taint =>
        ⟨taint, engine, (languages.lookup path).getD flow.language,
          functionAt ((ranges.lookup path).getD []) (some taint.sinkLine)⟩

/-- `adjudicate(...)`; without facts no flow is analysed. -/
def adjudicate (targets : List FileTarget) (findings : List StaticFinding)
    (facts : Option (String → FlowFacts)) (joernExtra : Option (List TaintPath)) :
    Except String (List OverlayRecord) :=
  let languages := ofEntries (targets.map fun target => (target.path, target.language))
  match facts with
  | none =>
    findings.mapM fun finding =>
      unadjudicated finding ((languages.lookup finding.path).getD "") "facts_unavailable" "none"
  | some factsFor => do
    let (flows, ranges) := flowsFor engines targets factsFor joernExtra
    let records ← findings.mapM fun finding =>
      recordForFinding lc finding ((languages.lookup finding.path).getD "")
        (flows.lookup finding.path)
        (functionAt ((ranges.lookup finding.path).getD []) finding.line)
    let claimed := findings.map fun finding => (finding.path, finding.line, sinkHint finding)
    let covered ← coverage findings claimed (tracedPaths languages ranges flows)
    .ok (records ++ covered)

end OpenUltraSast.Semantic.Overlay
