import OpenUltraSast.Learn.Comments
import OpenUltraSast.Library.Json

/-!
# The quick scan

Every rule of the ruleset is matched against the text of every target.
-/

namespace OpenUltraSast.Quick

open Values

abbrev Hint := List (String × Json)

structure FileTarget where
  path : String
  language : String
  tags : List String := []
  reachabilityHints : List Hint := []

structure PatternRule where
  ruleId : String
  title : String
  languages : List String
  cwe : String
  tags : List String := []
  pattern : String
  status : String := "enabled"
  precisionEstimate : ℚ := 0

structure RankingScore where
  path : String
  priority : ℚ

structure CwePolicy where
  severity : Int
  static : Bool

structure Match where
  start : Nat
  text : String
  groups : List (Option String) := []
deriving DecidableEq

structure StaticFinding where
  findingId : String
  path : String
  title : String
  severity : String
  confidence : String
  evidenceLevel : String
  rationale : String
  line : Nat
  functionName : Option String
  reachabilityStatus : String
  reachabilityEvidence : List Hint
  reachabilityConditions : List String
  tags : List String
  rankingPriority : ℚ
  status : String

def lineBefore (text : List Char) (offset : Nat) : List Char :=
  ((text.take offset).reverse.takeWhile (· ≠ '\n')).reverse

def lineAt (text : List Char) (offset : Nat) : List Char :=
  lineBefore text offset ++ (text.drop offset).takeWhile (· ≠ '\n')

def column (text : List Char) (offset : Nat) : Nat := (lineBefore text offset).length

/-- `text.count("\n", 0, offset)`. -/
def lineIndex (text : List Char) (offset : Nat) : Nat := (text.take offset).count '\n'

def hashCommentLanguages : List String := ["python", "ruby", "shell", "yaml"]

def stripped (line : List Char) : List Char := line.dropWhile Text.isSpace

def startsWith (text : List Char) (start : String) : Bool := start.toList.isPrefixOf text

def markBefore (mark : String) (line : List Char) (column : Nat) : Bool :=
  match Learn.Excerpts.findFrom mark.toList line with
  | some found => found < column
  | none => false

def matchIsInComment (text : List Char) (offset : Nat) (language : String) : Bool :=
  let line := lineAt text offset
  if hashCommentLanguages.contains language then
    startsWith (stripped line) "#" || markBefore "#" line (column text offset)
  else if language = "php" && startsWith (stripped line) "#" &&
      !startsWith (stripped line) "#[" then true
  else if ["//", "/*", "*"].any (startsWith (stripped line)) then true
  else markBefore "//" line (column text offset)

/-- An `int` of Python, which a truth value is too. -/
def asInt : Json → Option Int
  | .int value => some value
  | .bool value => some (if value then 1 else 0)
  | _ => none

def lineInHint (line : Nat) (hint : Hint) : Bool :=
  match asInt (Json.field hint "line") with
  | none => false
  | some start => start ≤ line && line ≤ (asInt (Json.field hint "end_line")).getD start

def functionName (hints : List Hint) : Option String :=
  hints.findSome? fun hint =>
    match Json.field hint "function_name" with
    | .str name => if name = "" then none else some name
    | _ => none

def isNull : Json → Bool
  | .null => true
  | _ => false

def reachabilityForLine (target : FileTarget) (line : Nat) :
    String × Option String × List Hint :=
  let hints := target.reachabilityHints
  let concrete := hints.filter fun hint => (asInt (Json.field hint "line")).isSome
  let found := concrete.filter (lineInHint line)
  if !found.isEmpty then ("reachable", functionName found, found)
  else if !concrete.isEmpty then ("unknown", none, [])
  else
    let inferred := hints.filter fun hint => isNull (Json.field hint "line")
    if !inferred.isEmpty then ("inferred-file-surface", none, inferred) else ("unknown", none, [])

/-- `_reachability_conditions`, with how a value is spelled. -/
def reachabilityConditions (str : Json → String) (hints : List Hint) : List String :=
  Collections.sortedSet (hints.flatMap fun hint =>
    match Json.field hint "conditions" with
    | .arr items => (items.filter Json.truthy).map str
    | _ => [])

def findingPriority (priority : ℚ) (reachabilityStatus : String) : ℚ :=
  if reachabilityStatus = "unknown" then min priority (3 / 2) else priority

def resolveSeverity (policy : List (String × CwePolicy)) (cwe : String) : Int :=
  match policy.lookup cwe with
  | some pol => if pol.static then pol.severity else 0
  | none => 0

def severityLabel : List (Int × String) :=
  [(5, "critical"), (4, "high"), (3, "medium"), (2, "low"), (1, "low"), (0, "info")]

/-- What the rationale names: the first group, or what stands before a parenthesis. -/
def matchedToken (found : Match) : String :=
  match found.groups with
  | first :: _ => first.getD "None"
  | [] =>
    Text.stripOf Text.isSpace (String.ofList (found.text.toList.takeWhile (· ≠ '(')))

/-- What a scan takes from elsewhere: the matches of a pattern, how a value is spelled, the text of
each target, the rankings and the policy. -/
structure Surroundings where
  finditer : String → List Char → List Match
  str : Json → String
  text : FileTarget → List Char
  rankings : List RankingScore
  policy : List (String × CwePolicy)

variable (w : Surroundings)

def Surroundings.ranking (path : String) : Option RankingScore :=
  w.rankings.reverse.find? fun ranking => ranking.path = path

structure Hit where
  target : FileTarget
  rule : PatternRule
  found : Match

def findingFromMatch (hit : Hit) : StaticFinding :=
  let line := lineIndex (w.text hit.target) hit.found.start + 1
  let (status, function, evidence) := reachabilityForLine hit.target line
  let priority := ((w.ranking hit.target.path).map (·.priority)).getD 1
  { findingId := hit.rule.ruleId ++ ":" ++ hit.target.path ++ ":" ++ toString line
    path := hit.target.path
    title := hit.rule.title
    severity := (severityLabel.lookup (resolveSeverity w.policy hit.rule.cwe)).getD "info"
    confidence := "medium"
    evidenceLevel := "static_corroboration"
    rationale := "Static pattern " ++ hit.rule.ruleId ++ " (" ++ hit.rule.cwe ++ ") matched " ++
      matchedToken hit.found ++ " on line " ++ toString line ++
      "; manual verification still required."
    line := line
    functionName := function
    reachabilityStatus := status
    reachabilityEvidence := evidence
    reachabilityConditions := reachabilityConditions w.str evidence
    tags := Collections.sortedSet (hit.target.tags ++ hit.rule.tags)
    rankingPriority := findingPriority priority status
    status := hit.rule.status }

def enabled (minEmitPrecision : ℚ) (rule : PatternRule) : Bool :=
  rule.status ≠ "disabled" && minEmitPrecision ≤ rule.precisionEstimate

def appliesTo (target : FileTarget) (rule : PatternRule) : Bool :=
  rule.languages.isEmpty || rule.languages.contains target.language

/-- The matches that the scan emits a finding for, in the order that it comes to them. -/
def emitted (minEmitPriority minEmitPrecision : ℚ) (ruleset : List PatternRule)
    (targets : List FileTarget) : List Hit :=
  targets.flatMap fun target =>
    ((ruleset.filter (enabled minEmitPrecision)).filter (appliesTo target)).flatMap fun rule =>
      ((w.finditer rule.pattern (w.text target)).map (Hit.mk target rule)).filter
        fun hit =>
          !matchIsInComment (w.text target) hit.found.start target.language &&
            minEmitPriority ≤ (findingFromMatch w hit).rankingPriority

def severitySort (severity : String) : Nat :=
  ([("critical", 0), ("high", 1), ("medium", 2), ("low", 3), ("info", 4)].lookup severity).getD 5

/-- The order of findings: the graver ones first, then the higher priority, then the path. -/
def StaticFinding.before (a b : StaticFinding) : Bool :=
  severitySort a.severity < severitySort b.severity ||
    (severitySort a.severity = severitySort b.severity &&
      (b.rankingPriority < a.rankingPriority ||
        (a.rankingPriority = b.rankingPriority && a.path ≤ b.path)))

def quickScanFindings (minEmitPriority minEmitPrecision : ℚ) (ruleset : List PatternRule)
    (targets : List FileTarget) : List StaticFinding :=
  let findings := (emitted w minEmitPriority minEmitPrecision ruleset targets).map
    (findingFromMatch w)
  findings.insertionSort fun a b => a.before b

end OpenUltraSast.Quick
