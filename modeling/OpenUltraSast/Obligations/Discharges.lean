import OpenUltraSast.Obligations.Operations
import OpenUltraSast.Semantic.Taint

/-!
# Operation and constraint sites in the source text

Which calls match an operation fact, and where the value that an identity constraint binds comes
from.
-/

namespace OpenUltraSast.Obligations

open Semantic

/-- One discharger fact: calls and decorators that witness a discharge, and the texts
that tell where an identity value comes from. -/
structure DischargerFact where
  id : String
  kind : DischargerKind
  language : String
  calls : List String := []
  decorators : List String := []
  identitySources : List String := []
  constraintParams : List String := []
  requestSources : List String := []
  permissiveValues : List String := []
deriving DecidableEq, Repr

structure ObligationFacts where
  operations : List OperationFact
  dischargers : List DischargerFact

/-- A flow-fact source: the texts that name request input. -/
structure SourceFact where
  patterns : List String
  language : String

structure SemanticFacts where
  sources : List SourceFact

/-- `str.lower` of a text whose letters are ASCII. -/
def lower (text : String) : String := String.ofList (text.toList.map Char.toLower)

def languageAliases : List (String × String) :=
  [("c_cpp", "cpp"), ("c++", "cpp"), ("python_web", "python"), ("py", "python"),
    ("node", "javascript"), ("js", "javascript"), ("ts", "typescript")]

def canonicalLanguage (name : String) : String :=
  let name := lower (strip name)
  (languageAliases.lookup name).getD name

def ObligationFacts.forLanguage (facts : ObligationFacts) (language : String) : ObligationFacts :=
  let key := canonicalLanguage language
  let key := if key = "cpp" then "c" else key
  ⟨facts.operations.filter (·.language = key), facts.dischargers.filter (·.language = key)⟩

def SemanticFacts.forLanguage (facts : SemanticFacts) (language : String) : SemanticFacts :=
  let key := canonicalLanguage language
  -- The flow facts of JavaScript serve TypeScript too.
  let key := if key = "cpp" then "c" else if key = "typescript" then "javascript" else key
  ⟨facts.sources.filter (·.language = key)⟩

/-- `pattern in text`. -/
def occursIn (pattern text : String) : Bool := pattern.toList <:+: text.toList

def before (c : Char) (text : String) : String := String.ofList (text.toList.takeWhile (· ≠ c))

/-- `_call_matches`: exact, dotted suffix, or a bare name equal to the fact's last
segment. -/
def callMatches (name factCall : String) : Bool :=
  name = factCall || ("." ++ factCall).toList.isSuffixOf name.toList ||
    (!name.toList.contains '.' && name = afterLast "." factCall)

def isLiteral (value : String) : Bool :=
  let any := Regex.star (.char (· ≠ '\n'))
  let quote := Regex.oneOf "'\""
  let digits := Regex.plus (.char Char.isDigit)
  (Regex.alts [.seqs [quote, any, quote], .seq digits (.opt (.seq (.lit ".") digits)),
    .lit "True", .lit "False", .lit "None", .seqs [.lit "[", any, .lit "]"],
    .seqs [.lit "\x7b", any, .lit "\x7d"]]).matchFull (strip value)

/-- A value bound with `=`: what follows the sign up to a comma or a parenthesis. -/
def boundValue : Regex :=
  .seqs [.spaces, .lit "=", .spaces, .group 1 (.plus (.char fun c => c ≠ ',' && c ≠ ')'))]

/-- `_all_constant`: neither a positional argument nor a keyword value varies. -/
def allConstant (call : CallSite) (lineText : String) : Bool :=
  let keywordValues :=
    ((Regex.seqs [.boundary, .plus .word, boundValue]).findAll lineText).map
      fun found => (found.group? 1).getD ""
  let positionalConstant := call.argTexts = [] || call.argIsConstant.all id
  positionalConstant && keywordValues.all isLiteral && (call.argTexts ≠ [] || keywordValues ≠ [])

structure OperationSite where
  call : CallSite
  fact : OperationFact
  function : FunctionIR
  lineText : String

def lineAt (lines : List String) (line : Nat) : String :=
  if 0 < line then (lines[line - 1]?).getD "" else ""

/-- `_operations`: the calls of the function that match an operation fact. A call on
constants only is no obligated access. -/
def operationSites (function : FunctionIR) (facts : ObligationFacts) (lines : List String)
    (kind : Option OperationKind) : List OperationSite :=
  function.calls.filterMap fun call =>
    let lineText := lineAt lines call.line
    let applies := fun fact : OperationFact =>
      kind.all (· = fact.kind) && fact.calls.any (callMatches call.name) &&
        !allConstant call lineText
    (facts.operations.find? applies).map fun fact => ⟨call, fact, function, lineText⟩

/-- `_flow_source_in`: a flow source or one of the fact's request sources. -/
def flowSourceIn (text : String) (flow : SemanticFacts) (fact : DischargerFact) : Bool :=
  flow.sources.any (fun source => source.patterns.any fun p => p ≠ "" && occursIn p text) ||
    fact.requestSources.any (occursIn · text)

def latestBind : List Bind → Option Bind
  | [] => none
  | bind :: rest =>
    match latestBind rest with
    | none => some bind
    | some later => if bind.line < later.line then some later else some bind

def identifierStart : Regex := .char fun c => c.isAlpha || c = '_'

/-- `_provenance_of`: names are followed through their latest earlier binding; the
fuel is the number of bindings that may still be followed. -/
def provenanceOf (function : FunctionIR) (fact : DischargerFact) (flow : SemanticFacts) :
    Nat → String → Nat → Provenance
  | 0, _, _ => .unknown
  | fuel + 1, value, beforeLine =>
    if fact.identitySources.any (occursIn · value) then .authenticatedContext
    else if isLiteral value then .constant
    else
      let dotted := Regex.group 0 (.seq identifierStart (.star (.char fun c =>
        Regex.isWord c || c = '.')))
      match (dotted.matchStart value).bind (·.group? 0) with
      | none => .unknown
      | some found =>
        let name := before '.' found
        let binds := function.binds.filter fun b => b.name = name && b.line < beforeLine
        match latestBind binds with
        | some bind =>
          if fact.identitySources.any (occursIn · bind.valueText) then .authenticatedContext
          else if flowSourceIn bind.valueText flow fact then .requestInput
          else
            let inner := (bind.names.filter (· ≠ name)).findSome? fun inner =>
              match provenanceOf function fact flow fuel inner bind.line with
              | .unknown => none
              | found => some found
            inner.getD (if bind.isConstant && bind.names = [] then .constant else .unknown)
        | none =>
          -- A handler's parameters are route or body values.
          if name ∈ function.params then .requestInput
          else if flowSourceIn value flow fact then .requestInput
          else .unknown

/-- `_constraint_provenance`: the first constraint keyword on the operation's line. -/
def constraintProvenance (site : OperationSite) (fact : DischargerFact) (flow : SemanticFacts) :
    Option Provenance :=
  fact.constraintParams.findSome? fun param =>
    match (Regex.seqs [.boundary, .lit param, boundValue]).search site.lineText with
    | none => none
    | some found =>
      some (provenanceOf site.function fact flow 9 (strip ((found.group? 1).getD ""))
        site.call.line)

/-- `_permissive`: the setting call carries one of the fact's permissive values. -/
def permissive (site : OperationSite) (fact : DischargerFact) : Bool :=
  fact.permissiveValues.any (occursIn · site.lineText)

end OpenUltraSast.Obligations

/-! # Operations and discharge witnesses of one parsed file -/

namespace OpenUltraSast.Obligations

open Semantic

inductive AccessLevel where
  | isPublic
  | unknown
  | authenticated
  | roleRestricted
  | contractOnly
  | localOnly
  | reviewRequired
deriving DecidableEq, Repr

def AccessLevel.name : AccessLevel → String
  | .isPublic => "public"
  | .unknown => "unknown"
  | .authenticated => "authenticated"
  | .roleRestricted => "role-restricted"
  | .contractOnly => "contract-only/callback"
  | .localOnly => "local-only"
  | .reviewRequired => "review-required"

structure EntryPoint where
  path : String
  functionName : Option String
  name : String
  kind : String
  accessLevel : AccessLevel
  accessEvidence : List String := []
deriving DecidableEq, Repr

def EntryPoint.node (entry : EntryPoint) : String :=
  nodeName entry.path (entry.functionName.getD "None")

/-- `re.search` of a handler pattern, which is fact data, in a function's name. -/
abbrev HandlerSearch := String → String → Bool

def plumbingNames : List String :=
  ["self", "cls", "db", "session", "cursor", "conn", "connection", "c", "cur", "request", "req",
    "this"]

/-- `_resource_token`: the argument the fact points at, the receiver's first segment,
or a table name in the line. -/
def resourceToken (callee lineText : String) (resourceArg : Option Nat) (argTexts : List String) :
    Option String :=
  let identifier := Regex.group 0 (.seq identifierStart (.star .word))
  match resourceArg.bind (argTexts[·]?) with
  | some argText => ((identifier.matchStart (strip argText)).bind (·.group? 0)).map lower
  | none =>
    let head := before '(' (before '.' callee)
    if head ≠ "" && head ∉ plumbingNames && !isLiteral head then some (lower head)
    else
      let table := Regex.seqs [.boundary,
        .alts (["from", "into", "update", "join"].map Regex.litAnyCase),
        .plus (.char Text.isSpace), identifier]
      ((table.search lineText).bind (·.group? 0)).map lower

/-- The operations of one function; `seen` holds the sites found so far by function
name, line and fact. -/
def functionOperations (path : String) (facts : ObligationFacts) (lines : List String)
    (handlerMatches : HandlerSearch) (handlersOf : String → Option String)
    (function : FunctionIR) (seen : List (String × Nat × String)) :
    List Operation × List (String × Nat × String) :=
  let handled := (facts.operations.filter fun fact =>
    fact.handlers ≠ [] && fact.calls = [] && handlersOf function.name = fact.framework &&
      fact.handlers.any (handlerMatches · function.name)).map fun fact =>
        ⟨path, function.startLine, function.name, fact.kind, fact.id, none, fact.requires⟩
  let (called, seen) := (operationSites function facts lines none).foldl
    (fun (found, seen) site =>
      let key := (function.name, site.call.line, site.fact.id)
      -- A chained call is recorded as two call sites on one line.
      if key ∈ seen then (found, seen)
      else
        (found ++ [⟨path, site.call.line, function.name, site.fact.kind, site.fact.id,
          resourceToken site.call.name site.lineText site.fact.resourceArg site.call.argTexts,
          site.fact.requires⟩], key :: seen))
    ([], seen)
  (handled ++ called, seen)

/-- `find_operations`: every obligated operation in the file's named functions. -/
def findOperations (ir : FileIR) (facts : ObligationFacts) (lines : List String)
    (handlerMatches : HandlerSearch) (handlersOf : String → Option String) : List Operation :=
  if !ir.parseOk then []
  else
    ((ir.functions.filter (·.name ≠ "<module>")).foldl
      (fun (found, seen) function =>
        let (more, seen) :=
          functionOperations ir.path facts lines handlerMatches handlersOf function seen
        (found ++ more, seen))
      ([], [])).1

/-- `_decorators_above`: the decorator lines above the function, the nearest first. -/
def decoratorsAbove (function : FunctionIR) (lines : List String) : List String :=
  ((lines.take (function.startLine - 1)).reverse.map strip).takeWhile fun line =>
    line.toList.head? = some '@'

/-- `_decorator_name`: the parsed name only, never free text. -/
def decoratorName (decorator : String) : String :=
  trailingName (before '(' (strip (String.ofList (decorator.toList.dropWhile (· = '@')))))

def DischargerKind.provenance (kind : DischargerKind) : Provenance :=
  if kind = .pathGuard then .authenticatedContext else .unknown

def decoratorWitnesses (path : String) (function : FunctionIR) (fact : DischargerFact)
    (decorators : List String) : List Discharge :=
  (decorators.map decoratorName).filterMap fun name =>
    if name ∈ fact.decorators then
      some { path, line := none, function := function.name, kind := fact.kind, factId := fact.id,
             provenance := fact.kind.provenance, scope := .decorator, detail := name }
    else none

/-- `_call_witnesses`: guard and check calls. Settings are judged on the operation's own
line. -/
def callWitnesses (path : String) (function : FunctionIR) (fact : DischargerFact) :
    List Discharge :=
  if fact.kind = .identityConstraint || fact.kind = .nonPermissiveValue then []
  else
    function.calls.filterMap fun call =>
      if fact.calls.any (callMatches call.name) then
        some { path, line := some call.line, function := function.name, kind := fact.kind,
               factId := fact.id, provenance := fact.kind.provenance, scope := .statement,
               detail := trailingName call.name }
      else none

/-- `_constraint_witnesses`: constraint keywords and non-permissive settings on the lines
of the operations. -/
def constraintWitnesses (path : String) (function : FunctionIR) (fact : DischargerFact)
    (facts : ObligationFacts) (flow : SemanticFacts) (lines : List String) : List Discharge :=
  let witness := fun (site : OperationSite) (provenance : Provenance) =>
    ({ path, line := some site.call.line, function := function.name, kind := fact.kind,
       factId := fact.id, provenance, scope := .statement,
       detail := trailingName site.call.name } : Discharge)
  match fact.kind with
  | .identityConstraint =>
    (operationSites function facts lines none).filterMap fun site =>
      (constraintProvenance site fact flow).map (witness site)
  | .nonPermissiveValue =>
    ((operationSites function facts lines (some .securitySetting)).filter fun site =>
      fact.calls.any (callMatches site.call.name) && !permissive site fact).map
        (witness · .constant)
  | _ => []

def evidenceByFunction (entries : List EntryPoint) (name : String) : List String :=
  (entries.filter fun entry => entry.functionName = some name && name ≠ "").flatMap
    (·.accessEvidence)

/-- The witnesses of one function, before duplicates are dropped. -/
def functionDischarges (path : String) (facts : ObligationFacts) (flow : SemanticFacts)
    (lines : List String) (entries : List EntryPoint) (function : FunctionIR) : List Discharge :=
  let decorators := decoratorsAbove function lines ++ evidenceByFunction entries function.name
  facts.dischargers.flatMap fun fact =>
    decoratorWitnesses path function fact decorators ++ callWitnesses path function fact ++
      constraintWitnesses path function fact facts flow lines

/-- What `_dedupe` compares: not the fact, the resource or the authority. -/
structure DischargeKey where
  path : String
  line : Option Nat
  function : String
  kind : DischargerKind
  provenance : Provenance
  scope : Scope
  detail : String
deriving DecidableEq

def Discharge.key (witness : Discharge) : DischargeKey :=
  ⟨witness.path, witness.line, witness.function, witness.kind, witness.provenance, witness.scope,
    witness.detail⟩

/-- `find_discharges`: every discharge witness in the file. -/
def findDischarges (ir : FileIR) (facts : ObligationFacts) (flow : SemanticFacts)
    (lines : List String) (entries : List EntryPoint) : List Discharge :=
  if !ir.parseOk then []
  else
    Collections.dedupeBy Discharge.key ((ir.functions.filter (·.name ≠ "<module>")).flatMap
      (functionDischarges ir.path facts flow lines entries))

end OpenUltraSast.Obligations
