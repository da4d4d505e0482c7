import Mathlib.Data.String.Basic
import OpenUltraSast.Library.Regex

/-! # The intra-file intermediate representation -/

namespace OpenUltraSast.Semantic

/-- One assignment to a name; `order` is the end of its evaluation. -/
structure Bind where
  name : String
  line : Nat
  valueText : String
  isConstant : Bool
  names : List String
  callName : Option String := none
  order : Nat := 0
deriving DecidableEq, Repr

/-- One call expression. A missing receiver is a plain call; the argument lists hold one
entry for each argument. -/
structure CallSite where
  name : String
  line : Nat
  argTexts : List String := []
  receiver : Option String := none
  arity : Option Nat := none
  argIsConstant : List Bool := []
  argNames : List (List String) := []
  extraArgIsSequence : Bool := false
  order : Nat := 0
deriving DecidableEq, Repr

structure FunctionIR where
  name : String
  params : List String
  startLine : Nat
  endLine : Nat
  calls : List CallSite
  binds : List Bind := []
deriving DecidableEq, Repr

structure FileIR where
  path : String
  language : String
  functions : List FunctionIR
  parseOk : Bool
  reason : Option String := none
deriving DecidableEq, Repr

def strip (text : String) : String :=
  let rest := text.toList.dropWhile Text.isSpace
  String.ofList (rest.reverse.dropWhile Text.isSpace).reverse

example : strip "  self " = "self" := by decide

def afterLast? (separator : List Char) : List Char → Option (List Char)
  | [] => none
  | c :: rest =>
    match afterLast? separator rest with
    | some after => some after
    | none =>
      if separator.isPrefixOf (c :: rest) then some ((c :: rest).drop separator.length)
      else none

/-- `text.rsplit(separator, 1)[-1]`. -/
def afterLast (separator text : String) : String :=
  match afterLast? separator.toList text.toList with
  | some after => String.ofList after
  | none => text

def lastIdentifier : Regex :=
  let ascii := fun c : Char => c.isAlpha || c = '_' || c = '$'
  .seqs [.group 0 (.seq (.char ascii) (.star (.char fun c => Regex.isWord c || c = '$'))),
    .spaces, .endOfText]

def trailingName (callee : String) : String :=
  let tail := afterLast "->" (afterLast "::" (afterLast "." callee))
  match lastIdentifier.search tail with
  | some found => (found.group? 0).getD ""
  | none => tail

example : trailingName "a.exec" = "exec" := by decide

end OpenUltraSast.Semantic

/-!
## Intra-file taint

Every name has one state, computed by repeated passes over the binds of a function; a
sink call is a path, a demotion or incomplete by the states of its arguments.
-/

namespace OpenUltraSast.Semantic.Taint

inductive TaintState where
  | tainted
  | constant
  | unknown
deriving DecidableEq, Repr

structure FlowSource where
  id : String
  patterns : List String

structure SinkFact where
  id : String
  cwe : String
  calls : List String

structure SanitizerFact where
  id : String
  calls : List String
  parameterized : Bool := false
  literalFormatArg : Option Nat := none

structure FlowFacts where
  sources : List FlowSource
  sinks : List SinkFact
  sanitizers : List SanitizerFact

/-- `_source_in`: the first source with a pattern in the text. -/
def sourceIn (text : String) (facts : FlowFacts) : Option FlowSource :=
  facts.sources.find? fun source =>
    source.patterns.any fun pattern => pattern ≠ "" && pattern.toList <:+: text.toList

def callMatches (name factCall : String) : Bool :=
  name = factCall || ("." ++ factCall).toList.isSuffixOf name.toList ||
    (name.toList.isSuffixOf factCall.toList && !name.toList.contains '.' &&
      name = afterLast "." factCall)

def sinkFor (name : String) (facts : FlowFacts) : Option SinkFact :=
  facts.sinks.find? fun sink => sink.calls.any (callMatches name)

structure Argument where
  text : String
  isConstant : Bool
  names : List String
deriving DecidableEq, Repr

def arguments (call : CallSite) : List Argument :=
  List.zipWith3 Argument.mk call.argTexts call.argIsConstant call.argNames

/-- `_looks_like_format`: a text in a pair of equal quotes. -/
def looksLikeFormat (text : String) : Bool :=
  match (strip text).toList with
  | first :: rest => (first = '\'' || first = '"') && rest.getLast? = some first
  | [] => false

def sanitizes (call : CallSite) (sanitizer : SanitizerFact) : Bool :=
  sanitizer.calls.any (callMatches call.name) &&
    ((sanitizer.parameterized && call.extraArgIsSequence) ||
      match sanitizer.literalFormatArg with
      | some index =>
        ((arguments call)[index]?).any fun argument =>
          argument.isConstant && looksLikeFormat argument.text
      | none => !sanitizer.parameterized)

/-- `_sanitizer_for`: the id of the first sanitizer fact that speaks for the call. -/
def sanitizerFor (call : CallSite) (facts : FlowFacts) : Option String :=
  (facts.sanitizers.find? (sanitizes call)).map (·.id)

structure Env where
  states : String → Option TaintState
  sources : String → Option String

def Env.start (function : FunctionIR) : Env where
  states name := if name ∈ function.params then some .tainted else none
  sources name := if name ∈ function.params then some "parameter" else none

def Env.nameState (env : Env) (name : String) : TaintState := (env.states name).getD .unknown

def bindState (bind : Bind) (env : Env) (facts : FlowFacts) : TaintState × Option String :=
  match sourceIn bind.valueText facts with
  | some source => (.tainted, some source.id)
  | none =>
    if bind.isConstant && bind.names = [] then (.constant, none)
    else
      let inherited := bind.names.map env.nameState
      if .tainted ∈ inherited then
        (.tainted, (bind.names.find? (env.states · = some .tainted)).bind env.sources)
      else if inherited ≠ [] && inherited.all (· = .constant) then (.constant, none)
      -- A call to an unknown callee and a value without names are unknown like the rest.
      else (.unknown, none)

def bindStep (facts : FlowFacts) (pass : Env × Bool) (bind : Bind) : Env × Bool :=
  let (env, changed) := pass
  let (state, source) := bindState bind env facts
  -- An empty source id counts as none.
  let named := source.filter (· ≠ "")
  if env.states bind.name ≠ some state || (named.isSome && env.sources bind.name ≠ named) then
    ({ states := fun name => if name = bind.name then some state else env.states name
       sources := fun name =>
         if name = bind.name && named.isSome then named else env.sources name }, true)
  else (env, changed)

def passes (facts : FlowFacts) (binds : List Bind) : Nat → Env → Env
  | 0, env => env
  | left + 1, env =>
    let (next, changed) := binds.foldl (bindStep facts) (env, false)
    if changed then passes facts binds left next else next

def settledEnv (facts : FlowFacts) (function : FunctionIR) : Env :=
  passes facts function.binds 8 (Env.start function)

def argState (argument : Argument) (env : Env) (facts : FlowFacts) : TaintState :=
  if (sourceIn argument.text facts).isSome then .tainted
  else if argument.isConstant then .constant
  else
    let inherited := argument.names.map env.nameState
    if .tainted ∈ inherited then .tainted
    else if inherited ≠ [] && inherited.all (· = .constant) then .constant
    else .unknown

structure TaintPath where
  path : String
  source : String
  sink : String
  sinkLine : Nat
  names : List String
  cwe : String
deriving DecidableEq, Repr

structure Demotion where
  path : String
  sink : String
  sinkLine : Nat
  dominatingFact : String
  sanitizers : List String
  cwe : String
deriving DecidableEq, Repr

inductive CallVerdict where
  | noSink
  | path (path : TaintPath)
  | demotion (demotion : Demotion)
  | incomplete (line : Nat) (reason : String)
deriving DecidableEq, Repr

def sourceLabel (call : CallSite) (env : Env) (facts : FlowFacts) : String :=
  match call.argTexts.findSome? (sourceIn · facts) with
  | some source => source.id
  | none =>
    match call.argNames.flatten.find? (env.states · = some .tainted) with
    | some name => (env.sources name).getD "parameter"
    | none => "parameter"

def taintedNames (call : CallSite) (env : Env) : List String :=
  call.argNames.flatten.filter (env.states · = some .tainted)

def analyzeCall (path : String) (call : CallSite) (env : Env) (facts : FlowFacts) : CallVerdict :=
  match sinkFor call.name facts with
  | none => .noSink
  | some sink =>
    match sanitizerFor call facts with
    | some sanitizer => .demotion ⟨path, sink.id, call.line, sanitizer, [sanitizer], sink.cwe⟩
    | none =>
      let argStates := (arguments call).map (argState · env facts)
      if .tainted ∈ argStates then
        .path ⟨path, sourceLabel call env facts, sink.id, call.line, taintedNames call env, sink.cwe⟩
      else if argStates ≠ [] && argStates.all (· = .constant) then
        .demotion ⟨path, sink.id, call.line, "constant", [], sink.cwe⟩
      else .incomplete call.line "flow_incomplete"

def analyzeFunction (path : String) (function : FunctionIR) (facts : FlowFacts) :
    List CallVerdict :=
  function.calls.map fun call => analyzeCall path call (settledEnv facts function) facts

structure FileFlow where
  path : String
  language : String
  taintPaths : List TaintPath
  demotions : List Demotion
  incomplete : List (Nat × String)
deriving DecidableEq, Repr

def analyzeIr (ir : FileIR) (facts : FlowFacts) : FileFlow :=
  let verdicts := ir.functions.flatMap (analyzeFunction ir.path · facts)
  { path := ir.path
    language := ir.language
    taintPaths := verdicts.filterMap fun | .path found => some found | _ => none
    demotions := verdicts.filterMap fun | .demotion found => some found | _ => none
    incomplete := verdicts.filterMap fun | .incomplete line reason => some (line, reason) | _ => none }

end OpenUltraSast.Semantic.Taint
