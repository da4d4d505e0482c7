import OpenUltraSast.Obligations.Check
import OpenUltraSast.Obligations.Judgment
import OpenUltraSast.Obligations.Resolution

/-!
# The access-control prover in judgment mode

A change is read into functions, exact caller bindings and targets; caller chains are
composed from the targets up to recognised entries, each operation of a target is
judged along every chain, and the judgments of an operation are aggregated.
-/

namespace OpenUltraSast.Hunt

open Collections Obligations Semantic

/-- What a change is read into: the product files that could be read, the route entries
that define their handler, the declarations, and the changed line ranges. -/
structure Change where
  files : List (String × FileIR × List String)
  entries : List EntryPoint
  index : SymbolIndex
  changed : List (String × List (Nat × Nat))
  facts : ObligationFacts
  flowFacts : SemanticFacts
  policy : Option DeclaredPolicy
  cfgs : String → String → List Cfg.FunctionCfg
  /-- The framework of each entry handler. -/
  handlersOf : String → String → Option String
  /-- The guards that framework declarations put around the handlers. -/
  enforcement : List Discharge
  handlerMatches : HandlerSearch
  maxDepth : Nat := 3

namespace Change

variable (change : Change)

/-- `read_ir`: the files that parse and whose language has operation facts. -/
def irs : List (String × FileIR × List String) :=
  change.files.filter fun (_, ir, _) =>
    ir.parseOk && (change.facts.forLanguage ir.language).operations ≠ []

def linesOf (path : String) : List String :=
  (lastValue (change.irs.map fun (path, _, lines) => (path, lines)) path).getD []

/-- The named functions by path and name; a later one of the same name replaces an
earlier one. -/
def functionTable : List ((String × String) × FunctionIR) :=
  change.irs.flatMap fun (path, ir, _) =>
    (ir.functions.filter (·.name ≠ "<module>")).map fun fn => ((path, fn.name), fn)

def functionAt (key : String × String) : Option FunctionIR := lastValue change.functionTable key

def touched : List (String × String) :=
  change.changed.flatMap fun (path, ranges) =>
    (change.irs.filter (·.1 = path)).flatMap fun (_, ir, _) =>
      (ir.functions.filter fun fn => fn.name ≠ "<module>" &&
        ranges.any fun (start, stop) => fn.startLine ≤ stop && start ≤ fn.endLine).map
          fun fn => (path, fn.name)

/-- The exact bindings of one function's calls: the target and the line of the call. -/
def exactBindings (key : String × String) : List (SymbolId × Nat) :=
  ((change.functionAt key).map (·.calls)).getD [] |>.filterMap fun call =>
    let resolved := resolveCall call key.1 change.index
    match resolved.targets with
    | [target] => if resolved.completeness.reasons = [] then some (target, call.line) else none
    | _ => none

/-- `_exact_callers`: caller sites from exact bindings only. -/
def callers (path function : String) : List (String × Nat) :=
  let symbols := (change.index.byName function).filter (·.module = path)
  let sites := ((change.functionTable.map (·.1)).eraseDups).flatMap fun key =>
    ((change.exactBindings key).filter (·.1 ∈ symbols)).map fun (_, line) =>
      (nodeName key.1 key.2, line)
  (sortedSet (sites.map toLex)).map ofLex

/-- `_targets_from_bindings`: the touched functions and every candidate of their calls. -/
def targets : List (String × String) :=
  let called := change.touched.flatMap fun key =>
    (((change.functionAt key).map (·.calls)).getD []).flatMap fun call =>
      (resolveCall call key.1 change.index).targets.map fun symbol => (symbol.module, symbol.name)
  (sortedSet ((change.touched ++ called).map toLex)).map ofLex

def entryNodes : List String := change.entries.map (·.node)

def paths : List PathRecord :=
  match composePaths change.callers change.entryNodes change.targets change.maxDepth with
  | .ok (records, _) => records
  | .error _ => []

def targetOf (record : PathRecord) : String × String :=
  rpartition ((record.hops.getLast?.map (·.1)).getD "")

def foundOperations (path : String) : List Operation :=
  (change.irs.filter (·.1 = path)).flatMap fun (_, ir, lines) =>
    findOperations ir (change.facts.forLanguage ir.language) lines change.handlerMatches
      (change.handlersOf path)

def isHandlerFact (operation : Operation) : Bool :=
  change.facts.operations.any fun fact => fact.id = operation.factId && fact.handlers ≠ []

/-- A handler obligation fills gaps in the call inventory: it is dropped where the entry
already reaches a listed operation. -/
def keptHandlers (path name : String) : Option String :=
  let reaches := change.paths.any fun record =>
    rpartition record.entry = (path, name) &&
      (change.foundOperations (targetOf record).1).any fun op =>
        op.function = (targetOf record).2 && !change.isHandlerFact op
  match change.handlersOf path name with
  | some "remix" => some "remix"
  | framework => if reaches then none else framework

def operationsAt (key : String × String) : List Operation :=
  (change.foundOperations key.1).filter fun op =>
    op.function = key.2 && ((change.keptHandlers key.1 key.2).isSome || !change.isHandlerFact op)

def graphs : CfgDominance := ⟨change.linesOf, change.cfgs⟩

/-- The line a handler obligation is judged at: its last return, or past its end. -/
def handlerEnd (operation : Operation) : Nat :=
  match change.functionAt (operation.path, operation.function) with
  | none => operation.line
  | some fn =>
    let returns := ((change.linesOf operation.path).zipIdx 1).filter fun (line, index) =>
      fn.startLine ≤ index && index ≤ fn.endLine &&
        ((Regex.seqs [.spaces, .lit "return", .boundary]).matchStart line).isSome
    ((returns.getLast?).map (·.2)).getD (fn.endLine + 1)

/-- `_HandlerDominance`: a handler obligation is judged at the handler's end. -/
def dominance : Dominance := fun witness operation record =>
  let measured := if change.isHandlerFact operation &&
      operation ∈ change.operationsAt (operation.path, operation.function) then
    { operation with line := change.handlerEnd operation } else operation
  change.graphs.dominates witness measured record

/-- Boolean permission predicates of a stapler handler count as guards where they
dominate its end. -/
def promoted : List Discharge :=
  let keys := (change.functionTable.map (·.1)).eraseDups
  let handlers := keys.flatMap fun key => (change.operationsAt key).filter change.isHandlerFact
  handlers.flatMap fun op =>
    (change.irs.filter (·.1 = op.path)).flatMap fun (_, ir, lines) =>
      ((findDischarges ir (change.facts.forLanguage ir.language)
        (change.flowFacts.forLanguage ir.language) lines []).filter fun w =>
          w.function = op.function && w.kind = .ownershipCheck && change.dominance w op none &&
            change.keptHandlers op.path op.function = some "stapler").map
        fun w => { w with kind := .pathGuard }

def neededFiles (hops : Hops) : List String :=
  sortedSet (change.touched.map (·.1) ++ hops.map fun hop => (rpartition hop.1).1)

def readable (hops : Hops) : Bool :=
  (change.neededFiles hops).all fun path => path ∈ change.irs.map (·.1)

def checkInput (hops : Hops) : CheckInput where
  irs := (change.neededFiles hops).flatMap fun path => change.irs.filter (·.1 = path)
  entries := change.entries
  facts := change.facts
  flowFacts := change.flowFacts
  policy := change.policy
  dominance := change.dominance
  storeShapes := []
  minSiblings := 3
  extraWitnesses := change.enforcement ++ change.promoted
  assumeEntriesProtected := true
  handlersOf := some change.keptHandlers
  handlerMatches := change.handlerMatches

def discharges (hops : Hops) : List Discharge := (change.checkInput hops).witnesses

def judgePairs (operation : Operation) (fact : Option OperationFact) :
    List Discharge → Except String (List (WitnessMatch × DominanceEvidence))
  | [] => .ok []
  | w :: rest =>
    match matchWitness w operation fact, judgePairs operation fact rest with
    | .ok found, .ok pairs => .ok ((found, change.graphs.evidence w operation) :: pairs)
    | .error e, _ => .error e
    | _, .error e => .error e

def pairsByKind (operation : Operation) (fact : Option OperationFact)
    (witnesses : List Discharge) : List DischargerKind → Except String EvidenceByKind
  | [] => .ok []
  | kind :: rest =>
    match change.judgePairs operation fact (witnesses.filter (·.kind = kind)),
        pairsByKind operation fact witnesses rest with
    | .ok pairs, .ok others => .ok ((kind, pairs) :: others)
    | .error e, _ => .error e
    | _, .error e => .error e

def factOf (operation : Operation) : Option OperationFact :=
  change.facts.operations.find? (·.id = operation.factId)

def pathJudgment (operation : Operation) (hops : Hops) :
    Except String (PathJudgment DischargerKind) :=
  -- The enumeration is taken to be complete, whatever it left out.
  (change.pairsByKind operation (change.factOf operation) (change.discharges hops)
    operation.requires.eraseDups).map fun pairs => judgmentForPath operation pairs .complete

/-- The records an operation of a function is judged along; a chain with an unreadable
file is passed over. -/
def judgedRecords (key : String × String) : List PathRecord :=
  change.paths.filter fun record => change.readable record.hops && targetOf record = key

def pathJudgments (operation : Operation) :
    List PathRecord → Except String (List (PathJudgment DischargerKind))
  | [] => .ok []
  | record :: rest =>
    match change.pathJudgment operation record.hops, pathJudgments operation rest with
    | .ok judgment, .ok judgments => .ok (judgment :: judgments)
    | .error e, _ => .error e
    | _, .error e => .error e

def aggregate (key : String × String) (operation : Operation) :
    Except String (Option (PathJudgment DischargerKind)) :=
  (change.pathJudgments operation (change.judgedRecords key)).map fun judgments =>
    if judgments = [] then none else some (aggregateJudgments judgments)

end Change

end OpenUltraSast.Hunt
