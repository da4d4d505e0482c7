import OpenUltraSast.Library.Components
import OpenUltraSast.Library.SetMerge
import OpenUltraSast.Obligations.Operations
import OpenUltraSast.Obligations.Resolution

/-!
# Function summaries

Local summaries of every function, and the fixpoint that unions callee evidence
into callers over the components of the call graph, callee components first.
-/

namespace OpenUltraSast.Obligations

open Collections Semantic

structure FunctionSummary where
  symbol : SymbolId
  operations : List Operation := []
  witnesses : List Discharge := []
  calls : List CallTargetSet := []
  completeness : Completeness := .complete
deriving DecidableEq

abbrev FunctionsByModule := List (String × List FunctionIR)

/-- `_enclosing_type`: of the first declaration of that name in the module. -/
def enclosingType (index : SymbolIndex) (module name : String) : Option String :=
  ((index.byName name).find? fun symbol => symbol.module = module).bind (·.enclosingType)

def functionSymbol (index : SymbolIndex) (module : String) (functionIr : FunctionIR) : SymbolId :=
  ⟨module, enclosingType index module functionIr.name, functionIr.name,
    if functionIr.params = [] then none else some functionIr.params⟩

def joinedCallCompleteness (calls : List CallTargetSet) : Completeness :=
  calls.foldl (fun joined call => joinCompleteness joined call.completeness) .complete

/-- `_sorted_functions`: by name, then by start line. -/
def sortedFunctions (functions : List FunctionIR) : List FunctionIR :=
  functions.insertionSort fun a b => toLex (a.name, a.startLine) ≤ toLex (b.name, b.startLine)

def localSummary (index : SymbolIndex) (operationsBySymbol : SymbolId → List Operation)
    (witnessesBySymbol : SymbolId → List Discharge) (module : String) (functionIr : FunctionIR) :
    FunctionSummary :=
  let symbol := functionSymbol index module functionIr
  let calls := functionIr.calls.map fun call => resolveCall call module index
  ⟨symbol, operationsBySymbol symbol, witnessesBySymbol symbol, calls,
    joinedCallCompleteness calls⟩

def localSummaries (functionsByModule : FunctionsByModule) (index : SymbolIndex)
    (operationsBySymbol : SymbolId → List Operation)
    (witnessesBySymbol : SymbolId → List Discharge) : List FunctionSummary :=
  let modules := functionsByModule.insertionSort fun a b => a.1 ≤ b.1
  modules.flatMap fun entry => (sortedFunctions entry.2).map
    (localSummary index operationsBySymbol witnessesBySymbol entry.1)

/-- `summaries_by_symbol`. -/
abbrev SummaryTable := SymbolId → Option FunctionSummary

/-- `{summary.symbol: summary for summary in local}`: a later summary replaces an earlier
one of the same symbol. -/
def summaryTable (summaries : List FunctionSummary) : SummaryTable :=
  summaries.foldl (fun table summary => Function.update table summary.symbol (some summary))
    fun _ => none

/-- The keys of the dictionary. -/
def summarySymbols (summaries : List FunctionSummary) : List SymbolId :=
  (summaries.map (·.symbol)).eraseDups

/-- `_exact_caller_edges`: the targets of complete single-target calls. -/
def exactCallerEdges (table : SummaryTable) (symbol : SymbolId) : List SymbolId :=
  match table symbol with
  | none => []
  | some summary => sortedSymbols (summary.calls.filterMap (·.exactTarget)).eraseDups

/-- `_operation_sort_key`; the resource plays no part. -/
abbrev OperationKey := String ×ₗ Nat ×ₗ String ×ₗ String ×ₗ String ×ₗ List String

def Operation.sortKey (operation : Operation) : OperationKey :=
  toLex (operation.path, toLex (operation.line, toLex (operation.function,
    toLex (operation.kind.name, toLex (operation.factId, operation.requires.map (·.name))))))

/-- `_witness_sort_key`; the detail, the resource and the authority play no part. -/
abbrev WitnessKey := String ×ₗ Int ×ₗ String ×ₗ String ×ₗ String ×ₗ String ×ₗ String

def Discharge.sortKey (discharge : Discharge) : WitnessKey :=
  toLex (discharge.path, toLex ((discharge.line.map Int.ofNat).getD (-1),
    toLex (discharge.function, toLex (discharge.kind.name, toLex (discharge.factId,
      toLex (discharge.provenance.name, discharge.scope.name))))))

/-- The orders in which Python iterates `set(left) | set(right)` for the n-th callee of a
propagation; the language fixes none. -/
structure MergeOrder where
  operations : SetOrder Operation
  witnesses : SetOrder Discharge

def mergeOperations (order : SetOrder Operation) : Nat → List Operation → List Operation →
    List Operation :=
  mergeBy Operation.sortKey order

def mergeWitnesses (order : SetOrder Discharge) : Nat → List Discharge → List Discharge →
    List Discharge :=
  mergeBy Discharge.sortKey order

/-- One turn of the loop of `_propagated`. -/
def absorb (order : MergeOrder) (n : Nat) (summary callee : FunctionSummary) : FunctionSummary :=
  { summary with
    operations := mergeOperations order.operations n summary.operations callee.operations
    witnesses := mergeWitnesses order.witnesses n summary.witnesses callee.witnesses
    completeness := joinCompleteness summary.completeness callee.completeness }

/-- The loop of `_propagated`, the callees counted from `n`. -/
def propagatedFrom (order : MergeOrder) : Nat → FunctionSummary → List FunctionSummary →
    FunctionSummary
  | _, summary, [] => summary
  | n, summary, callee :: callees =>
    propagatedFrom order (n + 1) (absorb order n summary callee) callees

/-- `_propagated`: union every callee's accumulated evidence into the summary. -/
def propagated (order : MergeOrder) (summary : FunctionSummary)
    (callees : List FunctionSummary) : FunctionSummary :=
  propagatedFrom order 0 summary callees

/-- Work bounds of the fixpoint. `expired` says whether the deadline has passed when a
round starts. -/
structure ExplorationBudget where
  depth : Option Nat := none
  fanOut : Option Nat := none
  expired : Nat → Bool := fun _ => false

/-- `ExplorationBudget()`. -/
def ExplorationBudget.unbounded : ExplorationBudget := {}

/-- `_callees_for`: the callees that have a summary, truncated to the fan-out. -/
def calleesFor (symbol : SymbolId) (edges : SymbolId → List SymbolId) (table : SummaryTable)
    (fanOut : Option Nat) : List FunctionSummary × Bool :=
  let callees := (edges symbol).filterMap table
  match fanOut with
  | none => (callees, false)
  | some bound => (callees.take bound, callees.length > bound)

def FunctionSummary.cutOff (summary : FunctionSummary) (reason : String) : FunctionSummary :=
  { summary with
    completeness := joinCompleteness summary.completeness (.ofReasons false [reason]) }

def propagateMember (order : MergeOrder) (edges : SymbolId → List SymbolId)
    (budget : ExplorationBudget) (table : SummaryTable) (current : FunctionSummary) :
    FunctionSummary :=
  let (callees, truncated) := calleesFor current.symbol edges table budget.fanOut
  let joined := propagated order current callees
  if truncated then joined.cutOff "summaries:fan_out_cutoff" else joined

/-- `_propagate_round`: one union round over the members, each seeing the updates of the
members before it. -/
def propagateRound (order : MergeOrder) (edges : SymbolId → List SymbolId)
    (budget : ExplorationBudget) : List SymbolId → SummaryTable → SummaryTable × Bool
  | [], table => (table, false)
  | member :: members, table =>
    match table member with
    | none => propagateRound order edges budget members table
    | some current =>
      let joined := propagateMember order edges budget table current
      if joined ≠ current then
        ((propagateRound order edges budget members
          (Function.update table member (some joined))).1, true)
      else propagateRound order edges budget members table

def applyCutoffReason (members : List SymbolId) (reason : String) (table : SummaryTable) :
    SummaryTable :=
  fun symbol => if symbol ∈ members then (table symbol).map (·.cutOff reason) else table symbol

/-- The `while` loop of `_stabilise_component`; no value when the fuel runs out. -/
def stabiliseLoop (order : MergeOrder) (edges : SymbolId → List SymbolId)
    (budget : ExplorationBudget) (members : List SymbolId) :
    Nat → Nat → SummaryTable → Option SummaryTable
  | 0, _, _ => none
  | fuel + 1, rounds, table =>
    if budget.expired rounds then
      some (applyCutoffReason members "summaries:deadline_cutoff" table)
    else
      let (table, changed) := propagateRound order edges budget members table
      if !changed then some table
      else if budget.depth.any (rounds + 1 ≥ ·) then
        some (applyCutoffReason members "summaries:depth_cutoff" table)
      else stabiliseLoop order edges budget members fuel (rounds + 1) table

/-- `_stabilise_component`: a component none of whose members calls anything is left alone. -/
def stabiliseComponent (order : MergeOrder) (edges : SymbolId → List SymbolId)
    (budget : ExplorationBudget) (fuel : Nat) (members : List SymbolId) (table : SummaryTable) :
    Option SummaryTable :=
  if members.all fun member => edges member = [] then some table
  else stabiliseLoop order edges budget members fuel 0 table

/-- The loop over the components. -/
def stabiliseAll (order : MergeOrder) (edges : SymbolId → List SymbolId)
    (budget : ExplorationBudget) (fuel : Nat) :
    List (List SymbolId) → SummaryTable → Option SummaryTable
  | [], table => some table
  | component :: components, table =>
    (stabiliseComponent order edges budget fuel component table).bind
      (stabiliseAll order edges budget fuel components)

/-- `monotone_summaries`; no value when some component does not settle within the fuel. -/
def monotoneSummaries (order : MergeOrder) (fuel : Nat) (functionsByModule : FunctionsByModule)
    (index : SymbolIndex) (operationsBySymbol : SymbolId → List Operation)
    (witnessesBySymbol : SymbolId → List Discharge)
    (budget : ExplorationBudget := .unbounded) : Option (List FunctionSummary) :=
  let locals := localSummaries functionsByModule index operationsBySymbol witnessesBySymbol
  let table := summaryTable locals
  let edges := exactCallerEdges table
  let components := Components.components edges sortedSymbols (summarySymbols locals)
  (stabiliseAll order edges budget fuel components table).map fun table =>
    locals.filterMap fun summary => table summary.symbol

end OpenUltraSast.Obligations
