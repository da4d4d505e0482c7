import OpenUltraSast.Obligations.Paths
import OpenUltraSast.Obligations.Witness
import OpenUltraSast.Cfg.Graph

/-! # Order-based dominance over source text and path records -/

namespace OpenUltraSast.Obligations

/-- The `Dominance` protocol: does a witness dominate an operation along a path? -/
abbrev Dominance := Discharge → Operation → Option PathRecord → Bool

/-- Source texts by path, each as its lines; a missing text has no lines. -/
abbrev Texts := String → List String

/-- `_EXIT`: a line that leaves the function. -/
def exitPattern : Regex :=
  let call := fun name => Regex.lit (name ++ "(")
  let keyword := fun word => Regex.seq (.lit word) .boundary
  .seq .spaces (.alts [keyword "return", keyword "raise", call "abort", call "sys.exit",
    call "exit", keyword "throw", call "res.status", call "response.status"])

/-- `Path(path).stem`. -/
def stem (path : String) : String :=
  let parts := (path.toList.splitOnP (· = '/')).filter fun part => part ≠ [] && part ≠ ['.']
  let name := parts.getLast?.getD []
  let suffix := name.reverse.takeWhile (· ≠ '.')
  let before := name.take (name.length - suffix.length - 1)
  if suffix.length + 1 < name.length && suffix ≠ [] then String.ofList before
  else String.ofList name

/-- `_hop_index`: the first hop that names the function, in a file of the same stem. -/
def hopIndex (hops : Hops) (path function : String) : Option Nat :=
  hops.findIdx? fun hop =>
    let (nodePath, nodeFunction) := rpartition hop.1
    nodeFunction = function && (nodePath = "" || stem nodePath = stem path)

namespace OrderDominance

/-- `_dominates_along`: a witness on an earlier hop dominates. -/
def dominatesAlong (witness : Discharge) (operation : Operation) (path : Option PathRecord) :
    Bool :=
  match path with
  | none => false
  | some record =>
    match hopIndex record.hops witness.path witness.function,
        hopIndex record.hops operation.path operation.function with
    | some witnessIndex, some operationIndex => witnessIndex < operationIndex
    | _, _ => false

/-- The order-based default. -/
def dominates (texts : Texts) : Dominance := fun witness operation path =>
  if witness.scope = .hop || (path.isSome && !sameFunction witness operation) then
    dominatesAlong witness operation path
  else if !sameFunction witness operation then false
  else if witness.scope.wholeHandler then true
  else
    match witness.line with
    | none => false
    | some line =>
      if witness.kind = .identityConstraint || witness.kind = .nonPermissiveValue then
        line = operation.line
      else if line ≥ operation.line then false
      else if witness.kind = .pathGuard then true
      else
        let between := ((texts witness.path).take (operation.line - 1)).drop line
        between.any fun text => (exitPattern.matchStart text).isSome

end OrderDominance

example : stem "src/api/books.py" = "books" := by decide

end OpenUltraSast.Obligations

/-!
## Dominance over control-flow graphs

`CfgDominance` decides whether a witness dominates an operation from the graph of
the operation's function, with order as the fallback; `evidence` is the strict
three-way answer, which never falls back.
-/

namespace OpenUltraSast.Obligations

open Cfg

/-- The strict dominance answer: a relation, the guard's failure effect, and a reason
when unknown. -/
structure DominanceEvidence where
  relation : EvidenceRelation
  guardEffect : Option Effect := none
  reason : Option String := none
deriving DecidableEq, Repr

/-- `_THROWING`: discharger kinds whose calls fail by throwing. -/
def DischargerKind.throwing (kind : DischargerKind) : Bool := kind = .pathGuard

/-- `_IN_OPERATION`: kinds that constrain the operation itself. -/
def DischargerKind.inOperation (kind : DischargerKind) : Bool :=
  kind = .identityConstraint || kind = .nonPermissiveValue

structure CfgDominance where
  texts : Texts
  cfgs : String → String → List FunctionCfg

namespace CfgDominance

variable (graphs : CfgDominance)

/-- The first graph with the fewest lines. -/
def narrowest : List FunctionCfg → Option FunctionCfg
  | [] => none
  | cfg :: rest =>
    match narrowest rest with
    | none => some cfg
    | some best =>
      if (best.endLine : Int) - best.startLine < (cfg.endLine : Int) - cfg.startLine then some best
      else some cfg

/-- `graph`: the function's graph covering the line, or why it has none. -/
def graph (path function : String) (line : Nat) : Except String FunctionCfg :=
  let matching := (graphs.cfgs path function).filter fun cfg =>
    cfg.startLine ≤ line && line ≤ cfg.endLine + 1
  match narrowest matching with
  | none => .error "no_graph"
  | some cfg => if cfg.available then .ok cfg else .error (cfg.reason.getD "unmodelled_construct")

/-- `dominates`: the boolean checker's answer. -/
def dominates : Dominance := fun witness operation path =>
  if witness.scope = .hop || (path.isSome && !sameFunction witness operation) then
    OrderDominance.dominates graphs.texts witness operation path
  else if !sameFunction witness operation then false
  else if witness.scope.wholeHandler then true
  else
    match witness.line with
    | none => false
    | some line =>
      if witness.kind.inOperation then line = operation.line
      else if line ≥ operation.line then false
      else
        match graphs.graph operation.path operation.function operation.line with
        | .error _ => OrderDominance.dominates graphs.texts witness operation path
        | .ok cfg =>
          match cfg.relation line operation.line with
          | none => OrderDominance.dominates graphs.texts witness operation path
          | some .allPaths =>
            cfg.effect line operation.line witness.kind.throwing ≠ some .valueOnly
          | some _ => false

/-- `_pre_graph_evidence`: what needs no graph. -/
def preGraphEvidence (witness : Discharge) (operation : Operation) : Option DominanceEvidence :=
  if witness.scope.wholeHandler then some ⟨.must, some .handler, none⟩
  else if witness.scope = .hop || !sameFunction witness operation then
    some ⟨.unknown, none, some "dominance:cross_function"⟩
  else if witness.kind.inOperation then
    if witness.line = some operation.line then some ⟨.must, some .constrains, none⟩
    else some ⟨.no, some .constrains, none⟩
  else
    match witness.line with
    | none => some ⟨.unknown, none, some "dominance:no_line"⟩
    | some line => if line ≥ operation.line then some ⟨.no, none, none⟩ else none

/-- `evidence`: the strict relation, which never falls back to order. -/
def evidence (witness : Discharge) (operation : Operation) : DominanceEvidence :=
  match preGraphEvidence witness operation with
  | some decided => decided
  | none =>
    match witness.line with
    | none => ⟨.unknown, none, some "dominance:no_line"⟩
    | some guardLine =>
      match graphs.graph operation.path operation.function operation.line with
      | .error _ => ⟨.unknown, none, some "cfg_unavailable"⟩
      | .ok cfg =>
        match cfg.relation guardLine operation.line with
        | none => ⟨.unknown, none, some "line_without_node"⟩
        | some .allPaths =>
          let effect := cfg.effect guardLine operation.line witness.kind.throwing
          if effect = some .valueOnly then ⟨.no, effect, none⟩ else ⟨.must, effect, none⟩
        | some .somePaths =>
          ⟨.may, cfg.effect guardLine operation.line witness.kind.throwing, none⟩
        | some .none => ⟨.no, none, none⟩
        | some .after => ⟨.no, none, none⟩

end CfgDominance

end OpenUltraSast.Obligations
