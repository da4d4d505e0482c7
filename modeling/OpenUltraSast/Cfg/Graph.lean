import OpenUltraSast.Library.Collections
import OpenUltraSast.Library.Regex

/-!
# The control-flow graph of one function

Nodes, normal and exceptional edges and dominators, and the three questions the
graph answers by line: the relation of two lines, the effect of a failing guard,
and the control context of a line. Edge sets are lists of index pairs.
-/

namespace OpenUltraSast.Cfg

inductive NodeKind where
  | entry
  | ending
  | statement
  | branch
  | caseLabel
  | tryStart
  | catchClause
  | finallyBlock
  | returnJump
  | throwJump
  | breakJump
  | continueJump
  | exitJump
deriving DecidableEq, Repr

/-- `_JUMPS`. -/
def NodeKind.isJump : NodeKind → Bool
  | .returnJump | .throwJump | .breakJump | .continueJump | .exitJump => true
  | _ => false

structure ControlContext where
  conditions : List String := []
  inLoop : Bool := false
  inTry : Bool := false
  catches : List String := []
  onExceptionPath : Bool := false
deriving DecidableEq, Repr

/-- One node; `located` is false for nodes that no source line names. -/
structure CfgNode where
  kind : NodeKind
  startLine : Nat
  endLine : Nat
  startByte : Int
  context : ControlContext
  condition : String
  located : Bool
deriving DecidableEq, Repr

/-- How a guard's line relates to an operation's line. -/
inductive Relation where
  | allPaths
  | somePaths
  | none
  | after
deriving DecidableEq, Repr

/-- What happens to the operation when the guard fails. The last two name
witnesses that are judged without a graph. -/
inductive Effect where
  | throws
  | returns
  | exits
  | branches
  | valueOnly
  | handler
  | constrains
deriving DecidableEq, Repr

/-- `_assigned_name`'s pattern: an optional declaration keyword and type, one plain
name, an optional annotation, and a single equals sign. -/
def assignment : Regex :=
  let keywords := Regex.alts (["final", "const", "let", "var", "auto"].map Regex.lit)
  let typeChar := Regex.char fun c => Regex.isWord c || "<>[],.?".toList.contains c
  let letter := Regex.char fun c => c.isAlpha || c = '_'
  .seqs [.spaces,
    .opt (.seqs [keywords, .plus (.char Text.isSpace)]),
    .opt (.seqs [.plus typeChar, .plus (.char Text.isSpace)]),
    .group 1 (.seqs [.opt (.char (· = '$')), letter, .star .word]),
    .spaces,
    .opt (.seqs [.char (· = ':'), .plus (.char (· ≠ '='))]),
    .char (· = '='), .notAhead (· = '=')]

def assignedName (text : String) : String :=
  ((assignment.matchStart text).bind (·.group? 1)).getD ""

def mentions (name : String) (text : String) : Bool :=
  let nameChar := fun c => Regex.isWord c || c = '$'
  ((Regex.seqs [.notBehind nameChar, .lit name, .notAhead nameChar]).search text).isSome

/-- A function's graph. `dominators` maps each reachable node to a bit mask. -/
structure FunctionCfg where
  startLine : Nat
  endLine : Nat
  available : Bool
  reason : Option String := Option.none
  nodes : List CfgNode := []
  normal : List (Nat × Nat) := []
  exceptional : List (Nat × Nat) := []
  dominators : List (Nat × Nat) := []
deriving DecidableEq, Repr

namespace FunctionCfg

/-- `ENTRY`. -/
def entryIndex : Nat := 0

/-- `EXIT`. -/
def exitIndex : Nat := 1

variable (cfg : FunctionCfg)

/-- The order of the keys of `node_at`: narrower first, then earlier, then lower index. -/
def keyBefore (left right : Int × Int × Nat) : Bool :=
  left.1 < right.1 ||
    (left.1 = right.1 &&
      (left.2.1 < right.2.1 || (left.2.1 = right.2.1 && left.2.2 < right.2.2)))

def considerNode (line : Nat) (best : Option (Int × Int × Nat)) (entry : CfgNode × Nat) :
    Option (Int × Int × Nat) :=
  let node := entry.1
  if !node.located || !(node.startLine ≤ line && line ≤ node.endLine) then best
  else
    let key := ((node.endLine : Int) - node.startLine, node.startByte, entry.2)
    match best with
    | Option.none => some key
    | some found => if keyBefore key found then some key else some found

/-- The node a line names: the narrowest statement or condition covering it, the
earliest on a tie. A line after the last line names the exit. -/
def nodeAt (line : Nat) : Option Nat :=
  if !cfg.available then Option.none
  else if line > cfg.endLine then some exitIndex
  else (cfg.nodes.zipIdx.foldl (considerNode line) Option.none).map (·.2.2)

def kindOf (node : Nat) : Option NodeKind := cfg.nodes[node]?.map (·.kind)

def conditionOf (node : Nat) : String := (cfg.nodes[node]?.map (·.condition)).getD ""

def normalSuccessors (node : Nat) : List Nat :=
  Collections.sortedSet ((cfg.normal.filter (·.1 = node)).map (·.2))

/-- `_successors`: normal and exceptional, in ascending order. -/
def successors (node : Nat) : List Nat :=
  Collections.sortedSet (((cfg.normal ++ cfg.exceptional).filter (·.1 = node)).map (·.2))

/-- `_dominates`: bit `a` of the mask of `b`. -/
def dominatesNode (a b : Nat) : Bool :=
  match cfg.dominators.lookup b with
  | Option.none => false
  | some mask => mask.testBit a

/-- The stack loop of `_reaches`. Only a node seen for the first time pushes its
successors, so one unit of fuel for each edge and start is enough. -/
def reachesLoop (target : Nat) (avoid : List Nat) : Nat → List Nat → List Nat → Bool
  | 0, _, _ => false
  | _ + 1, _, [] => false
  | fuel + 1, seen, node :: stack =>
    if node = target then true
    else if node ∈ seen then reachesLoop target avoid fuel seen stack
    else
      let next := (cfg.successors node).filter fun n => n ∉ avoid && n ∉ node :: seen
      reachesLoop target avoid fuel (node :: seen) (next ++ stack)

/-- `_reaches`: whether the target can be reached from a start without an avoided node. -/
def reaches (starts : List Nat) (target : Nat) (avoid : List Nat) : Bool :=
  cfg.reachesLoop target avoid
    (cfg.normal.length + cfg.exceptional.length + starts.length + 1) []
    (starts.filter (· ∉ avoid))

/-- The stack loop of `_arm_ends` along normal edges: the jumps met, and whether the
exit is met without one. -/
def armEndsLoop (avoid : List Nat) :
    Nat → List Nat → List Nat → List NodeKind × Bool → List NodeKind × Bool
  | 0, _, _, found => found
  | _ + 1, _, [], found => found
  | fuel + 1, seen, node :: stack, (jumps, falls) =>
    if node ∈ seen || node ∈ avoid then armEndsLoop avoid fuel seen stack (jumps, falls)
    else
      match cfg.kindOf node with
      | some kind =>
        if kind.isJump then armEndsLoop avoid fuel (node :: seen) stack (kind :: jumps, falls)
        else if node = exitIndex then armEndsLoop avoid fuel (node :: seen) stack (jumps, true)
        else armEndsLoop avoid fuel (node :: seen) (cfg.normalSuccessors node ++ stack)
          (jumps, falls)
      | Option.none => armEndsLoop avoid fuel (node :: seen) stack (jumps, falls)

def armEnds (start : Nat) (avoid : List Nat) : List NodeKind × Bool :=
  cfg.armEndsLoop avoid (cfg.normal.length + 2) [] [start] ([], false)

/-- The arms of a branch from which the operation cannot be reached without passing
the branch again. -/
def failingArms (branch operation : Nat) : List Nat :=
  (cfg.normalSuccessors branch).filter fun arm => !cfg.reaches [arm] operation [branch]

/-- `_branch_effect`: the effect of the first arm that cannot reach the operation,
when another arm can. -/
def branchEffect (branch operation : Nat) : Option Effect :=
  let arms := cfg.normalSuccessors branch
  if cfg.kindOf branch ≠ some .branch || arms.length < 2 || branch = operation then Option.none
  else
    let failing := cfg.failingArms branch operation
    let passing := arms.filter (· ∉ failing)
    match failing with
    | [] => Option.none
    | first :: _ =>
      if passing = [] then Option.none
      else
        let (jumps, falls) := cfg.armEnds first [branch]
        if falls || jumps = [] then some .branches
        else if jumps.all (· = .throwJump) then some .throws
        else if jumps.any (fun jump => jump ∈ [.exitJump, .breakJump, .continueJump]) then
          some .exits
        else some .returns

def dominates (aLine bLine : Nat) : Bool :=
  match cfg.nodeAt aLine, cfg.nodeAt bLine with
  | some a, some b => cfg.dominatesNode a b
  | _, _ => false

/-- `relation`: none when a line names no node. -/
def relation (guardLine operationLine : Nat) : Option Relation :=
  match cfg.nodeAt guardLine, cfg.nodeAt operationLine with
  | some guard, some operation =>
    if guardLine > operationLine then some .after
    else if cfg.dominatesNode guard operation then some .allPaths
    else if (cfg.dominators.lookup guard).isSome && cfg.reaches [guard] operation [] then
      some .somePaths
    else some .none
  | _, _ => Option.none

def variableBranches (guard operation : Nat) : List Nat :=
  let name := assignedName (cfg.conditionOf guard)
  if name = "" then []
  else (List.range cfg.nodes.length).filter fun index =>
    cfg.kindOf index = some .branch && index ≠ guard && mentions name (cfg.conditionOf index)
      && cfg.dominatesNode guard index && cfg.dominatesNode index operation

/-- The branch whose arms decide the effect: the guard's own, or else the first later
branch on its variable that has an effect. -/
def decidingBranch (guard operation : Nat) : Option Nat :=
  (guard :: cfg.variableBranches guard operation).find? fun branch =>
    (cfg.branchEffect branch operation).isSome

/-- `effect`: none when a line names no node. -/
def effect (guardLine operationLine : Nat) (throwing : Bool) : Option Effect :=
  match cfg.nodeAt guardLine, cfg.nodeAt operationLine with
  | some guard, some operation =>
    match (cfg.decidingBranch guard operation).bind (cfg.branchEffect · operation) with
    | some found => some found
    | Option.none => some (if throwing then .throws else .valueOnly)
  | _, _ => Option.none

def context (line : Nat) : ControlContext :=
  ((cfg.nodeAt line).bind (cfg.nodes[·]?)).elim {} (·.context)

end FunctionCfg

/-- The depth-first stack of `_dominators`; the result is the reverse postorder.
Every node pushes its successors once, which bounds the fuel. -/
def postorderLoop (successors : Nat → List Nat) :
    Nat → List (Nat × Bool) → List Nat → List Nat → List Nat
  | 0, _, _, order => order
  | _ + 1, [], _, order => order
  | fuel + 1, (node, true) :: stack, seen, order =>
    postorderLoop successors fuel stack seen (node :: order)
  | fuel + 1, (node, false) :: stack, seen, order =>
    if node ∈ seen then postorderLoop successors fuel stack seen order
    else
      let next := (successors node).filter (· ∉ node :: seen)
      postorderLoop successors fuel (next.map (·, false) ++ (node, true) :: stack)
        (node :: seen) order

def reversePostorder (cfg : FunctionCfg) : List Nat :=
  postorderLoop cfg.successors (2 * (cfg.normal.length + cfg.exceptional.length) + 3)
    [(FunctionCfg.entryIndex, false)] [] []

abbrev Masks := List (Nat × Nat)

def Masks.get (dom : Masks) (node : Nat) : Nat := (dom.lookup node).getD 0

def Masks.set (dom : Masks) (node mask : Nat) : Masks :=
  dom.map fun entry => if entry.1 = node then (node, mask) else entry

def meetMask (predecessors : Nat → List Nat) (everything : Nat) (dom : Masks) (node : Nat) : Nat :=
  (predecessors node).foldl (fun mask p => mask &&& dom.get p) everything ||| 1 <<< node

def dominatorPass (predecessors : Nat → List Nat) (everything : Nat) :
    List Nat → Masks → Bool → Masks × Bool
  | [], dom, changed => (dom, changed)
  | node :: rest, dom, changed =>
    let mask := meetMask predecessors everything dom node
    if mask ≠ dom.get node then
      dominatorPass predecessors everything rest (dom.set node mask) true
    else dominatorPass predecessors everything rest dom changed

/-- Passes until one changes nothing. A changing pass clears a bit of some mask,
which bounds the fuel. -/
def dominatorLoop (predecessors : Nat → List Nat) (everything : Nat) (rest : List Nat) :
    Nat → Masks → Masks
  | 0, dom => dom
  | fuel + 1, dom =>
    let (dom, changed) := dominatorPass predecessors everything rest dom false
    if changed then dominatorLoop predecessors everything rest fuel dom else dom

/-- `_dominators`: bit masks over the nodes reachable from the entry. -/
def computeDominators (cfg : FunctionCfg) : Masks :=
  let order := reversePostorder cfg
  let predecessors := fun node => order.filter fun p => node ∈ cfg.successors p
  let everything := order.foldl (fun mask node => mask ||| 1 <<< node) 0
  let start := order.map fun node =>
    (node, if node = FunctionCfg.entryIndex then 1 <<< FunctionCfg.entryIndex else everything)
  dominatorLoop predecessors everything order.tail (order.length * order.length + 1) start

end OpenUltraSast.Cfg
