import OpenUltraSast.Cfg.Graph
import OpenUltraSast.Cfg.Trees

/-!
# Building the graph of a function

The statements of a function become nodes and edges. A construct that is not modelled leaves the function
without a graph, and so does a tree that is nested deeper than the interpreter's calls may be.
-/

namespace OpenUltraSast.Cfg

/-- What a jump may aim at. -/
inductive FrameKind where
  | loop
  | switch
deriving DecidableEq

structure Frame where
  kind : FrameKind
  breaks : List Nat := []
  continues : List Nat := []
deriving DecidableEq

/-- `_Builder`; the innermost frame comes first. -/
structure Builder where
  nodes : List CfgNode
  normal : List (Nat × Nat)
  exceptional : List (Nat × Nat)
  frames : List Frame
  handlers : List (List Nat)
  conditions : List String
  loops : Nat
  catches : List String
  tries : Nat
  exceptionPaths : Nat

def addEdge (edges : List (Nat × Nat)) (edge : Nat × Nat) : List (Nat × Nat) :=
  if edge ∈ edges then edges else edges ++ [edge]

def addEdges (edges more : List (Nat × Nat)) : List (Nat × Nat) := more.foldl addEdge edges

/-- A run of the builder; an error is the reason why there is no graph. -/
abbrev Build := StateT Builder (Except String)

namespace Builder

def context (s : Builder) : ControlContext where
  conditions := s.conditions
  inLoop := 0 < s.loops
  inTry := 0 < s.tries
  catches := s.catches
  onExceptionPath := 0 < s.exceptionPaths

def handled (s : Builder) (index : Nat) : List (Nat × Nat) := s.handlers.flatten.map (index, ·)

/-- The state of `_new`. -/
def added (s : Builder) (kind : NodeKind) (startLine endLine : Nat) (startByte : Int)
    (condition : String) (located : Bool) : Builder :=
  let index := s.nodes.length
  { s with
    nodes := s.nodes ++
      [{ kind := kind, startLine := startLine, endLine := endLine, startByte := startByte
         context := s.context, condition := condition, located := located }]
    exceptional :=
      if FunctionCfg.exitIndex < index then addEdges s.exceptional (s.handled index)
      else s.exceptional }

def start (startLine endLine : Nat) : Builder :=
  let empty : Builder := ⟨[], [], [], [], [], [], 0, [], 0, 0⟩
  (empty.added .entry startLine startLine (-1) "" false).added .ending endLine endLine (-1) "" false

end Builder

def new (kind : NodeKind) (startLine endLine startByte : Nat) (condition : String) (located : Bool) :
    Build Nat :=
  modifyGet fun s => (s.nodes.length, s.added kind startLine endLine startByte condition located)

def link (preds : List Nat) (target : Nat) : Build Unit :=
  modify fun s => { s with normal := addEdges s.normal (preds.map (·, target)) }

/-- `exceptional[node].update(targets)`. -/
def throwTo (node : Nat) (targets : List Nat) : Build Unit :=
  modify fun s => { s with exceptional := addEdges s.exceptional (targets.map (node, ·)) }

/-- `_node`. -/
def nodeFor (kind : NodeKind) (syn : Cst) (preds : List Nat) (condition : String) : Build Nat := do
  let index ← new kind syn.line syn.endLine syn.label.startByte condition true
  link preds index
  return index

def within {α : Type} (enter leave : Builder → Builder) (part : Build α) : Build α := do
  modify enter
  let result ← part
  modify leave
  return result

/-- `_condition`, and any other conditions that hold while a part is built. -/
def underConditions {α : Type} (texts : List String) : Build α → Build α :=
  within (fun s => { s with conditions := s.conditions ++ texts })
    fun s => { s with conditions := s.conditions.take (s.conditions.length - texts.length) }

/-- A part that jumps may leave, with the jumps that do. -/
def inFrame {α : Type} (kind : FrameKind) (part : Build α) : Build (α × Frame) := do
  modify fun s => { s with frames := { kind := kind } :: s.frames }
  let result ← part
  let frame ← modifyGet fun s => (s.frames.headD { kind := kind }, { s with frames := s.frames.tail })
  return (result, frame)

def inLoop {α : Type} (part : Build α) : Build (α × Frame) :=
  inFrame .loop (within (fun s => { s with loops := s.loops + 1 })
    (fun s => { s with loops := s.loops - 1 }) part)

/-- A part whose exceptions go to the targets. -/
def underHandlers {α : Type} (targets : List (List Nat)) : Build α → Build α :=
  within (fun s => { s with handlers := s.handlers ++ targets })
    fun s => { s with handlers := s.handlers.take (s.handlers.length - targets.length) }

def inTry {α : Type} (types : List String) : Build α → Build α :=
  within (fun s => { s with tries := s.tries + 1, catches := s.catches ++ types })
    fun s => { s with
      tries := s.tries - 1, catches := s.catches.take (s.catches.length - types.length) }

def onExceptionPath {α : Type} : Build α → Build α :=
  within (fun s => { s with exceptionPaths := s.exceptionPaths + 1 })
    fun s => { s with exceptionPaths := s.exceptionPaths - 1 }

def exitUnhandled (index : Nat) : Build Unit :=
  modify fun s =>
    if s.handlers.isEmpty then { s with normal := addEdge s.normal (index, FunctionCfg.exitIndex) } else s

def searchedPart (node : Cst) : Cst :=
  if node.type = "expression_statement" ∧ node.onlyChild = "throw_expression" then
    node.namedChildren.headD node
  else node

section Construction

-- the search for hidden jumps, and the recursion of `_statement`
variable (search : Cst → Bool) (statement : Cst → List Nat → Build (List Nat))

/-- The innermost frame that takes a jump; a `break` leaves any. -/
def targetOf (leaves : Bool) (s : Builder) : Option Nat :=
  s.frames.findIdx? fun f => leaves || f.kind = .loop

def Frame.taking (leaves : Bool) (index : Nat) (f : Frame) : Frame :=
  if leaves then { f with breaks := f.breaks ++ [index] }
  else { f with continues := f.continues ++ [index] }

/-- `break` and `continue`. -/
def jumpTo (leaves : Bool) (node : Cst) (preds : List Nat) : Build (List Nat) := do
  if node.statements ≠ [] ∧ node.singleLevel = false then throw "labelled_jump"
  match ← modifyGet fun s => (targetOf leaves s, s) with
  | none => throw "jump_without_target"
  | some target =>
    let index ← nodeFor (if leaves then .breakJump else .continueJump) node preds ""
    modify fun s => { s with frames := s.frames.modify target (Frame.taking leaves index) }
    return []

def simple (node : Cst) (preds : List Nat) : Build (List Nat) := do
  let thrown := node.type = "expression_statement" ∧ node.onlyChild = "throw_expression"
  if search (searchedPart node) then throw "jump_inside_expression"
  if node.type ∈ returns then
    let index ← nodeFor .returnJump node preds ""
    link [index] FunctionCfg.exitIndex
    return []
  else if node.type ∈ throws ∨ thrown then
    let index ← nodeFor .throwJump node preds ""
    exitUnhandled index
    return []
  else if node.type ∈ breaks then jumpTo true node preds
  else if node.type ∈ continues then jumpTo false node preds
  else if node.type ∈ exitStatements ∨ node.isExitCall = true then
    let index ← nodeFor .exitJump node preds ""
    link [index] FunctionCfg.exitIndex
    return []
  else if node.type = "assert_statement" then
    let index ← nodeFor .branch node preds node.conditionText
    let failed ← new .throwJump node.line node.line node.label.startByte "" false
    link [index] failed
    exitUnhandled failed
    return [index]
  else
    let index ← nodeFor .statement node preds (String.ofList (node.text.toList.take 240))
    return [index]

def sequence (statements : List Cst) (preds : List Nat) : Build (List Nat) :=
  statements.foldlM (fun preds node => statement node preds) preds

def optional (node : Option Cst) (preds : List Nat) : Build (List Nat) :=
  match node with
  | some node => statement node preds
  | none => return preds

/-- `_branch`. -/
def branchOn (condition : Option Cst) (fallback : Cst) (preds : List Nat) : Build (Nat × String) := do
  let text := (condition.map Cst.conditionText).getD ""
  if condition.any search then throw "jump_inside_expression"
  let index ← nodeFor .branch (condition.getD fallback) preds text
  return (index, text)

def negated (text : String) : String := "not (" ++ text ++ ")"

/-- `child_by_field_name("consequence") or child_by_field_name("body")`. -/
def consequence (node : Cst) : Option Cst := (node.childByField "consequence").or (node.childByField "body")

/-- The ways out of the arms built so far, those into the next, and the conditions that then failed. -/
structure Arms where
  outs : List Nat
  rest : List Nat
  failed : List String

def elifTypes : List String := ["elif_clause", "else_if_clause"]

def elseBody (clause : Cst) : Option Cst := (clause.childByField "body").or clause.statements.head?

def alternativeStep (arms : Arms) (alternative : Cst) : Build Arms :=
  underConditions arms.failed do
    if alternative.type ∈ ifs then
      let out ← statement alternative arms.rest
      return { arms with outs := arms.outs ++ out, rest := [] }
    else if alternative.type ∈ elifTypes then
      let (branch, text) ← branchOn search (alternative.childByField "condition") alternative arms.rest
      let out ← underConditions [text] (optional statement (consequence alternative) [branch])
      return { outs := arms.outs ++ out, rest := [branch], failed := arms.failed ++ [negated text] }
    else if alternative.type = "else_clause" then
      let out ← optional statement (elseBody alternative) arms.rest
      return { arms with outs := arms.outs ++ out, rest := [] }
    else
      let out ← statement alternative arms.rest
      return { arms with outs := arms.outs ++ out, rest := [] }

/-- `_if`. -/
def conditional (node : Cst) (preds : List Nat) : Build (List Nat) := do
  let (branch, text) ← branchOn search (node.childByField "condition") node preds
  let outs ← underConditions [text] (optional statement (consequence node) [branch])
  let arms ← (node.childrenByField "alternative").foldlM (alternativeStep search statement)
    ⟨outs, [branch], [negated text]⟩
  return arms.outs ++ arms.rest

def loop (node : Cst) (preds : List Nat) : Build (List Nat) :=
  match node.childByField "body" with
  | none => throw "unmodelled_construct"
  | some body => do
    let condition := node.childByField "condition"
    let headerEnd := max node.line (body.line - 1)
    let text := match condition with
      | some condition =>
        if condition.type ≠ "empty_statement" then condition.conditionText else node.headerText body
      | none => node.headerText body
    if condition.any search then throw "jump_inside_expression"
    let header ← new .branch node.line headerEnd node.label.startByte text true
    link preds header
    let (out, frame) ← inLoop (underConditions [text] (statement body [header]))
    link (out ++ frame.continues) header
    let outs ← optional statement ((node.childByField "alternative").bind (·.childByField "body")) [header]
    return outs ++ frame.breaks

/-- `_do`. -/
def doLoop (node : Cst) (preds : List Nat) : Build (List Nat) :=
  match node.childByField "body", node.childByField "condition" with
  | some body, some condition => do
    let first ← modifyGet fun s => (s.nodes.length, s)
    let (out, frame) ← inLoop (statement body preds)
    let (branch, _) ← branchOn search (some condition) node (out ++ frame.continues)
    link [branch] (if first < branch then first else branch)
    return branch :: frame.breaks
  | _, _ => throw "unmodelled_construct"

/-- The ways out of the arms of a switch that were built, those that fall into the next, and whether
there was a default. -/
structure Cases where
  outs : List Nat
  falling : List Nat
  hasDefault : Bool

def caseStep (branch : Nat) (subject : String) (cases : Cases) (node : Cst) : Build Cases :=
  match node.arm with
  | none => throw "unmodelled_construct"
  | some arm => do
    let case ← new .caseLabel node.line node.line node.label.startByte arm.label true
    link [branch] case
    let text := if arm.default then "default" else "case " ++ arm.label ++ " of " ++ subject
    let hasDefault := cases.hasDefault || arm.default
    if arm.fallsThrough then
      let out ← underConditions [text] (sequence statement arm.statements (case :: cases.falling))
      return { cases with falling := out, hasDefault := hasDefault }
    else
      let out ← underConditions [text] (sequence statement arm.statements [case])
      return { cases with outs := cases.outs ++ out, hasDefault := hasDefault }

/-- What a switch decides on. -/
def subjectOf (node : Cst) : Option Cst :=
  (node.childByField "condition").or ((node.childByField "value").or (node.childByField "subject"))

def switch (node : Cst) (preds : List Nat) : Build (List Nat) :=
  match node.childByField "body" with
  | none => throw "unmodelled_construct"
  | some body => do
    let (branch, subject) ← branchOn search (subjectOf node) node preds
    let (cases, frame) ← inFrame .switch
      (body.statements.foldlM (caseStep statement branch subject) ⟨[], [], false⟩)
    return cases.outs ++ cases.falling ++ frame.breaks ++ if cases.hasDefault then [] else [branch]

def clauseTypes : List String := ["catch_clause", "except_clause", "except_group_clause"]

def clausesOf (node : Cst) : List Cst :=
  node.namedChildren.filter (·.type ∈ clauseTypes) ++
    ((node.childByField "handler").filter fun handler =>
      !(handler.label.named && handler.type ∈ clauseTypes)).toList

def clauseBody (clause : Cst) : Option Cst :=
  (clause.childByField "body").or (clause.namedChildren.find? (·.type ∈ blocks))

def clauseNode (kind : NodeKind) (clause : Cst) : Build Nat :=
  new kind clause.line clause.line clause.label.startByte "" true

def leaveFinally (outs : List Nat) : Build Unit :=
  modify fun s =>
    { s with exceptional := addEdges s.exceptional (outs.flatMap fun index =>
        if s.handlers.isEmpty then [(index, FunctionCfg.exitIndex)] else s.handled index) }

/-- The resources of a try statement, before its body. -/
def resourcesNode (node : Cst) (start : Nat) : Build (List Nat) :=
  match node.childByField "resources" with
  | some resources => do
    let index ← nodeFor .statement resources [start] resources.text
    return [index]
  | none => return [start]

def tryBody (node body : Cst) (start : Nat) (targets : List Nat) (types : List String) :
    Build (List Nat) :=
  underHandlers [targets] (inTry types do
    let out ← resourcesNode node start
    statement body out)

def clauseBodies (clauses : List (Cst × Nat)) (outs : List Nat) : Build (List Nat) :=
  onExceptionPath (clauses.foldlM (fun outs clause => do
    let out ← optional statement (clauseBody clause.1) [clause.2]
    return outs ++ out) outs)

def finallyPart (final : Option Cst) (entry : Option Nat) (normal : List Nat) : Build (List Nat) :=
  match final, entry with
  | some final, some entry => do
    link normal entry
    let outs ← optional statement (clauseBody final) [entry]
    leaveFinally outs
    return outs
  | _, _ => return normal

/-- `_try`. -/
def guarded (node : Cst) (preds : List Nat) : Build (List Nat) :=
  match node.childByField "body" with
  | none => throw "unmodelled_construct"
  | some body => do
    let clauses := clausesOf node
    let final := node.namedChildren.find? (·.type = "finally_clause")
    let orelse_ := node.namedChildren.find? (·.type = "else_clause")
    let start ← clauseNode .tryStart node
    link preds start
    let entries ← clauses.mapM (clauseNode .catchClause)
    let finalEntry ← final.mapM (clauseNode .finallyBlock)
    let targets := if entries.isEmpty then finalEntry.toList else entries
    throwTo start targets
    let out ← tryBody statement node body start targets (clauses.map Cst.catchType)
    let out ← optional statement (orelse_.bind (·.childByField "body")) out
    let normal ← underHandlers (finalEntry.toList.map ([·]))
      (clauseBodies statement (clauses.zip entries) out)
    finallyPart statement final finalEntry normal

/-- A statement with a header, such as `with`. -/
def withHeader (node : Cst) (preds : List Nat) : Build (List Nat) :=
  match node.childByField "body" with
  | none => throw "unmodelled_construct"
  | some body => do
    let headerEnd := max node.line (body.line - 1)
    let header ← new .statement node.line headerEnd node.label.startByte (node.headerText body) true
    link preds header
    statement body [header]

def unlabelled (node : Cst) : List Cst :=
  node.namedChildren.filter fun child => child.type ≠ "identifier" ∧ child.type ≠ "statement_identifier"

/-- `_statement`, but for its recursion. -/
def dispatch (node : Cst) (preds : List Nat) : Build (List Nat) :=
  match formOf node.type with
  | .skipped => return preds
  | .block => sequence statement node.statements preds
  | .conditional => conditional search statement node preds
  | .loop => loop search statement node preds
  | .doLoop => doLoop search statement node preds
  | .switch => switch search statement node preds
  | .guarded => guarded statement node preds
  | .headed => withHeader statement node preds
  | .labelled => sequence statement (unlabelled node) preds
  | .simple => simple search node preds

end Construction

/-- `_statement`, with so many nested statements left to the interpreter. -/
def statement (search : Cst → Bool) : Nat → Cst → List Nat → Build (List Nat)
  | 0 => fun _ _ => throw "nesting_too_deep"
  | depth + 1 => dispatch search (statement search depth)

def build (search : Cst → Bool) (depth : Nat) (function : Cst) : Build Unit :=
  match function.childByField "body" with
  | none => link [FunctionCfg.entryIndex] FunctionCfg.exitIndex
  | some body => do
    let out ←
      if body.type ∈ blocks then statement search depth body [FunctionCfg.entryIndex]
      else simple search body [FunctionCfg.entryIndex]
    link out FunctionCfg.exitIndex

def languages : List String := ["java", "php", "python", "javascript", "typescript", "tsx"]

/-- `from_cst`, on an interpreter whose calls may be nested so deep. -/
def fromCst (depth : Nat) (node : Cst) (language : String) : FunctionCfg :=
  let without (reason : String) : FunctionCfg :=
    { startLine := node.line, endLine := node.endLine, available := false, reason := some reason }
  if language ∉ languages then without "no_control_flow_builder"
  else match (build Cst.hidesJump depth node).run (Builder.start node.line node.endLine) with
    | .error reason => without reason
    | .ok (_, s) =>
      let cfg : FunctionCfg :=
        { startLine := node.line, endLine := node.endLine, available := true, nodes := s.nodes
          normal := s.normal, exceptional := s.exceptional }
      { cfg with dominators := computeDominators cfg }

end OpenUltraSast.Cfg
