import Mathlib.Data.List.Forall2
import OpenUltraSast.Library.Text

/-!
# Syntax trees

The trees of a parser as the control-flow builder reads them: the kinds of nodes that it tells apart,
the texts that it takes from them, and the search for jumps that an expression hides.
-/

namespace OpenUltraSast.Cfg

/-- What a node says of itself: its type, the field of its parent that it fills, whether the grammar
names it, its text and where it lies. -/
structure Label where
  type : String
  field : String
  named : Bool
  text : String
  startRow : Nat
  endRow : Nat
  startByte : Nat

inductive Cst where
  | node (label : Label) (children : List Cst)

def comments : List String :=
  ["comment", "line_comment", "block_comment", "text_interpolation", "php_tag", "empty_statement"]

def blocks : List String :=
  ["block", "compound_statement", "statement_block", "colon_block", "constructor_body"]

/-- `_IF`. -/
def ifs : List String := ["if_statement"]

/-- `_WHILE`. -/
def whiles : List String := ["while_statement"]

/-- `_FOR`. -/
def fors : List String :=
  ["for_statement", "enhanced_for_statement", "for_in_statement", "foreach_statement"]

/-- `_DO`. -/
def dos : List String := ["do_statement"]

/-- `_SWITCH`. -/
def switches : List String := ["switch_statement", "switch_expression", "match_statement"]

/-- `_TRY`. -/
def tries : List String := ["try_statement", "try_with_resources_statement"]

def headed : List String := ["with_statement", "synchronized_statement"]

def labelled : List String := ["labeled_statement"]

/-- `_RETURN`. -/
def returns : List String := ["return_statement"]

/-- `_THROW`. -/
def throws : List String := ["throw_statement", "raise_statement"]

/-- `_BREAK`. -/
def breaks : List String := ["break_statement"]

/-- `_CONTINUE`. -/
def continues : List String := ["continue_statement"]

/-- `_EXIT_STATEMENT`. -/
def exitStatements : List String := ["exit_statement"]

/-- `_COMPOUND`. -/
def compounds : List String :=
  ifs ++ whiles ++ fors ++ dos ++ tries ++ headed ++ labelled ++ ["switch_statement", "match_statement"]

/-- `_HIDDEN_JUMP`. -/
def hiddenJumps : List String :=
  returns ++ throws ++ breaks ++ continues ++ exitStatements ++ ["throw_expression", "yield_statement"]

/-- `_NESTED`. -/
def nestedTypes : List String :=
  ["function_definition", "function_declaration", "function_expression",
    "generator_function_declaration", "generator_function", "method_declaration", "method_definition",
    "constructor_declaration", "arrow_function", "anonymous_function", "lambda_expression", "lambda",
    "class_definition", "class_declaration", "class_body", "class", "interface_declaration",
    "enum_declaration", "declaration_list", "anonymous_class"]

def exitCalls : List String := ["exit", "die", "_exit", "abort"]

/-- What the builder does with a statement. -/
inductive Form where
  | skipped
  | block
  | conditional
  | loop
  | doLoop
  | switch
  | guarded
  | headed
  | labelled
  | simple
deriving DecidableEq

/-- The tests of `_statement` on the type of a node, in their order. -/
def formOf (type : String) : Form :=
  if type ∈ comments then .skipped
  else if type ∈ blocks then .block
  else if type ∈ ifs then .conditional
  else if type ∈ whiles ∨ type ∈ fors then .loop
  else if type ∈ dos then .doLoop
  else if type ∈ switches then .switch
  else if type ∈ tries then .guarded
  else if type ∈ headed then .headed
  else if type ∈ labelled then .labelled
  else .simple

namespace Cst

def label : Cst → Label
  | .node label _ => label

def children : Cst → List Cst
  | .node _ children => children

def type (node : Cst) : String := node.label.type

def text (node : Cst) : String := node.label.text

def line (node : Cst) : Nat := node.label.startRow + 1

def endLine (node : Cst) : Nat := node.label.endRow + 1

def namedChildren (node : Cst) : List Cst := node.children.filter (·.label.named)

/-- `node.child_by_field_name(field)`. -/
def childByField (node : Cst) (field : String) : Option Cst :=
  node.children.find? (·.label.field = field)

/-- `node.children_by_field_name(field)`. -/
def childrenByField (node : Cst) (field : String) : List Cst :=
  node.children.filter (·.label.field = field)

/-- `_statements`: the named children that are no comments. -/
def statements (node : Cst) : List Cst := node.namedChildren.filter (·.type ∉ comments)

def onlyChild (node : Cst) : String :=
  match node.statements with
  | [child] => child.type
  | _ => ""

mutual
/-- `_descendants`: what lies below a node, but for nested functions and classes and what is in them. -/
def descendants : Cst → List Cst
  | .node _ children => descendantsOf children

def descendantsOf : List Cst → List Cst
  | [] => []
  | child :: rest =>
    (if child.label.named = true ∧ child.label.type ∉ nestedTypes then child :: descendants child else []) ++
      descendantsOf rest
end

def hidesJump (node : Cst) : Bool :=
  node.descendants.any fun child => child.type ∈ hiddenJumps ∨ child.type ∈ compounds

/-- `text.split()`. -/
def words (text : String) : List String :=
  ((text.toList.splitOnP Text.isSpace).filter (· ≠ [])).map String.ofList

def flat (text : String) : String :=
  let joined := " ".intercalate (words text)
  if joined.length ≤ 160 then joined else String.ofList (joined.toList.take 157) ++ "..."

def strip (text : String) : String := Text.stripOf Text.isSpace text

mutual
/-- The condition inside its parentheses. -/
def unwrap : Cst → Cst
  | .node label children =>
    if label.type = "parenthesized_expression" ∧ (children.filter (·.label.named)).length = 1 then
      (unwrapFirst children).getD (.node label children)
    else .node label children

def unwrapFirst : List Cst → Option Cst
  | [] => none
  | child :: rest => if child.label.named then some (unwrap child) else unwrapFirst rest
end

def conditionText (condition : Cst) : String :=
  let node := unwrap condition
  if node.type = "assert_statement" then
    match node.statements with
    | first :: _ => flat first.text
    | [] => ""
  else flat node.text

def headerText (node body : Cst) : String :=
  let header := String.ofList (node.text.toList.take (body.label.startByte - node.label.startByte))
  flat (Text.rstripOf (" :\x7b\n".toList.contains ·) header)

/-- `re.sub(r"^\s*case\s+", "", text)`. -/
def withoutCase (text : String) : String :=
  let rest := text.toList.dropWhile Text.isSpace
  let tail := rest.drop 4
  if "case".toList.isPrefixOf rest && tail.head?.any Text.isSpace then
    String.ofList (tail.dropWhile Text.isSpace)
  else text

/-- `_label`. -/
def labelText (labels : List Cst) : String :=
  ", ".intercalate (labels.map fun label =>
    flat (strip (Text.rstripOf (· = ':') (withoutCase label.text))))

def catchType (clause : Cst) : String :=
  match clause.childByField "type" with
  | some typed => flat typed.text
  | none =>
    let parameters := clause.namedChildren.filter (·.type = "catch_formal_parameter")
    match parameters.findSome? fun child => child.namedChildren.find? (·.type = "catch_type") with
    | some caught => flat caught.text
    | none =>
      if clause.type = "except_clause" ∨ clause.type = "except_group_clause" then
        match (clause.childByField "value").or
          (clause.namedChildren.find? fun child => child.type ∉ blocks ∧ child.type ∉ comments) with
        | some value =>
          if value.type = "as_pattern" then flat (value.namedChildren.headD value).text
          else flat value.text
        | none => "any"
      else "any"

/-- The characters that `_is_exit_call` splits a callee at. -/
def nameBreaks : List Char := ['.', '\\', ':', '>', '-']

def lastName (callee : String) : String :=
  String.ofList (callee.toList.reverse.takeWhile (· ∉ nameBreaks)).reverse

def callTypes : List String :=
  ["call", "call_expression", "method_invocation", "function_call_expression"]

def isExitCall (node : Cst) : Bool :=
  node.type = "expression_statement" &&
    match node.statements with
    | [call] => decide (call.type ∈ callTypes) &&
        decide (lastName (strip (Text.firstPart '(' call.text)) ∈ exitCalls)
    | _ => false

def singleLevel (node : Cst) : Bool :=
  match node.statements with
  | [level] => level.type = "integer" && strip level.text = "1"
  | _ => false

/-- What `_arm` returns: the label's text, the statements, whether it is the default, and whether
control falls into the next arm. -/
structure Arm where
  label : String
  statements : List Cst
  default : Bool
  fallsThrough : Bool

def isDefaultLabel (label : Cst) : Bool := Text.startsWith (strip label.text) "default"

def labelledArm (arm : Cst) (fallsThrough : Bool) : Arm :=
  let labels := arm.statements.filter (·.type = "switch_label")
  { label := labelText labels
    statements := arm.statements.filter (·.type ≠ "switch_label")
    default := labels.any isDefaultLabel
    fallsThrough := fallsThrough }

def matchesAll (patterns : List Cst) : Bool :=
  match patterns with
  | [pattern] => strip pattern.text = "_"
  | _ => false

/-- `_arm`; none is a construct that is not modelled. -/
def arm (arm : Cst) : Option Arm :=
  let named := arm.statements
  if arm.type = "switch_block_statement_group" then some (labelledArm arm true)
  else if arm.type = "switch_rule" then some (labelledArm arm false)
  else if arm.type = "case_statement" ∨ arm.type = "switch_case" then
    let value := (arm.childByField "value").or named.head?
    some { label := (value.map text).getD ""
           statements := if arm.type = "switch_case" then arm.childrenByField "body" else named.drop 1
           default := false
           fallsThrough := true }
  else if arm.type = "default_statement" ∨ arm.type = "switch_default" then
    some { label := "default"
           statements := if arm.type = "switch_default" then arm.childrenByField "body" else named
           default := true
           fallsThrough := true }
  else if arm.type = "case_clause" then
    let consequence := arm.childByField "consequence"
    -- the children are told apart by identity: the pattern list lacks the one consequence
    let patterns := (arm.children.eraseP (·.label.field = "consequence")).filter fun child =>
      child.label.named ∧ child.type ∉ comments
    some { label := ", ".intercalate (patterns.map fun child => flat child.text)
           statements := consequence.toList
           default := matchesAll patterns
           fallsThrough := false }
  else none

end Cst

end OpenUltraSast.Cfg
