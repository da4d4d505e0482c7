import OpenUltraSast.Library.Collections
import OpenUltraSast.Cfg.Trees

/-!
# Replaced bodies of nested declarations

Two trees that are one but for what stands inside nested functions, lambdas and classes: what the
builder reads of a node outside of them is the same in both.
-/

namespace OpenUltraSast.Cfg

open Cst List

mutual
def holdsNested : Cst → Bool
  | .node label children => decide (label.type ∈ nestedTypes) || holdsNestedIn children

def holdsNestedIn : List Cst → Bool
  | [] => false
  | child :: rest => holdsNested child || holdsNestedIn rest
end

/-- The fields that a grammar fills with nodes of its own: the arms of a switch, the else of a loop and
the handler of a try statement. -/
def isPart (parent field : String) : Bool :=
  (parent ∈ switches && field = "body") ||
    ((parent ∈ whiles || parent ∈ fors) && field = "alternative") ||
    (parent ∈ tries && field = "handler")

/-- What another body in a nested declaration leaves of a node around it: all but where it lies and how
its text goes on. The texts that are a keyword or a number as a whole hold no body, and what a text
starts with stands before it. -/
structure Label.Kept (l l' : Label) : Prop where
  type_eq : l.type = l'.type
  field_eq : l.field = l'.field
  named_eq : l.named = l'.named
  default_eq : Text.startsWith (strip l.text) "default" = Text.startsWith (strip l'.text) "default"
  wildcard_iff : strip l.text = "_" ↔ strip l'.text = "_"
  single_iff : strip l.text = "1" ↔ strip l'.text = "1"

/-- A tree, and the tree with other bodies in its nested declarations. -/
inductive Replaced : Cst → Cst → Prop where
  | nested {l l' children children'} (kept : Label.Kept l l') (nested : l.type ∈ nestedTypes) :
    Replaced (.node l children) (.node l' children')
  | around {l l' children children'} (kept : Label.Kept l l') (outer : l.type ∉ nestedTypes)
      (parts : List.Forall₂ Replaced children children')
      (placed : ∀ child ∈ children, child.type ∈ nestedTypes → isPart l.type child.label.field = false)
      (own : holdsNestedIn children = false → l.text = l'.text) :
    Replaced (.node l children) (.node l' children')

def ReplacedIn (function function' : Cst) : Prop :=
  Label.Kept function.label function'.label ∧ List.Forall₂ Replaced function.children function'.children

namespace Replaced

variable {node node' : Cst}

section
variable (replaced : Replaced node node')
include replaced

theorem kept : Label.Kept node.label node'.label := by
  cases replaced with
  | nested kept _ => exact kept
  | around kept _ _ _ _ => exact kept

theorem type_eq : node.type = node'.type := replaced.kept.type_eq

theorem children (outer : node.type ∉ nestedTypes) :
    List.Forall₂ Replaced node.children node'.children := by
  cases replaced with
  | nested _ nested => exact (outer nested).elim
  | around _ _ parts _ _ => exact parts

theorem outer_of_isPart (outer : node.type ∉ nestedTypes) {child : Cst}
    (member : child ∈ node.children) (part : isPart node.type child.label.field = true) :
    child.type ∉ nestedTypes := by
  cases replaced with
  | nested _ nested => exact (outer nested).elim
  | around _ _ _ placed _ =>
    intro nested
    exact Bool.false_ne_true ((placed child member nested).symm.trans part)

end

end Replaced

variable {test : Cst → Bool}

section Children

variable {children children' : List Cst}

/-- A test on the type, the field and the name of a node. -/
def Structural (test : Cst → Bool) : Prop :=
  ∀ child child', Label.Kept child.label child'.label → test child = test child'

theorem filter_replaced (structural : Structural test) (parts : List.Forall₂ Replaced children children') :
    List.Forall₂ Replaced (children.filter test) (children'.filter test) := by
  induction parts with
  | nil => exact .nil
  | cons replaced _ ih =>
    have same := structural _ _ replaced.kept
    rw [filter_cons, filter_cons, same]
    split
    · exact .cons replaced ih
    · exact ih

theorem find_replaced (structural : Structural test) (parts : List.Forall₂ Replaced children children') :
    Option.Rel Replaced (children.find? test) (children'.find? test) := by
  induction parts with
  | nil => exact .none
  | cons replaced _ ih =>
    have same := structural _ _ replaced.kept
    rw [List.find?_cons, List.find?_cons, same]
    split
    · exact .some replaced
    · exact ih

theorem eraseP_replaced (structural : Structural test) (parts : List.Forall₂ Replaced children children') :
    List.Forall₂ Replaced (children.eraseP test) (children'.eraseP test) := by
  induction parts with
  | nil => exact .nil
  | cons replaced parts ih =>
    have same := structural _ _ replaced.kept
    rw [eraseP_cons, eraseP_cons, same]
    cases test _ with
    | true => exact parts
    | false => exact .cons replaced ih

theorem head_replaced (parts : List.Forall₂ Replaced children children') :
    Option.Rel Replaced children.head? children'.head? := by
  cases parts with
  | nil => exact .none
  | cons replaced _ => exact .some replaced

theorem or_replaced {a b a' b' : Option Cst} (first : Option.Rel Replaced a a')
    (second : Option.Rel Replaced b b') : Option.Rel Replaced (a.or b) (a'.or b') := by
  cases first with
  | none => exact second
  | some replaced => exact .some replaced

variable {node node' : Cst} (parts : List.Forall₂ Replaced node.children node'.children)
include parts

theorem namedChildren_replaced : List.Forall₂ Replaced node.namedChildren node'.namedChildren :=
  filter_replaced (fun _ _ kept => kept.named_eq) parts

theorem childByField_replaced (field : String) :
    Option.Rel Replaced (node.childByField field) (node'.childByField field) :=
  find_replaced (fun _ _ kept => by rw [kept.field_eq]) parts

theorem childrenByField_replaced (field : String) :
    List.Forall₂ Replaced (node.childrenByField field) (node'.childrenByField field) :=
  filter_replaced (fun _ _ kept => by rw [kept.field_eq]) parts

theorem statements_replaced : List.Forall₂ Replaced node.statements node'.statements :=
  filter_replaced (fun _ _ kept => by rw [type, type, kept.type_eq]) (namedChildren_replaced parts)

theorem onlyChild_replaced : node.onlyChild = node'.onlyChild := by
  have same := statements_replaced parts
  rw [onlyChild, onlyChild]
  generalize node.statements = l at same ⊢
  generalize node'.statements = l' at same ⊢
  cases same with
  | nil => rfl
  | cons replaced rest =>
    cases rest with
    | nil => exact replaced.type_eq
    | cons => rfl

theorem singleLevel_replaced : node.singleLevel = node'.singleLevel := by
  have same := statements_replaced parts
  rw [singleLevel, singleLevel]
  generalize node.statements = l at same ⊢
  generalize node'.statements = l' at same ⊢
  cases same with
  | nil => rfl
  | cons replaced rest =>
    cases rest with
    | nil =>
      have level : ∀ child child' : Cst, Replaced child child' →
          decide (strip child.text = "1") = decide (strip child'.text = "1") :=
        fun child child' replaced => decide_eq_decide.mpr replaced.kept.single_iff
      simp only [replaced.type_eq, level _ _ replaced]
    | cons => rfl

end Children

mutual
theorem descendants_types : ∀ node node' : Cst, Replaced node node' → node.type ∉ nestedTypes →
    node.descendants.map type = node'.descendants.map type
  | .node _ children, .node _ children', replaced, outer => by
    rw [descendants, descendants]
    exact descendantsOf_types children children' (replaced.children outer)

theorem descendantsOf_types : ∀ children children' : List Cst, List.Forall₂ Replaced children children' →
    (descendantsOf children).map type = (descendantsOf children').map type
  | [], [], _ => rfl
  | [], _ :: _, parts => nomatch parts
  | _ :: _, [], parts => nomatch parts
  | child :: rest, child' :: rest', parts => by
    obtain ⟨replaced, parts⟩ := forall₂_cons.mp parts
    have kept := replaced.kept
    rw [descendantsOf, descendantsOf, map_append, map_append,
      descendantsOf_types rest rest' parts, ← kept.named_eq, ← kept.type_eq]
    congr 1
    split
    next outer =>
      rw [map_cons, map_cons, descendants_types child child' replaced outer.2,
        replaced.type_eq]
    next => rfl
end

theorem hidesJump_replaced {node node' : Cst} (replaced : Replaced node node')
    (outer : node.type ∉ nestedTypes) : node.hidesJump = node'.hidesJump := by
  have types := congrArg (List.any · fun type => type ∈ hiddenJumps ∨ type ∈ compounds)
    (descendants_types node node' replaced outer)
  rw [any_map, any_map] at types
  exact types

/-- Arms of which the builder reads the same, but for their labels' texts. -/
structure ArmAlike (arm arm' : Arm) : Prop where
  statements : List.Forall₂ Replaced arm.statements arm'.statements
  default_eq : arm.default = arm'.default
  falls_eq : arm.fallsThrough = arm'.fallsThrough

private theorem isDefaultLabel_replaced {label label' : Cst} (replaced : Replaced label label') :
    isDefaultLabel label = isDefaultLabel label' := replaced.kept.default_eq

private theorem any_replaced (same : ∀ child child', Replaced child child' →
    test child = test child') {children children' : List Cst}
    (parts : List.Forall₂ Replaced children children') : children.any test = children'.any test := by
  induction parts with
  | nil => rfl
  | cons replaced _ ih => rw [any_cons, any_cons, same _ _ replaced, ih]

theorem labelledArm_replaced {node node' : Cst}
    (parts : List.Forall₂ Replaced node.children node'.children) (falls : Bool) :
    ArmAlike (labelledArm node falls) (labelledArm node' falls) where
  statements := filter_replaced (fun _ _ kept => by rw [type, type, kept.type_eq])
    (statements_replaced parts)
  default_eq := any_replaced (fun _ _ => isDefaultLabel_replaced)
    (filter_replaced (fun _ _ kept => by rw [type, type, kept.type_eq]) (statements_replaced parts))
  falls_eq := rfl

private theorem matchesAll_replaced {patterns patterns' : List Cst}
    (parts : List.Forall₂ Replaced patterns patterns') : matchesAll patterns = matchesAll patterns' := by
  cases parts with
  | nil => rfl
  | cons replaced rest =>
    cases rest with
    | nil =>
      simp only [matchesAll]
      exact decide_eq_decide.mpr replaced.kept.wildcard_iff
    | cons => simp only [matchesAll]

theorem toList_replaced {child child' : Option Cst} (same : Option.Rel Replaced child child') :
    List.Forall₂ Replaced child.toList child'.toList := by
  cases same with
  | none => exact .nil
  | some replaced => exact .cons replaced .nil

theorem arm_nested {node : Cst} (nested : node.type ∈ nestedTypes) : node.arm = none := by
  have apart : ∀ type ∈ nestedTypes, type ≠ "switch_block_statement_group" ∧ type ≠ "switch_rule" ∧
      type ≠ "case_statement" ∧ type ≠ "switch_case" ∧ type ≠ "default_statement" ∧
      type ≠ "switch_default" ∧ type ≠ "case_clause" := by decide
  obtain ⟨group, rule, case, switch, default, switchDefault, clause⟩ := apart _ nested
  rw [arm, if_neg group, if_neg rule, if_neg (not_or.mpr ⟨case, switch⟩),
    if_neg (not_or.mpr ⟨default, switchDefault⟩), if_neg clause]

theorem arm_replaced {node node' : Cst} (replaced : Replaced node node') :
    Option.Rel ArmAlike node.arm node'.arm := by
  by_cases outer : node.type ∉ nestedTypes
  · have parts := replaced.children outer
    have statements := statements_replaced parts
    rw [arm, arm, ← replaced.type_eq]
    by_cases group : node.type = "switch_block_statement_group"
    · rw [if_pos group, if_pos group]
      exact .some (labelledArm_replaced parts true)
    rw [if_neg group, if_neg group]
    by_cases rule : node.type = "switch_rule"
    · rw [if_pos rule, if_pos rule]
      exact .some (labelledArm_replaced parts false)
    rw [if_neg rule, if_neg rule]
    by_cases case : node.type = "case_statement" ∨ node.type = "switch_case"
    · rw [if_pos case, if_pos case]
      refine .some ⟨?_, rfl, rfl⟩
      by_cases switch : node.type = "switch_case"
      · simpa only [if_pos switch] using childrenByField_replaced parts "body"
      · simpa only [if_neg switch] using forall₂_drop 1 statements
    rw [if_neg case, if_neg case]
    by_cases default : node.type = "default_statement" ∨ node.type = "switch_default"
    · rw [if_pos default, if_pos default]
      refine .some ⟨?_, rfl, rfl⟩
      by_cases switch : node.type = "switch_default"
      · simpa only [if_pos switch] using childrenByField_replaced parts "body"
      · simpa only [if_neg switch] using statements
    rw [if_neg default, if_neg default]
    by_cases clause : node.type = "case_clause"
    · rw [if_pos clause, if_pos clause]
      refine .some ⟨toList_replaced (childByField_replaced parts "consequence"), ?_, rfl⟩
      refine matchesAll_replaced (filter_replaced ?_ (eraseP_replaced ?_ parts))
      · exact fun _ _ kept => by rw [type, type, kept.type_eq, kept.named_eq]
      · exact fun _ _ kept => by rw [kept.field_eq]
    rw [if_neg clause, if_neg clause]
    exact .none
  · have nested := not_not.mp outer
    rw [arm_nested nested, arm_nested (replaced.type_eq ▸ nested)]
    exact .none

end OpenUltraSast.Cfg
