import OpenUltraSast.Cfg.SideBySide

/-!
# The graph around nested bodies

When other bodies in the declarations nested in a function leave its graph as it is: the search finds
jumps in the declarations that stand as statements or conditions of both or of neither, and the text
that a call begins with is read alike.
-/

namespace OpenUltraSast.Cfg

open TwoRuns
open Cst hiding node

def ExitsAgree : Nat → Cst → Cst → Prop
  | 0, _, _ => True
  | depth + 1, node, node' => (formOf node.type = .simple → node.isExitCall = node'.isExitCall) ∧
      List.Forall₂ (ExitsAgree depth) (partsOf node) (partsOf node')

instance decidableExitsAgree : ∀ depth node node', Decidable (ExitsAgree depth node node')
  | 0, _, _ => isTrue trivial
  | depth + 1, node, node' =>
    have := decidableExitsAgree depth
    inferInstanceAs (Decidable ((formOf node.type = .simple → node.isExitCall = node'.isExitCall) ∧
      List.Forall₂ (ExitsAgree depth) (partsOf node) (partsOf node')))

def ExitsAgreeIn (depth : Nat) (function function' : Cst) : Prop :=
  List.Forall₂ (fun body body' =>
      if body.type ∈ blocks then ExitsAgree depth body body' else body.isExitCall = body'.isExitCall)
    (function.childByField "body").toList (function'.childByField "body").toList

instance (depth : Nat) (function function' : Cst) : Decidable (ExitsAgreeIn depth function function') :=
  inferInstanceAs (Decidable (List.Forall₂ (fun body body' =>
      if body.type ∈ blocks then ExitsAgree depth body body' else body.isExitCall = body'.isExitCall)
    (function.childByField "body").toList (function'.childByField "body").toList))

/-- Whether everything around the nested declarations is modelled: a builder that skips them has a graph
for the function. -/
def ModelledAround (depth : Nat) (function : Cst) : Prop :=
  ∃ out, (build skipping depth function).run (Builder.start function.line function.endLine) = .ok out

structure SameGraph (cfg cfg' : FunctionCfg) : Prop where
  available : cfg.available = cfg'.available
  nodes : cfg.nodes.map CfgNode.shape = cfg'.nodes.map CfgNode.shape
  normal : cfg.normal = cfg'.normal
  exceptional : cfg.exceptional = cfg'.exceptional

theorem steps_statement (depth : Nat) : ∀ b node node' preds preds', Replaced node node' →
    Agree b preds preds' →
    Steps b (b ∧ ExitsAgree depth node node') (Agree (b ∧ ExitsAgree depth node node'))
      (statement skipping depth node preds) (statement skipping depth node' preds') := by
  induction depth with
  | zero => exact fun _ _ _ _ _ _ _ => Paired.throw
  | succ depth ih => exact fun _ _ _ _ _ replaced agree => steps_dispatch ih replaced agree

variable {function function' : Cst}

private theorem steps_build {b : Prop} (depth : Nat)
    (replaced : ReplacedIn function function') :
    Steps b (b ∧ ExitsAgreeIn depth function function') (fun _ _ => True)
      (build skipping depth function) (build skipping depth function') := by
  rw [build, build, ExitsAgreeIn]
  have bodies := childByField_replaced replaced.2 "body"
  generalize function.childByField "body" = body at bodies ⊢
  generalize function'.childByField "body" = body' at bodies ⊢
  cases bodies with
  | none =>
    simp only [Option.toList_none, List.forall₂_nil_left_iff, and_true]
    exact steps_link (fun _ => rfl) fun _ => rfl
  | @some body body' same =>
    simp only [Option.toList_some, List.forall₂_cons, List.forall₂_nil_left_iff, and_true,
      ← same.type_eq]
    have entry : Agree b [FunctionCfg.entryIndex] [FunctionCfg.entryIndex] := fun _ => rfl
    by_cases block : body.type ∈ blocks
    · simp only [if_pos block]
      exact (steps_statement depth b body body' _ _ same entry).bind fun _ _ outs =>
        steps_link outs fun _ => rfl
    · simp only [if_neg block]
      exact (steps_simple same entry).bind fun _ _ outs => steps_link outs fun _ => rfl

private theorem inStep_start (line line' endLine endLine' : Nat) :
    InStep True (Builder.start line endLine) (Builder.start line' endLine') :=
  { count := rfl
    frames := rfl
    same := fun _ => ⟨rfl, rfl, rfl, rfl, rfl, rfl, rfl, rfl, rfl, rfl⟩
    apart := fun no => (no trivial).elim }

variable {depth : Nat}

theorem fromCst_of_error {function : Cst} {language reason : String}
    (known : language ∈ languages)
    (failed : (build hidesJump depth function).run (Builder.start function.line function.endLine) =
      .error reason) :
    fromCst depth function language =
      { startLine := function.line, endLine := function.endLine, available := false
        reason := some reason } := by
  rw [fromCst, if_neg (not_not.mpr known), failed]

variable {language : String}

theorem fromCst_of_ok {function : Cst} {s : Builder}
    (known : language ∈ languages)
    (built : (build hidesJump depth function).run (Builder.start function.line function.endLine) =
      .ok ((), s)) :
    (fromCst depth function language).available = true ∧
      (fromCst depth function language).nodes = s.nodes ∧
      (fromCst depth function language).normal = s.normal ∧
      (fromCst depth function language).exceptional = s.exceptional := by
  rw [fromCst, if_neg (not_not.mpr known), built]
  exact ⟨rfl, rfl, rfl, rfl⟩

private theorem sameGraph_of_built {s s' : Builder} (known : language ∈ languages)
    (built : (build hidesJump depth function).run (Builder.start function.line function.endLine) =
      .ok ((), s))
    (built' : (build hidesJump depth function').run (Builder.start function'.line function'.endLine) =
      .ok ((), s')) {b : Prop} (inStep : InStep b s s') :
    SameGraph (fromCst depth function language) (fromCst depth function' language) ↔ b := by
  obtain ⟨available, nodes, normal, exceptional⟩ := fromCst_of_ok known built
  obtain ⟨available', nodes', normal', exceptional'⟩ := fromCst_of_ok known built'
  constructor
  · intro same
    by_contra no
    have shapes := same.nodes
    rw [nodes, nodes'] at shapes
    have kinds := congrArg (List.map NodeShape.kind) shapes
    rw [List.map_map, List.map_map] at kinds
    exact inStep.apart no kinds
  · intro held
    have same := inStep.same held
    exact ⟨available.trans available'.symm, by rw [nodes, nodes', same.nodes],
      by rw [normal, normal', same.normal], by rw [exceptional, exceptional', same.exceptional]⟩

/-- Other bodies in nested declarations leave the graph around them as it is exactly when, where all else
is modelled, both versions hide a jump in a body that is searched or neither does, and where neither
does, the same statements are read as calls that end the process. -/
theorem sameGraph_iff {function function' : Cst} (replaced : ReplacedIn function function') (depth : Nat)
    (language : String) :
    SameGraph (fromCst depth function language) (fromCst depth function' language) ↔
      (language ∈ languages → ModelledAround depth function →
        (QuietIn depth function ↔ QuietIn depth function') ∧
          (QuietIn depth function → ExitsAgreeIn depth function function')) := by
  by_cases known : language ∈ languages
  swap
  · have same : SameGraph (fromCst depth function language) (fromCst depth function' language) := by
      rw [fromCst, fromCst, if_pos known, if_pos known]
      exact ⟨rfl, rfl, rfl, rfl⟩
    exact iff_of_true same fun held => (known held).elim
  have ends := steps_build depth replaced _ _
    (inStep_start function.line function'.line function.endLine function'.endLine)
  have one := guarded_build depth function (Builder.start function.line function.endLine)
  have two := guarded_build depth function' (Builder.start function'.line function'.endLine)
  rw [true_and] at ends
  rw [ModelledAround]
  generalize (build skipping depth function).run (Builder.start function.line function.endLine) = run
    at ends one ⊢
  generalize (build skipping depth function').run (Builder.start function'.line function'.endLine) = run'
    at ends two ⊢
  -- two functions without a graph have one shape
  have neither : ∀ {e e' : String},
      (build hidesJump depth function).run (Builder.start function.line function.endLine) = .error e →
      (build hidesJump depth function').run (Builder.start function'.line function'.endLine) = .error e' →
      SameGraph (fromCst depth function language) (fromCst depth function' language) := by
    intro e e' failed failed'
    rw [fromCst_of_error known failed, fromCst_of_error known failed']
    exact ⟨rfl, rfl, rfl, rfl⟩
  cases ends with
  | failed =>
    obtain ⟨e, failed⟩ := one.1 _ rfl
    obtain ⟨e', failed'⟩ := two.1 _ rfl
    refine iff_of_true (neither failed failed') fun _ modelled => ?_
    obtain ⟨out, ended⟩ := modelled
    cases ended
  | @ended _ _ s s' _ inStep =>
    obtain ⟨builds, fails⟩ := one.2 _ rfl
    obtain ⟨builds', fails'⟩ := two.2 _ rfl
    have modelled : ∃ out, (Except.ok ((), s) : Except String (Unit × Builder)) = .ok out := ⟨_, rfl⟩
    simp only [known, true_imp_iff, modelled]
    by_cases quiet : QuietIn depth function
    · by_cases quiet' : QuietIn depth function'
      · rw [sameGraph_of_built known (builds quiet) (builds' quiet') inStep]
        simp [quiet, quiet']
      · obtain ⟨e, failed⟩ := fails' quiet'
        refine iff_of_false (fun same => ?_) fun both => quiet' (both.1.mp quiet)
        have available := same.available
        rw [(fromCst_of_ok known (builds quiet)).1, fromCst_of_error known failed] at available
        cases available
    · by_cases quiet' : QuietIn depth function'
      · obtain ⟨e, failed⟩ := fails quiet
        refine iff_of_false (fun same => ?_) fun both => quiet (both.1.mpr quiet')
        have available := same.available
        rw [(fromCst_of_ok known (builds' quiet')).1, fromCst_of_error known failed] at available
        cases available
      · obtain ⟨e, failed⟩ := fails quiet
        obtain ⟨e', failed'⟩ := fails' quiet'
        exact iff_of_true (neither failed failed')
          ⟨iff_of_false quiet quiet', fun held => (quiet held).elim⟩

def nodeAt (type field text : String) (startRow endRow startByte : Nat) (children : List Cst) : Cst :=
  .node { type, field, named := true, text, startRow, endRow, startByte } children

def innerReturn : Cst :=
  nodeAt "return_statement" "" "return 1" 2 2 37 [nodeAt "integer" "" "1" 2 2 44 []]

def innerPass : Cst := nodeAt "pass_statement" "" "pass" 2 2 37 []

def innerLog : Cst :=
  nodeAt "expression_statement" "" "log()" 2 2 37
    [nodeAt "call" "" "log()" 2 2 37
      [nodeAt "identifier" "function" "log" 2 2 37 [], nodeAt "argument_list" "arguments" "()" 2 2 40 []]]

/-- `def inner():` with one statement. -/
def inner (statement : Cst) : Cst :=
  nodeAt "function_definition" "" ("def inner():\n        " ++ statement.text) 1 2 16
    [nodeAt "identifier" "name" "inner" 1 1 20 [], nodeAt "parameters" "parameters" "()" 1 1 25 [],
      nodeAt "block" "body" statement.text 2 2 37 [statement]]

/-- `def view():` with `inner` and `return 2`. -/
def view (statement : Cst) : Cst :=
  let start := 42 + statement.text.length
  let body := (inner statement).text ++ "\n    return 2"
  nodeAt "function_definition" "" ("def view():\n    " ++ body) 0 3 0
    [nodeAt "identifier" "name" "view" 0 0 4 [], nodeAt "parameters" "parameters" "()" 0 0 8 [],
      nodeAt "block" "body" body 1 3 16
        [inner statement,
          nodeAt "return_statement" "" "return 2" 3 3 start
            [nodeAt "integer" "" "2" 3 3 (start + 7) []]]]

theorem replaced_leaf {l l' : Label} (kept : Label.Kept l l') (outer : l.type ∉ nestedTypes)
    (text : l.text = l'.text) : Replaced (.node l []) (.node l' []) :=
  .around kept outer .nil (fun _ member => (List.not_mem_nil member).elim) fun _ => text

theorem replacedIn_view {one other : Cst} (whole : Label.Kept (view one).label (view other).label)
    (body : ∀ block ∈ (view one).childByField "body", ∀ block' ∈ (view other).childByField "body",
      Label.Kept block.label block'.label)
    (nested : Label.Kept (inner one).label (inner other).label) :
    ReplacedIn (view one) (view other) := by
  have moved : ∀ {l l' : Label}, l.type = l'.type → l.field = l'.field → l.named = l'.named →
      l.text = l'.text → Label.Kept l l' := fun type field named text =>
    ⟨type, field, named, by rw [text], by rw [text], by rw [text]⟩
  have types : "integer" ∉ nestedTypes ∧ "block" ∉ nestedTypes ∧ "return_statement" ∉ nestedTypes ∧
      "function_definition" ∈ nestedTypes := by decide
  obtain ⟨integer, block, return_, definition⟩ := types
  have number : Replaced (nodeAt "integer" "" "2" 3 3 (42 + one.text.length + 7) [])
      (nodeAt "integer" "" "2" 3 3 (42 + other.text.length + 7) []) :=
    replaced_leaf (moved rfl rfl rfl rfl) integer rfl
  refine ⟨whole, .cons ?_ (.cons ?_ (.cons ?_ .nil))⟩
  · exact replaced_leaf (moved rfl rfl rfl rfl) (by decide) rfl
  · exact replaced_leaf (moved rfl rfl rfl rfl) (by decide) rfl
  · refine .around (body _ rfl _ rfl) block (.cons (.nested nested definition) (.cons ?_ .nil)) ?_ ?_
    · refine .around (moved rfl rfl rfl rfl) return_ (.cons number .nil) ?_ fun _ => rfl
      exact fun child _ _ => by simp [isPart, switches, whiles, fors, tries]
    · exact fun child _ _ => by simp [isPart, switches, whiles, fors, tries]
    · exact fun none_ => by cases none_

/-- A nested function that logs and one that passes hide no jump. -/
theorem innerLog_sameGraph : ReplacedIn (view innerPass) (view innerLog) ∧
    SameGraph (fromCst 9 (view innerPass) "python") (fromCst 9 (view innerLog) "python") := by
  have replaced : ReplacedIn (view innerPass) (view innerLog) :=
    replacedIn_view ⟨rfl, rfl, rfl, by decide +kernel, by decide +kernel, by decide +kernel⟩
      (by rintro _ ⟨⟩ _ ⟨⟩; exact ⟨rfl, rfl, rfl, by decide +kernel, by decide +kernel, by decide +kernel⟩)
      ⟨rfl, rfl, rfl, by decide +kernel, by decide +kernel, by decide +kernel⟩
  exact ⟨replaced, (sameGraph_iff replaced 9 "python").mpr fun _ _ =>
    ⟨by decide +kernel, fun _ => by decide +kernel⟩⟩

/-- A nested function that returns is a statement that hides a jump, and one that passes is not. -/
theorem innerReturn_noGraph : ReplacedIn (view innerReturn) (view innerPass) ∧
    ¬ SameGraph (fromCst 9 (view innerReturn) "python") (fromCst 9 (view innerPass) "python") := by
  refine ⟨replacedIn_view ⟨rfl, rfl, rfl, by decide +kernel, by decide +kernel, by decide +kernel⟩
      (by rintro _ ⟨⟩ _ ⟨⟩; exact ⟨rfl, rfl, rfl, by decide +kernel, by decide +kernel, by decide +kernel⟩)
      ⟨rfl, rfl, rfl, by decide +kernel, by decide +kernel, by decide +kernel⟩, fun same => ?_⟩
  have available := same.available
  revert available
  decide +kernel

end OpenUltraSast.Cfg
