import OpenUltraSast.Library.Outcomes
import OpenUltraSast.Cfg.Builder

/-!
# Exposed bodies

The search for hidden jumps leaves out the declarations below the node that it starts at, but not
that node itself.
-/

namespace OpenUltraSast.Cfg

open TwoRuns List
open Cst hiding node

def exposes (node : Cst) : Bool := decide (node.type ∈ nestedTypes) && node.hidesJump

/-- The search, had it left out a declaration that it starts at. -/
def skipping (node : Cst) : Bool := !decide (node.type ∈ nestedTypes) && node.hidesJump

def alternativeStatement (alternative : Cst) : Option Cst :=
  if alternative.type ∈ ifs then some alternative
  else if alternative.type ∈ elifTypes then consequence alternative
  else if alternative.type = "else_clause" then elseBody alternative
  else some alternative

def alternativeCondition (alternative : Cst) : Option Cst :=
  if alternative.type ∈ ifs then none
  else if alternative.type ∈ elifTypes then alternative.childByField "condition"
  else none

/-- The conditions that the builder searches when it builds a statement. -/
def conditionsOf (node : Cst) : List Cst :=
  match formOf node.type with
  | .conditional => (node.childByField "condition").toList ++
      (node.childrenByField "alternative").flatMap fun alternative =>
        (alternativeCondition alternative).toList
  | .loop | .doLoop => (node.childByField "condition").toList
  | .switch => (subjectOf node).toList
  | _ => []

def armStatements (arm : Cst) : List Cst := (arm.arm.map Arm.statements).getD []

def finallyOf (node : Cst) : Option Cst := node.namedChildren.find? (·.type = "finally_clause")

def tryElse (node : Cst) : Option Cst :=
  (node.namedChildren.find? (·.type = "else_clause")).bind (·.childByField "body")

/-- The statements that the builder goes on to from a statement. -/
def partsOf (node : Cst) : List Cst :=
  match formOf node.type with
  | .block => node.statements
  | .conditional => (consequence node).toList ++
      (node.childrenByField "alternative").flatMap fun alternative =>
        (alternativeStatement alternative).toList
  | .loop => (node.childByField "body").toList ++
      ((node.childByField "alternative").bind (·.childByField "body")).toList
  | .doLoop | .headed => (node.childByField "body").toList
  | .switch => ((node.childByField "body").toList.flatMap statements).flatMap armStatements
  | .guarded => (node.childByField "body").toList ++ (tryElse node).toList ++
      (clausesOf node).flatMap (fun clause => (clauseBody clause).toList) ++
      ((finallyOf node).bind clauseBody).toList
  | .labelled => unlabelled node
  | .skipped | .simple => []

/-- No nested declaration that the builder searches hides a jump. -/
def Quiet : Nat → Cst → Prop
  | 0, _ => True
  | depth + 1, node => (formOf node.type = .simple → exposes (searchedPart node) = false) ∧
      (∀ condition ∈ conditionsOf node, exposes condition = false) ∧
      ∀ part ∈ partsOf node, Quiet depth part

instance decidableQuiet : ∀ depth node, Decidable (Quiet depth node)
  | 0, _ => isTrue trivial
  | depth + 1, node =>
    have := decidableQuiet depth
    inferInstanceAs (Decidable ((formOf node.type = .simple → exposes (searchedPart node) = false) ∧
      (∀ condition ∈ conditionsOf node, exposes condition = false) ∧
      ∀ part ∈ partsOf node, Quiet depth part))

def QuietIn (depth : Nat) (function : Cst) : Prop :=
  ∀ body ∈ (function.childByField "body").toList,
    if body.type ∈ blocks then Quiet depth body else exposes (searchedPart body) = false

instance (depth : Nat) (function : Cst) : Decidable (QuietIn depth function) :=
  inferInstanceAs (Decidable (∀ body ∈ (function.childByField "body").toList,
    if body.type ∈ blocks then Quiet depth body else exposes (searchedPart body) = false))

private theorem skipping_of_not_exposes {node : Cst} (quiet : exposes node = false) :
    skipping node = node.hidesJump := by
  rw [exposes] at quiet
  rw [skipping]
  revert quiet
  cases decide (node.type ∈ nestedTypes) <;> simp

theorem hidesJump_of_exposes {node : Cst} (loud : ¬ exposes node = false) : node.hidesJump = true := by
  rw [Bool.not_eq_false, exposes, Bool.and_eq_true] at loud
  exact loud.2

theorem guarded_search {α : Type} {d : Prop} (condition : Option Cst) {reason : String}
    {k k' : Build α} (rest : Guarded d k k') :
    Guarded ((∀ node ∈ condition.toList, exposes node = false) ∧ d)
      (do if condition.any hidesJump then throw reason
          k)
      (do if condition.any skipping then throw reason
          k') := by
  by_cases quiet : ∀ node ∈ condition.toList, exposes node = false
  · have same : condition.any skipping = condition.any hidesJump := by
      cases condition with
      | none => rfl
      | some node => exact skipping_of_not_exposes (quiet node (by simp))
    rw [same]
    cases condition.any hidesJump with
    | true => exact Guarded.fail
    | false => exact rest.congr (and_iff_right quiet).symm
  · obtain ⟨node, rfl, loud⟩ : ∃ node, condition = some node ∧ ¬ exposes node = false := by
      simpa using quiet
    rw [if_pos (show (some node).any hidesJump = true from hidesJump_of_exposes loud)]
    exact Guarded.throw fun both => quiet both.1

variable {α : Type} {d : Prop}

theorem guarded_before {β : Type} (m : Build α) {k k' : α → Build β} (rest : ∀ a, Guarded d (k a) (k' a)) :
    Guarded d (m >>= k) (m >>= k') :=
  ((Guarded.refl m).bind rest).congr (iff_of_eq (true_and d))

variable {m m' : Build α}

theorem guarded_after {β : Type} (first : Guarded d m m') (k : α → Build β) :
    Guarded d (m >>= k) (m' >>= k) :=
  (first.bind fun a => Guarded.refl (k a)).congr (iff_of_eq (and_true d))

theorem guarded_within (enter leave : Builder → Builder) (part : Guarded d m m') :
    Guarded d (within enter leave m) (within enter leave m') :=
  guarded_before _ fun _ => guarded_after part _

theorem guarded_inFrame (kind : FrameKind) (part : Guarded d m m') :
    Guarded d (inFrame kind m) (inFrame kind m') :=
  guarded_before _ fun _ => guarded_after part _

theorem guarded_branchOn (condition : Option Cst) (fallback : Cst) (preds : List Nat) :
    Guarded (∀ node ∈ condition.toList, exposes node = false)
      (branchOn hidesJump condition fallback preds) (branchOn skipping condition fallback preds) :=
  (guarded_search _ (Guarded.refl _)).congr (iff_of_eq (and_true _))

theorem guarded_simple (node : Cst) (preds : List Nat) :
    Guarded (exposes (searchedPart node) = false)
      (simple hidesJump node preds) (simple skipping node preds) :=
  (guarded_search (some (searchedPart node)) (Guarded.refl _)).congr (by simp)

section Statements

variable {quiet : Cst → Prop} {go go' : Cst → List Nat → Build (List Nat)}
  (each : ∀ node preds, Guarded (quiet node) (go node preds) (go' node preds))
include each

theorem guarded_sequence (nodes : List Cst) (preds : List Nat) :
    Guarded (∀ node ∈ nodes, quiet node) (sequence go nodes preds) (sequence go' nodes preds) :=
  Guarded.foldlM (fun node _ preds => each node preds) preds

theorem guarded_optional (part : Option Cst) (preds : List Nat) :
    Guarded (∀ node ∈ part.toList, quiet node) (optional go part preds) (optional go' part preds) := by
  cases part with
  | none => exact (Guarded.refl _).congr (by simp)
  | some node => exact (each node preds).congr (by simp)

private theorem guarded_alternativeStep (arms : Arms) (alternative : Cst) :
    Guarded ((∀ node ∈ (alternativeCondition alternative).toList, exposes node = false) ∧
        ∀ node ∈ (alternativeStatement alternative).toList, quiet node)
      (alternativeStep hidesJump go arms alternative) (alternativeStep skipping go' arms alternative) := by
  refine guarded_within _ _ ?_
  rw [alternativeCondition, alternativeStatement]
  by_cases first : alternative.type ∈ ifs
  · simp only [if_pos first]
    exact (guarded_after (each alternative _) _).congr (by simp)
  simp only [if_neg first]
  by_cases second : alternative.type ∈ elifTypes
  · simp only [if_pos second]
    refine (guarded_branchOn _ _ _).bind fun branch => guarded_after ?_ _
    exact guarded_within _ _ (guarded_optional each _ _)
  simp only [if_neg second]
  by_cases third : alternative.type = "else_clause"
  · simp only [if_pos third]
    exact (guarded_after (guarded_optional each _ _) _).congr (by simp)
  simp only [if_neg third]
  exact (guarded_after (each alternative _) _).congr (by simp)

private theorem guarded_conditional (node : Cst) (preds : List Nat) :
    Guarded ((∀ condition ∈ (node.childByField "condition").toList, exposes condition = false) ∧
        (∀ part ∈ (consequence node).toList, quiet part) ∧
        ∀ alternative ∈ node.childrenByField "alternative",
          (∀ condition ∈ (alternativeCondition alternative).toList, exposes condition = false) ∧
            ∀ part ∈ (alternativeStatement alternative).toList, quiet part)
      (conditional hidesJump go node preds) (conditional skipping go' node preds) := by
  refine (guarded_branchOn _ _ _).bind fun branch => ?_
  refine (guarded_within _ _ (guarded_optional each _ _)).bind fun outs => ?_
  exact guarded_after (Guarded.foldlM (fun alternative _ arms => guarded_alternativeStep each arms _) _) _

private theorem guarded_loop (node : Cst) (preds : List Nat) :
    Guarded ((∀ condition ∈ (node.childByField "condition").toList, exposes condition = false) ∧
        (∀ part ∈ (node.childByField "body").toList, quiet part) ∧
        ∀ part ∈ ((node.childByField "alternative").bind (·.childByField "body")).toList, quiet part)
      (loop hidesJump go node preds) (loop skipping go' node preds) := by
  rw [loop, loop]
  cases node.childByField "body" with
  | none => exact Guarded.fail
  | some body =>
    refine guarded_search _ (guarded_before _ fun header => guarded_before _ fun _ => ?_)
    refine ((guarded_inFrame .loop (guarded_within _ _ (guarded_within _ _ (each body _)))).congr (by simp)).bind fun frame => ?_
    exact guarded_before _ fun _ => guarded_after (guarded_optional each _ _) _

private theorem guarded_doLoop (node : Cst) (preds : List Nat) :
    Guarded ((∀ condition ∈ (node.childByField "condition").toList, exposes condition = false) ∧
        ∀ part ∈ (node.childByField "body").toList, quiet part)
      (doLoop hidesJump go node preds) (doLoop skipping go' node preds) := by
  rw [doLoop, doLoop]
  cases node.childByField "body" with
  | none => exact Guarded.fail
  | some body =>
    cases node.childByField "condition" with
    | none => exact Guarded.fail
    | some condition =>
      refine guarded_before _ fun first => ?_
      refine ((guarded_inFrame .loop (guarded_within _ _ (each body _))).bind fun frame =>
        guarded_after (guarded_branchOn _ _ _) _).congr ?_
      simp [and_comm]

private theorem guarded_caseStep (branch : Nat) (subject : String) (cases_ : Cases) (arm : Cst) :
    Guarded (∀ part ∈ armStatements arm, quiet part)
      (caseStep go branch subject cases_ arm) (caseStep go' branch subject cases_ arm) := by
  rw [caseStep, caseStep, armStatements]
  cases arm.arm with
  | none => exact Guarded.fail
  | some arm =>
    refine guarded_before _ fun case => guarded_before _ fun _ => ?_
    by_cases falls : arm.fallsThrough = true
    · simp only [if_pos falls]
      exact guarded_after (guarded_within _ _ (guarded_sequence each _ _)) _
    · simp only [if_neg falls]
      exact guarded_after (guarded_within _ _ (guarded_sequence each _ _)) _

private theorem guarded_switch (node : Cst) (preds : List Nat) :
    Guarded ((∀ condition ∈ (subjectOf node).toList, exposes condition = false) ∧
        ∀ body ∈ (node.childByField "body").toList, ∀ arm ∈ body.statements,
          ∀ part ∈ armStatements arm, quiet part)
      (switch hidesJump go node preds) (switch skipping go' node preds) := by
  rw [switch, switch]
  cases node.childByField "body" with
  | none => exact Guarded.fail
  | some body =>
    refine (guarded_branchOn _ _ _).bind fun branch => guarded_after ?_ _
    refine (guarded_inFrame .switch (Guarded.foldlM (fun arm _ cases_ =>
      guarded_caseStep each _ _ cases_ arm) _)).congr (by simp)

theorem guarded_tryBody (node body : Cst) (start : Nat) (targets : List Nat) (types : List String) :
    Guarded (quiet body) (tryBody go node body start targets types)
      (tryBody go' node body start targets types) :=
  guarded_within _ _ (guarded_within _ _ (guarded_before _ fun out => each body out))

private theorem guarded_clauseBodies {clauses : List Cst} {entries : List Nat}
    (length : entries.length = clauses.length) (outs : List Nat) :
    Guarded (∀ clause ∈ clauses, ∀ part ∈ (clauseBody clause).toList, quiet part)
      (clauseBodies go (clauses.zip entries) outs) (clauseBodies go' (clauses.zip entries) outs) := by
  refine guarded_within _ _ ?_
  refine (Guarded.foldlM (fun clause _ outs =>
    guarded_after (guarded_optional each (clauseBody clause.1) _) _) outs).congr ?_
  rw [← forall_mem_map (f := Prod.fst) (P := fun clause => ∀ part ∈ (clauseBody clause).toList, quiet part),
    map_fst_zip length.ge]

private theorem guarded_finallyPart {final : Option Cst} {entry : Option Nat}
    (entered : entry.isSome = final.isSome) (normal : List Nat) :
    Guarded (∀ part ∈ (final.bind clauseBody).toList, quiet part)
      (finallyPart go final entry normal) (finallyPart go' final entry normal) := by
  cases final with
  | none => exact (Guarded.refl _).congr (by simp)
  | some final =>
    obtain ⟨entry, rfl⟩ := Option.isSome_iff_exists.mp entered
    exact guarded_before _ fun _ => guarded_after (guarded_optional each _ _) _

private theorem guarded_guarded (node : Cst) (preds : List Nat) :
    Guarded ((∀ body ∈ (node.childByField "body").toList, quiet body) ∧
        (∀ part ∈ (tryElse node).toList, quiet part) ∧
        (∀ clause ∈ clausesOf node, ∀ part ∈ (clauseBody clause).toList, quiet part) ∧
        ∀ part ∈ ((finallyOf node).bind clauseBody).toList, quiet part)
      (guarded go node preds) (guarded go' node preds) := by
  rw [guarded, guarded]
  cases node.childByField "body" with
  | none => exact Guarded.fail
  | some body =>
    refine guarded_before _ fun start => guarded_before _ fun _ => ?_
    refine Guarded.after_returns (returns_mapM _ _) fun entries length => ?_
    refine Guarded.after_returns (returns_option_mapM _ _) fun finalEntry entered => ?_
    refine guarded_before _ fun _ => ?_
    refine ((guarded_tryBody each node body _ _ _).congr (by simp)).bind fun out => ?_
    refine (guarded_optional each _ _).bind fun out => ?_
    refine (guarded_within _ _ (guarded_clauseBodies each length _)).bind fun normal => ?_
    exact guarded_finallyPart each entered normal

private theorem guarded_withHeader (node : Cst) (preds : List Nat) :
    Guarded (∀ part ∈ (node.childByField "body").toList, quiet part)
      (withHeader go node preds) (withHeader go' node preds) := by
  rw [withHeader, withHeader]
  cases node.childByField "body" with
  | none => exact Guarded.fail
  | some body =>
    exact (guarded_before _ fun header => guarded_before _ fun _ => each body _).congr (by simp)

private theorem guarded_dispatch (node : Cst) (preds : List Nat) :
    Guarded ((formOf node.type = .simple → exposes (searchedPart node) = false) ∧
        (∀ condition ∈ conditionsOf node, exposes condition = false) ∧ ∀ part ∈ partsOf node, quiet part)
      (dispatch hidesJump go node preds) (dispatch skipping go' node preds) := by
  rw [dispatch, dispatch, conditionsOf, partsOf]
  cases formOf node.type with
  | skipped => exact (Guarded.refl _).congr (by simp)
  | block => exact (guarded_sequence each _ _).congr (by simp)
  | conditional =>
    refine (guarded_conditional each node preds).congr ?_
    simp only [forall_mem_append, forall_mem_flatMap, reduceCtorEq, false_imp_iff, true_and]
    constructor
    · exact fun ⟨first, second, rest⟩ => ⟨⟨first, fun a member => (rest a member).1⟩,
        second, fun a member => (rest a member).2⟩
    · exact fun ⟨⟨first, conditions⟩, second, parts⟩ => ⟨first, second,
        fun a member => ⟨conditions a member, parts a member⟩⟩
  | loop =>
    refine (guarded_loop each node preds).congr ?_
    simp only [forall_mem_append, reduceCtorEq, false_imp_iff, true_and]
  | doLoop => exact (guarded_doLoop each node preds).congr (by simp)
  | switch =>
    refine (guarded_switch each node preds).congr ?_
    simp only [forall_mem_flatMap, reduceCtorEq, false_imp_iff, true_and]
  | guarded =>
    refine (guarded_guarded each node preds).congr ?_
    simp only [forall_mem_append, forall_mem_flatMap, not_mem_nil, reduceCtorEq,
      false_imp_iff, implies_true, true_and, and_assoc]
  | headed => exact (guarded_withHeader each node preds).congr (by simp)
  | labelled => exact (guarded_sequence each _ _).congr (by simp)
  | simple => exact (guarded_simple node preds).congr (by simp)

end Statements

private theorem guarded_statement (depth : Nat) : ∀ node preds,
    Guarded (Quiet depth node) (statement hidesJump depth node preds)
      (statement skipping depth node preds) := by
  induction depth with
  | zero => exact fun _ _ => Guarded.fail
  | succ depth ih => exact fun node preds => guarded_dispatch ih node preds

theorem guarded_build (depth : Nat) (function : Cst) :
    Guarded (QuietIn depth function) (build hidesJump depth function)
      (build skipping depth function) := by
  rw [build, build, QuietIn]
  cases function.childByField "body" with
  | none => exact (Guarded.refl _).congr (by simp)
  | some body =>
    by_cases block : body.type ∈ blocks
    · simp only [if_pos block]
      exact (guarded_after (guarded_statement depth body _) _).congr (by simp [block])
    · simp only [if_neg block]
      exact (guarded_after (guarded_simple body _) _).congr (by simp [block])

end OpenUltraSast.Cfg
