import OpenUltraSast.Cfg.ExposedBodies
import OpenUltraSast.Cfg.NestedBodies

/-!
# Two graphs side by side

A builder that skips nested declarations builds the graphs of a function and of the function with other
bodies in them in step: the two are of one shape as long as the texts of calls are read alike.
-/

namespace OpenUltraSast.Cfg

open TwoRuns List Option
open Cst hiding node

structure NodeShape where
  kind : NodeKind
  located : Bool
  conditions : Nat
  inLoop : Bool
  inTry : Bool
  catches : Nat
  onExceptionPath : Bool
deriving DecidableEq

def CfgNode.shape (node : CfgNode) : NodeShape where
  kind := node.kind
  located := node.located
  conditions := node.context.conditions.length
  inLoop := node.context.inLoop
  inTry := node.context.inTry
  catches := node.context.catches.length
  onExceptionPath := node.context.onExceptionPath

/-! ### States in step -/

/-- States that differ in places and texts only. -/
structure Same (s s' : Builder) : Prop where
  nodes : s.nodes.map CfgNode.shape = s'.nodes.map CfgNode.shape
  normal : s.normal = s'.normal
  exceptional : s.exceptional = s'.exceptional
  frames : s.frames = s'.frames
  handlers : s.handlers = s'.handlers
  conditions : s.conditions.length = s'.conditions.length
  loops : s.loops = s'.loops
  catches : s.catches.length = s'.catches.length
  tries : s.tries = s'.tries
  exceptionPaths : s.exceptionPaths = s'.exceptionPaths

/-- States of two runs in step: the same as long as `b` holds, and with a node of another kind from
then on. -/
structure InStep (b : Prop) (s s' : Builder) : Prop where
  count : s.nodes.length = s'.nodes.length
  frames : s.frames.map Frame.kind = s'.frames.map Frame.kind
  same : b → Same s s'
  apart : ¬ b → s.nodes.map CfgNode.kind ≠ s'.nodes.map CfgNode.kind

/-- Predecessors that agree as long as `b` holds. -/
def Agree {α : Type} (b : Prop) (a a' : α) : Prop := b → a = a'

theorem Agree.and {α : Type} {b c : Prop} {a a' : α} (agree : Agree b a a') : Agree (b ∧ c) a a' :=
  fun held => agree held.1

namespace InStep

variable {b c : Prop} {s s' t t' : Builder}

theorem update (inStep : InStep b s s') (nodes : t.nodes = s.nodes) (nodes' : t'.nodes = s'.nodes)
    (frames : t.frames.map Frame.kind = s.frames.map Frame.kind)
    (frames' : t'.frames.map Frame.kind = s'.frames.map Frame.kind)
    (same : b → Same s s' → Same t t') : InStep b t t' where
  count := by rw [nodes, nodes', inStep.count]
  frames := by rw [frames, frames', inStep.frames]
  same := fun held => same held (inStep.same held)
  apart := by rw [nodes, nodes']; exact inStep.apart

theorem added (inStep : InStep b s s') (kind kind' : NodeKind) (line line' endLine endLine' : Nat)
    (startByte startByte' : Int) (text text' : String) (located : Bool) :
    InStep (b ∧ kind = kind') (s.added kind line endLine startByte text located)
      (s'.added kind' line' endLine' startByte' text' located) where
  count := by simp [Builder.added, inStep.count]
  frames := inStep.frames
  same := by
    rintro ⟨held, rfl⟩
    have same := inStep.same held
    have handled : s.handled = s'.handled := by
      funext index
      rw [Builder.handled, Builder.handled, same.handlers]
    refine { same with nodes := ?_, exceptional := ?_ }
    · simp [Builder.added, same.nodes, CfgNode.shape, Builder.context, same.conditions, same.loops,
        same.catches, same.tries, same.exceptionPaths]
    · simp only [Builder.added, handled, same.exceptional, inStep.count]
  apart := by
    intro no kinds
    simp only [Builder.added, map_append, map_cons, map_nil] at kinds
    obtain ⟨before, last⟩ := append_inj' kinds rfl
    by_cases held : b
    · exact no ⟨held, (List.cons.inj last).1⟩
    · exact inStep.apart held before

end InStep

/-! ### Steps of the builder -/

/-- Runs that go on in step, from `b` to `c`. -/
abbrev Steps {α α' : Type} (b c : Prop) (R : α → α' → Prop) (m : Build α) (m' : Build α') : Prop :=
  Paired (InStep b) R (InStep c) m m'

section Steps

variable {α : Type} {b c : Prop} {R : α → α → Prop}

theorem steps_new (kind kind' : NodeKind) (line line' endLine endLine' startByte startByte' : Nat)
    (text text' : String) (located : Bool) :
    Steps b (b ∧ kind = kind') Eq (new kind line endLine startByte text located)
      (new kind' line' endLine' startByte' text' located) :=
  Paired.modifyGet fun _ _ inStep => ⟨inStep.count, inStep.added _ _ _ _ _ _ _ _ _ _ _⟩

theorem steps_new_same (kind : NodeKind) (line line' endLine endLine' startByte startByte' : Nat)
    (text text' : String) (located : Bool) :
    Steps b b Eq (new kind line endLine startByte text located)
      (new kind line' endLine' startByte' text' located) := by
  have step := steps_new (b := b) kind kind line line' endLine endLine' startByte startByte' text text'
    located
  rwa [eq_self, and_true] at step

theorem steps_modify {f f' : Builder → Builder}
    (keeps : ∀ s s', InStep b s s' → InStep b (f s) (f' s')) :
    Steps b b (fun _ _ => True) (modify f) (modify f') :=
  Paired.modifyGet fun s s' inStep => ⟨trivial, keeps s s' inStep⟩

variable {preds : List Nat} {m m' : Build α}

theorem steps_link {preds' : List Nat} (agree : Agree b preds preds') {target target' : Nat}
    (same : Agree b target target') :
    Steps b b (fun _ _ => True) (link preds target) (link preds' target') :=
  steps_modify fun s s' inStep => inStep.update rfl rfl rfl rfl fun held alike =>
    { alike with normal := by rw [alike.normal, agree held, same held] }

private theorem steps_throwTo (node : Nat) (targets : List Nat) :
    Steps b b (fun _ _ => True) (throwTo node targets) (throwTo node targets) :=
  steps_modify fun s s' inStep => inStep.update rfl rfl rfl rfl fun _ alike =>
    { alike with exceptional := by rw [alike.exceptional] }

/-- Once the runs are apart, an edge more of either changes nothing. -/
theorem steps_apart_left {target : Nat} {a a' : List Nat} :
    Steps False False (Agree False) (do link preds target; return a) (return a') :=
  fun _ _ inStep => .ended (fun no => no.elim)
    ⟨inStep.count, inStep.frames, fun no => no.elim, inStep.apart⟩

private theorem steps_apart_right {target : Nat} {a a' : List Nat} :
    Steps False False (Agree False) (return a) (do link preds target; return a') :=
  fun _ _ inStep => .ended (fun no => no.elim)
    ⟨inStep.count, inStep.frames, fun no => no.elim, inStep.apart⟩

theorem steps_nodeFor (kind kind' : NodeKind) (syn syn' : Cst) {preds' : List Nat}
    (agree : Agree b preds preds') (text text' : String) :
    Steps b (b ∧ kind = kind') Eq (nodeFor kind syn preds text) (nodeFor kind' syn' preds' text') := by
  refine (steps_new kind kind' _ _ _ _ _ _ text text' true).bind fun index index' same => ?_
  refine (steps_link agree.and fun _ => same).bind fun _ _ _ => Paired.pure same

theorem steps_nodeFor_same (kind : NodeKind) (syn syn' : Cst) {preds' : List Nat}
    (agree : Agree b preds preds') (text text' : String) :
    Steps b b Eq (nodeFor kind syn preds text) (nodeFor kind syn' preds' text') := by
  have step := steps_nodeFor kind kind syn syn' agree text text'
  rwa [eq_self, and_true] at step

theorem steps_exitUnhandled {index index' : Nat} (same : Agree b index index') :
    Steps b b (fun _ _ => True) (exitUnhandled index) (exitUnhandled index') := by
  refine steps_modify fun s s' inStep => inStep.update ?_ ?_ ?_ ?_ fun held alike => ?_
  · split <;> rfl
  · split <;> rfl
  · split <;> rfl
  · split <;> rfl
  · have unhandled : s.handlers.isEmpty = s'.handlers.isEmpty := by rw [alike.handlers]
    rw [unhandled, same held]
    split
    · exact { alike with normal := by rw [alike.normal] }
    · exact alike

theorem steps_within {enter enter' leave leave' : Builder → Builder}
    (enters : ∀ s s', InStep b s s' → InStep b (enter s) (enter' s'))
    (leaves : ∀ s s', InStep c s s' → InStep c (leave s) (leave' s')) (part : Steps b c R m m') :
    Steps b c R (within enter leave m) (within enter' leave' m') :=
  (steps_modify enters).bind fun _ _ _ => part.bind fun _ _ result =>
    (steps_modify leaves).bind fun _ _ _ => Paired.pure result

theorem steps_underConditions {texts texts' : List String} (lengths : texts.length = texts'.length)
    (part : Steps b c R m m') : Steps b c R (underConditions texts m) (underConditions texts' m') := by
  refine steps_within (fun s s' inStep => ?_) (fun s s' inStep => ?_) part
  · refine inStep.update rfl rfl rfl rfl fun _ alike => { alike with conditions := ?_ }
    rw [length_append, length_append, alike.conditions, lengths]
  · refine inStep.update rfl rfl rfl rfl fun _ alike => { alike with conditions := ?_ }
    rw [length_take, length_take, alike.conditions, lengths]

theorem steps_underCondition {text text' : String} (part : Steps b c R m m') :
    Steps b c R (underConditions [text] m) (underConditions [text'] m') :=
  steps_underConditions (by rfl) part

theorem steps_underHandlers {targets targets' : List (List Nat)} (same : Agree b targets targets')
    (lengths : targets.length = targets'.length) (part : Steps b c R m m') :
    Steps b c R (underHandlers targets m) (underHandlers targets' m') := by
  refine steps_within (fun s s' inStep => ?_) (fun s s' inStep => ?_) part
  · refine inStep.update rfl rfl rfl rfl fun held alike => { alike with handlers := ?_ }
    rw [alike.handlers, same held]
  · refine inStep.update rfl rfl rfl rfl fun _ alike => { alike with handlers := ?_ }
    rw [alike.handlers, lengths]

private theorem steps_inTry {types types' : List String} (lengths : types.length = types'.length)
    (part : Steps b c R m m') : Steps b c R (inTry types m) (inTry types' m') := by
  refine steps_within (fun s s' inStep => ?_) (fun s s' inStep => ?_) part
  · refine inStep.update rfl rfl rfl rfl fun _ alike =>
      { alike with tries := by rw [alike.tries], catches := ?_ }
    rw [length_append, length_append, alike.catches, lengths]
  · refine inStep.update rfl rfl rfl rfl fun _ alike =>
      { alike with tries := by rw [alike.tries], catches := ?_ }
    rw [length_take, length_take, alike.catches, lengths]

private theorem steps_onExceptionPath (part : Steps b c R m m') :
    Steps b c R (onExceptionPath m) (onExceptionPath m') := by
  refine steps_within (fun s s' inStep => ?_) (fun s s' inStep => ?_) part
  · exact inStep.update rfl rfl rfl rfl fun _ alike =>
      { alike with exceptionPaths := by rw [alike.exceptionPaths] }
  · exact inStep.update rfl rfl rfl rfl fun _ alike =>
      { alike with exceptionPaths := by rw [alike.exceptionPaths] }

theorem steps_inFrame (kind : FrameKind) (part : Steps b c R m m') :
    Steps b c (fun x x' => R x.1 x'.1 ∧ Agree c x.2 x'.2) (inFrame kind m) (inFrame kind m') := by
  have enters : ∀ s s' : Builder, InStep b s s' →
      InStep b { s with frames := { kind := kind } :: s.frames }
        { s' with frames := { kind := kind } :: s'.frames } := fun s s' inStep =>
    { count := inStep.count
      frames := by rw [map_cons, map_cons, inStep.frames]
      same := fun held => { inStep.same held with frames := by rw [(inStep.same held).frames] }
      apart := inStep.apart }
  have leaves : ∀ s s' : Builder, InStep c s s' →
      Agree c (s.frames.headD { kind := kind }) (s'.frames.headD { kind := kind }) ∧
        InStep c { s with frames := s.frames.tail } { s' with frames := s'.frames.tail } :=
    fun s s' inStep => ⟨fun held => by rw [(inStep.same held).frames],
      { count := inStep.count
        frames := by rw [map_tail, map_tail, inStep.frames]
        same := fun held => { inStep.same held with frames := by rw [(inStep.same held).frames] }
        apart := inStep.apart }⟩
  refine (steps_modify enters).bind fun _ _ _ => part.bind fun a a' result => ?_
  exact (Paired.modifyGet leaves).bind fun f f' same => Paired.pure ⟨result, same⟩

theorem steps_inLoop (part : Steps b c R m m') :
    Steps b c (fun x x' => R x.1 x'.1 ∧ Agree c x.2 x'.2) (inLoop m) (inLoop m') := by
  refine steps_inFrame .loop (steps_within (fun s s' inStep => ?_) (fun s s' inStep => ?_) part)
  · exact inStep.update rfl rfl rfl rfl fun _ alike => { alike with loops := by rw [alike.loops] }
  · exact inStep.update rfl rfl rfl rfl fun _ alike => { alike with loops := by rw [alike.loops] }

end Steps

/-! ### What a statement is -/

theorem outer_of_form {type : String} (form : formOf type ≠ .simple) : type ∉ nestedTypes := by
  have simples : ∀ type ∈ nestedTypes, formOf type = .simple := by decide
  exact fun nested => form (simples type nested)

private theorem skipping_replaced {node node' : Cst} (replaced : Replaced node node') :
    skipping node = skipping node' := by
  rw [skipping, skipping, ← replaced.type_eq]
  by_cases outer : node.type ∈ nestedTypes
  · simp [outer]
  · rw [hidesJump_replaced replaced outer]

theorem thrown_replaced {node node' : Cst} (replaced : Replaced node node') :
    (node.type = "expression_statement" ∧ node.onlyChild = "throw_expression") ↔
      (node'.type = "expression_statement" ∧ node'.onlyChild = "throw_expression") := by
  rw [← replaced.type_eq]
  refine and_congr_right fun expression => ?_
  have outer : node.type ∉ nestedTypes := by rw [expression]; decide
  rw [onlyChild_replaced (replaced.children outer)]

theorem headD_replaced {children children' : List Cst} (parts : List.Forall₂ Replaced children children')
    {node node' : Cst} (replaced : Replaced node node') :
    Replaced (children.headD node) (children'.headD node') := by
  cases parts with
  | nil => exact replaced
  | cons first _ => exact first

private theorem searchedPart_replaced {node node' : Cst} (replaced : Replaced node node') :
    Replaced (searchedPart node) (searchedPart node') := by
  rw [searchedPart, searchedPart]
  by_cases thrown : node.type = "expression_statement" ∧ node.onlyChild = "throw_expression"
  · rw [if_pos thrown, if_pos ((thrown_replaced replaced).mp thrown)]
    have outer : node.type ∉ nestedTypes := by rw [thrown.1]; decide
    exact headD_replaced (namedChildren_replaced (replaced.children outer)) replaced
  · rw [if_neg thrown, if_neg (thrown ∘ (thrown_replaced replaced).mpr)]
    exact replaced

theorem isExitCall_of_type {node : Cst} (other : node.type ≠ "expression_statement") :
    node.isExitCall = false := by
  rw [isExitCall, decide_eq_false other, Bool.false_and]

theorem isExitCall_of_thrown {node : Cst} (thrown : node.onlyChild = "throw_expression") :
    node.isExitCall = false := by
  rw [onlyChild] at thrown
  rw [isExitCall]
  split at thrown
  next child only =>
    have none_ : "throw_expression" ∉ callTypes := by decide
    simp [thrown, none_]
  next => exact absurd thrown (by decide)

/-! ### Simple statements -/

section Simple

variable {b : Prop} {node node' : Cst} {preds preds' : List Nat} {condition condition' : Option Cst}

theorem steps_search {α : Type} {c : Prop} {R : α → α → Prop}
    (replaced : Option.Rel Replaced condition condition') {reason : String} {k k' : Build α}
    (rest : Steps b c R k k') :
    Steps b c R
      (do if condition.any skipping then throw reason
          k)
      (do if condition'.any skipping then throw reason
          k') := by
  have same : condition.any skipping = condition'.any skipping := by
    cases replaced with
    | none => rfl
    | some replaced => exact skipping_replaced replaced
  rw [same]
  cases condition'.any skipping with
  | true => exact Paired.throw
  | false => exact rest

theorem steps_branchOn
    (replaced : Option.Rel Replaced condition condition') (fallback fallback' : Cst)
    (agree : Agree b preds preds') :
    Steps b b (fun x x' => x.1 = x'.1) (branchOn skipping condition fallback preds)
      (branchOn skipping condition' fallback' preds') := by
  refine steps_search replaced ?_
  exact (steps_nodeFor_same .branch _ _ agree _ _).bind fun _ _ same => Paired.pure same

private theorem targetOf_inStep {leaves : Bool} {s s' : Builder} (inStep : InStep b s s') :
    targetOf leaves s = targetOf leaves s' := by
  have kinds : ∀ frames : List Frame, frames.findIdx? (fun f => leaves || f.kind = .loop) =
      (frames.map Frame.kind).findIdx? fun kind => leaves || kind = .loop := by
    intro frames
    rw [List.findIdx?_map]
    rfl
  rw [targetOf, targetOf, kinds, kinds, inStep.frames]

theorem kinds_taking (leaves : Bool) (index target : Nat) (frames : List Frame) :
    (frames.modify target (Frame.taking leaves index)).map Frame.kind = frames.map Frame.kind := by
  have kept : ∀ f : Frame, (f.taking leaves index).kind = f.kind := by
    intro f
    rw [Frame.taking]
    split <;> rfl
  apply ext_getElem?
  intro i
  rw [List.getElem?_map, List.getElem?_map, List.getElem?_modify]
  cases frames[i]? with
  | none => rfl
  | some f => by_cases here : target = i <;> simp [here, kept]

theorem steps_jumpTo (leaves : Bool) (parts : List.Forall₂ Replaced node.children node'.children)
    (agree : Agree b preds preds') :
    Steps b b (Agree b) (jumpTo leaves node preds) (jumpTo leaves node' preds') := by
  have levels := singleLevel_replaced parts
  have none_ : node.statements ≠ [] ↔ node'.statements ≠ [] :=
    not_congr (Collections.eq_nil_of_forall₂ (statements_replaced parts))
  rw [jumpTo, jumpTo, levels]
  simp only [none_]
  by_cases labelled : node'.statements ≠ [] ∧ node'.singleLevel = false
  · rw [if_pos labelled, if_pos labelled]
    exact Paired.throw
  rw [if_neg labelled, if_neg labelled]
  refine Paired.bind (Paired.modifyGet fun s s' inStep => ⟨targetOf_inStep inStep, inStep⟩) ?_
  rintro target _ rfl
  cases target with
  | none => exact Paired.throw
  | some target =>
    refine (steps_nodeFor_same _ _ _ agree _ _).bind fun index index' same => ?_
    subst same
    refine (steps_modify fun s s' inStep => ?_).bind fun _ _ _ => Paired.pure fun _ => rfl
    refine inStep.update rfl rfl (kinds_taking _ _ _ _) (kinds_taking _ _ _ _) fun _ alike => ?_
    exact { alike with frames := by rw [alike.frames] }

theorem steps_leave (kind : NodeKind) (syn syn' : Cst) (agree : Agree b preds preds') :
    Steps b b (Agree (α := List Nat) b)
      (do let index ← nodeFor kind syn preds ""
          link [index] FunctionCfg.exitIndex
          return [])
      (do let index ← nodeFor kind syn' preds' ""
          link [index] FunctionCfg.exitIndex
          return []) :=
  (steps_nodeFor_same kind syn syn' agree _ _).bind fun _ _ same =>
    (steps_link (fun _ => by rw [same]) fun _ => rfl).bind fun _ _ _ => Paired.pure fun _ => rfl

/-- A plain statement is built alike as long as both trees or neither have a call that exits. -/
theorem steps_simple (replaced : Replaced node node') (agree : Agree b preds preds') :
    Steps b (b ∧ node.isExitCall = node'.isExitCall) (Agree (b ∧ node.isExitCall = node'.isExitCall))
      (simple skipping node preds) (simple skipping node' preds') := by
  refine steps_search (.some (searchedPart_replaced replaced)) ?_
  -- where neither is such a call, the two stay in step
  have settle : ∀ {m m' : Build (List Nat)}, node.isExitCall = false → node'.isExitCall = false →
      Steps b b (Agree b) m m' → Steps b (b ∧ node.isExitCall = node'.isExitCall)
        (Agree (b ∧ node.isExitCall = node'.isExitCall)) m m' := by
    intro m m' plain plain' steps
    rwa [plain, plain', eq_self, and_true]
  have typed : ∀ types : List String, "expression_statement" ∉ types → node.type ∈ types →
      node.isExitCall = false ∧ node'.isExitCall = false := by
    intro types none_ member
    have other : node.type ≠ "expression_statement" := fun same => none_ (same ▸ member)
    exact ⟨isExitCall_of_type other, isExitCall_of_type (replaced.type_eq ▸ other)⟩
  have thrown := thrown_replaced replaced
  rw [← replaced.type_eq] at thrown
  simp only [← replaced.type_eq, thrown]
  by_cases return_ : node.type ∈ returns
  · simp only [if_pos return_]
    obtain ⟨plain, plain'⟩ := typed returns (by decide) return_
    exact settle plain plain' (steps_leave _ _ _ agree)
  simp only [if_neg return_]
  by_cases throw_ : node.type ∈ throws ∨
      (node.type = "expression_statement" ∧ node'.onlyChild = "throw_expression")
  · simp only [if_pos throw_]
    have plain : node.isExitCall = false ∧ node'.isExitCall = false := by
      rcases throw_ with type | expression
      · exact typed throws (by decide) type
      · exact ⟨isExitCall_of_thrown (thrown.mpr expression).2, isExitCall_of_thrown expression.2⟩
    refine settle plain.1 plain.2 ((steps_nodeFor_same _ _ _ agree _ _).bind fun index index' same => ?_)
    exact (steps_exitUnhandled fun _ => same).bind fun _ _ _ => Paired.pure fun _ => rfl
  simp only [if_neg throw_]
  by_cases break_ : node.type ∈ breaks
  · simp only [if_pos break_]
    obtain ⟨plain, plain'⟩ := typed breaks (by decide) break_
    have simples : ∀ type ∈ breaks, type ∉ nestedTypes := by decide
    exact settle plain plain' (steps_jumpTo true (replaced.children (simples _ break_)) agree)
  simp only [if_neg break_]
  by_cases continue_ : node.type ∈ continues
  · simp only [if_pos continue_]
    obtain ⟨plain, plain'⟩ := typed continues (by decide) continue_
    have simples : ∀ type ∈ continues, type ∉ nestedTypes := by decide
    exact settle plain plain' (steps_jumpTo false (replaced.children (simples _ continue_)) agree)
  simp only [if_neg continue_]
  by_cases exit_ : node.type ∈ exitStatements
  · simp only [if_pos (Or.inl exit_)]
    obtain ⟨plain, plain'⟩ := typed exitStatements (by decide) exit_
    exact settle plain plain' (steps_leave _ _ _ agree)
  simp only [exit_, false_or]
  by_cases assert_ : node.type = "assert_statement"
  · have other : node.type ≠ "expression_statement" := by rw [assert_]; decide
    have plain := isExitCall_of_type other
    have plain' := isExitCall_of_type (replaced.type_eq ▸ other)
    simp only [plain, plain', and_true, Bool.false_eq_true, if_false, if_pos assert_]
    refine (steps_nodeFor_same _ _ _ agree _ _).bind fun index index' same => ?_
    refine (steps_new_same _ _ _ _ _ _ _ _ _ _).bind fun failed failed' same' => ?_
    refine (steps_link (fun _ => by rw [same]) fun _ => same').bind fun _ _ _ => ?_
    exact (steps_exitUnhandled fun _ => same').bind fun _ _ _ => Paired.pure fun _ => by rw [same]
  simp only [if_neg assert_]
  cases node.isExitCall with
  | false =>
    cases node'.isExitCall with
    | false =>
      simp only [and_true, Bool.false_eq_true, if_false]
      exact (steps_nodeFor_same _ _ _ agree _ _).bind fun _ _ same => Paired.pure fun _ => by rw [same]
    | true =>
      simp only [Bool.false_eq_true, and_false, if_false, if_true]
      have step := steps_nodeFor .statement .exitJump node node' agree
        (String.ofList (node.text.toList.take 240)) ""
      simp only [reduceCtorEq, and_false] at step
      exact step.bind fun _ _ _ => steps_apart_right
  | true =>
    cases node'.isExitCall with
    | false =>
      simp only [Bool.true_eq_false, Bool.false_eq_true, and_false, if_false, if_true]
      have step := steps_nodeFor .exitJump .statement node node' agree ""
        (String.ofList (node'.text.toList.take 240))
      simp only [reduceCtorEq, and_false] at step
      exact step.bind fun _ _ _ => steps_apart_left
    | true =>
      simp only [and_true, if_true]
      exact steps_leave _ _ _ agree

end Simple

/-! ### Parts of statements -/

section Parts

variable {node node' : Cst} (parts : List.Forall₂ Replaced node.children node'.children)

@[elab_as_elim]
theorem childByField_cases {motive : Option Cst → Option Cst → Prop} (field : String)
    (parts : List.Forall₂ Replaced node.children node'.children) (without : motive none none)
    (child : ∀ child child', Replaced child child' → motive (some child) (some child')) :
    motive (node.childByField field) (node'.childByField field) := by
  have same := childByField_replaced parts field
  generalize node.childByField field = found at same ⊢
  generalize node'.childByField field = found' at same ⊢
  cases same with
  | none => exact without
  | some replaced => exact child _ _ replaced

include parts

theorem consequence_replaced : Option.Rel Replaced (consequence node) (consequence node') :=
  or_replaced (childByField_replaced parts _) (childByField_replaced parts _)

theorem elseBody_replaced : Option.Rel Replaced (elseBody node) (elseBody node') :=
  or_replaced (childByField_replaced parts _) (head_replaced (statements_replaced parts))

private theorem subjectOf_replaced : Option.Rel Replaced (subjectOf node) (subjectOf node') :=
  or_replaced (childByField_replaced parts _)
    (or_replaced (childByField_replaced parts _) (childByField_replaced parts _))

theorem clauseBody_replaced : Option.Rel Replaced (clauseBody node) (clauseBody node') :=
  or_replaced (childByField_replaced parts _)
    (find_replaced (fun _ _ kept => by rw [type, type, kept.type_eq]) (namedChildren_replaced parts))

private theorem finallyOf_replaced : Option.Rel Replaced (finallyOf node) (finallyOf node') :=
  find_replaced (fun _ _ kept => by rw [type, type, kept.type_eq]) (namedChildren_replaced parts)

theorem unlabelled_replaced : List.Forall₂ Replaced (unlabelled node) (unlabelled node') :=
  filter_replaced (fun _ _ kept => by rw [type, type, kept.type_eq]) (namedChildren_replaced parts)

omit parts in
theorem bind_replaced {part part' : Option Cst} {f : Cst → Option Cst}
    (same : Option.Rel Replaced part part')
    (inner : ∀ node node', node ∈ part → Replaced node node' → Option.Rel Replaced (f node) (f node')) :
    Option.Rel Replaced (part.bind f) (part'.bind f) := by
  cases same with
  | none => exact .none
  | some replaced => exact inner _ _ rfl replaced

private theorem tryElse_replaced : Option.Rel Replaced (tryElse node) (tryElse node') := by
  refine bind_replaced (find_replaced (fun _ _ kept => by rw [type, type, kept.type_eq])
    (namedChildren_replaced parts)) fun clause clause' found replaced => ?_
  have type : clause.type = "else_clause" := by simpa using List.find?_some found
  have outer : clause.type ∉ nestedTypes := by rw [type]; decide
  exact childByField_replaced (replaced.children outer) _

theorem clausesOf_replaced : List.Forall₂ Replaced (clausesOf node) (clausesOf node') := by
  refine rel_append (filter_replaced (fun _ _ kept => by rw [type, type, kept.type_eq])
    (namedChildren_replaced parts)) ?_
  refine childByField_cases "handler" parts .nil fun handler handler' replaced => ?_
  rw [filter_some, filter_some, ← replaced.type_eq, ← replaced.kept.named_eq]
  split
  · exact .cons replaced .nil
  · exact .nil

end Parts

variable {alternative alternative' : Cst}

private theorem alternativeStatement_replaced (replaced : Replaced alternative alternative') :
    Option.Rel Replaced (alternativeStatement alternative) (alternativeStatement alternative') := by
  rw [alternativeStatement, alternativeStatement, ← replaced.type_eq]
  by_cases first : alternative.type ∈ ifs
  · rw [if_pos first, if_pos first]
    exact .some replaced
  rw [if_neg first, if_neg first]
  by_cases second : alternative.type ∈ elifTypes
  · rw [if_pos second, if_pos second]
    have elifs : ∀ type ∈ elifTypes, type ∉ nestedTypes := by decide
    exact consequence_replaced (replaced.children (elifs _ second))
  rw [if_neg second, if_neg second]
  by_cases third : alternative.type = "else_clause"
  · rw [if_pos third, if_pos third]
    have outer : alternative.type ∉ nestedTypes := by rw [third]; decide
    exact elseBody_replaced (replaced.children outer)
  rw [if_neg third, if_neg third]
  exact .some replaced

private theorem armStatements_replaced {arm arm' : Cst} (replaced : Replaced arm arm') :
    List.Forall₂ Replaced (armStatements arm) (armStatements arm') := by
  have arms := arm_replaced replaced
  rw [armStatements, armStatements]
  generalize arm.arm = label at arms ⊢
  generalize arm'.arm = label' at arms ⊢
  cases arms with
  | none => exact .nil
  | some alike => exact alike.statements

/-! ### What the grammar has nodes of its own for -/

section Outer

variable {node node' : Cst} (replaced : Replaced node node')
include replaced

private theorem outer_of_clause (try_ : node.type ∈ tries) :
    ∀ clause ∈ clausesOf node, clause.type ∉ nestedTypes := by
  have simples : ∀ type ∈ tries, type ∉ nestedTypes := by decide
  have outers : ∀ type ∈ clauseTypes, type ∉ nestedTypes := by decide
  intro clause member
  rcases mem_append.mp member with typed | handler
  · exact outers _ (by simpa using (mem_filter.mp typed).2)
  · have found := (filter_eq_some_iff.mp (mem_toList.mp handler)).1
    have field : clause.label.field = "handler" := by simpa using List.find?_some found
    refine replaced.outer_of_isPart (simples _ try_) (mem_of_find?_eq_some found) ?_
    rw [isPart, field]
    simp [try_]

private theorem clauses_replaced (try_ : node.type ∈ tries) :
    List.Forall₂ (fun clause clause' => Replaced clause clause' ∧ clause.type ∉ nestedTypes)
      (clausesOf node) (clausesOf node') := by
  have simples : ∀ type ∈ tries, type ∉ nestedTypes := by decide
  have clauses := clausesOf_replaced (replaced.children (simples _ try_))
  exact Collections.forall₂_imp_mem clauses fun clause _ member _ replaced' =>
    ⟨replaced', outer_of_clause replaced try_ clause member⟩

private theorem loopElse_replaced (form : formOf node.type = .loop) :
    Option.Rel Replaced ((node.childByField "alternative").bind (·.childByField "body"))
      ((node'.childByField "alternative").bind (·.childByField "body")) := by
  have outer : node.type ∉ nestedTypes := outer_of_form (by rw [form]; decide)
  refine bind_replaced (childByField_replaced (replaced.children outer) _)
    fun alternative alternative' found same => ?_
  have field : alternative.label.field = "alternative" := by simpa using List.find?_some found
  refine childByField_replaced (same.children ?_) _
  refine replaced.outer_of_isPart outer (mem_of_find?_eq_some found) ?_
  rw [isPart, field]
  rw [formOf] at form
  split_ifs at form with _ _ _ loops
  rcases loops with loop | loop <;> simp [loop]

private theorem outer_of_switch (form : formOf node.type = .switch) :
    ∀ body ∈ node.childByField "body", body.type ∉ nestedTypes := by
  intro body found
  have outer : node.type ∉ nestedTypes := outer_of_form (by rw [form]; decide)
  have field : body.label.field = "body" := by simpa using List.find?_some found
  refine replaced.outer_of_isPart outer (mem_of_find?_eq_some found) ?_
  rw [isPart, field]
  rw [formOf] at form
  split_ifs at form with _ _ _ _ _ switch
  simp [switch]

end Outer

/-! ### Runs that go on to statements -/

/-- Runs that go on to the statements of two lists, and stay in step as long as these are alike. -/
abbrev Goes {α : Type} (E : Cst → Cst → Prop) (b : Prop) (nodes nodes' : List Cst)
    (A : Prop → α → α → Prop) (m m' : Build α) : Prop :=
  Steps b (b ∧ List.Forall₂ E nodes nodes') (A (b ∧ List.Forall₂ E nodes nodes')) m m'

namespace Goes

variable {α β : Type} {E : Cst → Cst → Prop} {b : Prop} {nodes nodes' rest rest' : List Cst}
  {A : Prop → α → α → Prop} {B : Prop → β → β → Prop} {m m' : Build α}

theorem of_steps (steps : Steps b b (A b) m m') : Goes E b [] [] A m m' := by
  simpa only [Goes, forall₂_nil_left_iff, and_true] using steps

theorem bind {k k' : α → Build β} (first : Goes E b nodes nodes' A m m')
    (lengths : nodes.length = nodes'.length)
    (later : ∀ a a', A (b ∧ List.Forall₂ E nodes nodes') a a' →
      Goes E (b ∧ List.Forall₂ E nodes nodes') rest rest' B (k a) (k' a')) :
    Goes E b (nodes ++ rest) (nodes' ++ rest') B (m >>= k) (m' >>= k') := by
  rw [Goes, Collections.forall₂_append_iff lengths, ← and_assoc]
  exact Paired.bind first later

theorem foldlM {γ : Type} {P : γ → γ → Prop} {parts : γ → List Cst} {f f' : α → γ → Build α}
    (step : ∀ b part part' acc acc', P part part' → A b acc acc' →
      Goes E b (parts part) (parts part') A (f acc part) (f' acc' part'))
    (lengths : ∀ part part', P part part' → (parts part).length = (parts part').length)
    {l l' : List γ} (each : List.Forall₂ P l l') {acc acc' : α} (start : A b acc acc') :
    Goes E b (l.flatMap parts) (l'.flatMap parts) A (l.foldlM f acc) (l'.foldlM f' acc') := by
  rw [Goes, Collections.forall₂_flatMap_iff lengths each]
  exact Paired.foldlM step each b acc acc' start

end Goes

/-- The ways through the arms of an if statement agree as long as `b` holds. -/
structure ArmsAgree (b : Prop) (arms arms' : Arms) : Prop where
  outs : Agree b arms.outs arms'.outs
  rest : Agree b arms.rest arms'.rest
  failed : arms.failed.length = arms'.failed.length

/-- The ways through the arms of a switch agree as long as `b` holds. -/
structure CasesAgree (b : Prop) (cases_ cases_' : Cases) : Prop where
  outs : Agree b cases_.outs cases_'.outs
  falling : Agree b cases_.falling cases_'.falling
  hasDefault : cases_.hasDefault = cases_'.hasDefault

theorem Agree.append {b : Prop} {l l' m m' : List Nat} (first : Agree b l l') (second : Agree b m m') :
    Agree b (l ++ m) (l' ++ m') := fun held => by rw [first held, second held]

/-! ### Statement by statement -/

section Clauses

variable {b : Prop} {clauses clauses' : List Cst}

theorem steps_clauseNodes (kind : NodeKind) (same : List.Forall₂ Replaced clauses clauses') :
    Steps b b (fun entries entries' => entries = entries' ∧ entries.length = clauses.length)
      (clauses.mapM (clauseNode kind)) (clauses'.mapM (clauseNode kind)) := by
  induction same with
  | nil => exact Paired.pure ⟨rfl, rfl⟩
  | cons _ _ ih =>
    rw [mapM_cons, mapM_cons]
    refine (steps_new_same _ _ _ _ _ _ _ _ _ _).bind fun entry entry' first => ?_
    refine ih.bind fun entries entries' rest => Paired.pure ?_
    exact ⟨by rw [first, rest.1], congrArg (· + 1) rest.2⟩

theorem steps_finallyNode {final final' : Option Cst} (same : Option.Rel Replaced final final') :
    Steps b b (fun entry entry' => entry = entry' ∧ entry.isSome = final.isSome)
      (final.mapM (clauseNode .finallyBlock)) (final'.mapM (clauseNode .finallyBlock)) := by
  cases same with
  | none => exact Paired.pure ⟨rfl, rfl⟩
  | some _ =>
    exact (steps_new_same _ _ _ _ _ _ _ _ _ _).bind fun entry entry' first =>
      Paired.pure ⟨congrArg some first, rfl⟩

private theorem steps_leaveFinally {outs outs' : List Nat} (agree : Agree b outs outs') :
    Steps b b (fun _ _ => True) (leaveFinally outs) (leaveFinally outs') := by
  refine steps_modify fun s s' inStep => inStep.update rfl rfl rfl rfl fun held alike => ?_
  have unhandled : s.handlers.isEmpty = s'.handlers.isEmpty := by rw [alike.handlers]
  have handled : s.handled = s'.handled := by
    funext index
    rw [Builder.handled, Builder.handled, alike.handlers]
  exact { alike with exceptional := by simp only [alike.exceptional, unhandled, handled, agree held] }

end Clauses

section Statements

variable {b : Prop} {E : Cst → Cst → Prop} {go go' : Cst → List Nat → Build (List Nat)}
  (each : ∀ b node node' preds preds', Replaced node node' → Agree b preds preds' →
    Steps b (b ∧ E node node') (Agree (b ∧ E node node')) (go node preds) (go' node' preds'))
  {node node' : Cst} {preds preds' : List Nat}
include each

theorem goes_statement (replaced : Replaced node node') (agree : Agree b preds preds') :
    Goes E b [node] [node'] Agree (go node preds) (go' node' preds') := by
  simpa only [Goes, forall₂_cons, forall₂_nil_left_iff, and_true] using
    each b node node' preds preds' replaced agree

theorem goes_sequence {nodes nodes' : List Cst} (parts : List.Forall₂ Replaced nodes nodes')
    (agree : Agree b preds preds') :
    Goes E b nodes nodes' Agree (sequence go nodes preds) (sequence go' nodes' preds') :=
  Paired.foldlM (fun b node node' preds preds' => each b node node' preds preds') parts b preds preds'
    agree

theorem goes_optional {part part' : Option Cst} (replaced : Option.Rel Replaced part part')
    (agree : Agree b preds preds') :
    Goes E b part.toList part'.toList Agree (optional go part preds) (optional go' part' preds') := by
  cases replaced with
  | none => exact .of_steps (Paired.pure agree)
  | some replaced => exact goes_statement each replaced agree

private theorem goes_alternativeStep
    (replaced : Replaced alternative alternative') {arms arms' : Arms} (agree : ArmsAgree b arms arms') :
    Goes E b (alternativeStatement alternative).toList (alternativeStatement alternative').toList ArmsAgree
      (alternativeStep skipping go arms alternative) (alternativeStep skipping go' arms' alternative') := by
  -- an alternative that is a statement, or holds one, after which control goes on to the next
  have through : ∀ {part part' : Option Cst}, Option.Rel Replaced part part' →
      Goes E b part.toList part'.toList ArmsAgree
        (do let out ← optional go part arms.rest
            return { arms with outs := arms.outs ++ out, rest := [] })
        (do let out ← optional go' part' arms'.rest
            return { arms' with outs := arms'.outs ++ out, rest := [] }) := fun same =>
    Paired.bind (goes_optional each same agree.rest) fun out out' outs =>
      Paired.pure ⟨agree.outs.and.append outs, fun _ => rfl, agree.failed⟩
  refine steps_underConditions agree.failed ?_
  rw [alternativeStatement, alternativeStatement, ← replaced.type_eq]
  by_cases first : alternative.type ∈ ifs
  · simp only [if_pos first]
    exact through (.some replaced)
  simp only [if_neg first]
  by_cases second : alternative.type ∈ elifTypes
  · simp only [if_pos second]
    have elifs : ∀ type ∈ elifTypes, type ∉ nestedTypes := by decide
    have parts := replaced.children (elifs _ second)
    refine (steps_branchOn (childByField_replaced parts _) _ _ agree.rest).bind fun branch branch' same => ?_
    have entered : Agree b [branch.1] [branch'.1] := fun _ => by rw [same]
    have inner := goes_optional each (consequence_replaced parts) entered
    refine (steps_underCondition inner).bind fun out out' outs => Paired.pure ?_
    refine ⟨agree.outs.and.append outs, entered.and, ?_⟩
    rw [length_append, length_append, agree.failed]
    rfl
  simp only [if_neg second]
  by_cases third : alternative.type = "else_clause"
  · simp only [if_pos third]
    have outer : alternative.type ∉ nestedTypes := by rw [third]; decide
    exact through (elseBody_replaced (replaced.children outer))
  simp only [if_neg third]
  exact through (.some replaced)

private theorem goes_caseStep {arm arm' : Cst} (replaced : Replaced arm arm') (branch : Nat)
    (subject subject' : String) {cases_ cases_' : Cases} (agree : CasesAgree b cases_ cases_') :
    Goes E b (armStatements arm) (armStatements arm') CasesAgree
      (caseStep go branch subject cases_ arm) (caseStep go' branch subject' cases_' arm') := by
  have arms := arm_replaced replaced
  rw [caseStep, caseStep, armStatements, armStatements]
  generalize arm.arm = label at arms ⊢
  generalize arm'.arm = label' at arms ⊢
  cases arms with
  | none => exact Paired.throw
  | @some label label' alike =>
    refine (steps_new_same _ _ _ _ _ _ _ _ _ _).bind fun case case' same => ?_
    subst same
    refine (steps_link (fun _ => rfl) fun _ => rfl).bind fun _ _ _ => ?_
    simp only [← alike.falls_eq]
    have default : (cases_.hasDefault || label.default) = (cases_'.hasDefault || label'.default) := by
      rw [agree.hasDefault, alike.default_eq]
    by_cases falls : label.fallsThrough = true
    · simp only [if_pos falls]
      have entered : Agree b (case :: cases_.falling) (case :: cases_'.falling) :=
        fun held => by rw [agree.falling held]
      refine (steps_underCondition (goes_sequence each alike.statements entered)).bind
        fun out out' outs => Paired.pure ⟨agree.outs.and, outs, default⟩
    · simp only [if_neg falls]
      have entered : Agree b [case] [case] := fun _ => rfl
      refine (steps_underCondition (goes_sequence each alike.statements entered)).bind
        fun out out' outs => Paired.pure ⟨agree.outs.and.append outs, agree.falling.and, default⟩

variable (replaced : Replaced node node') (agree : Agree b preds preds')
include replaced agree

private theorem goes_conditional (form : formOf node.type = .conditional) :
    Goes E b (partsOf node) (partsOf node') Agree
      (conditional skipping go node preds) (conditional skipping go' node' preds') := by
  have parts := replaced.children (outer_of_form (by rw [form]; decide))
  simp only [partsOf, ← replaced.type_eq, form]
  refine (steps_branchOn (childByField_replaced parts _) _ _ agree).bind fun branch branch' same => ?_
  have entered : Agree b [branch.1] [branch'.1] := fun _ => by rw [same]
  have first := consequence_replaced parts
  refine Goes.bind (steps_underCondition (goes_optional each first entered))
    (toList_replaced first).length_eq fun outs outs' agrees => ?_
  have step := fun b part part' arms arms' (replaced : Replaced part part')
    (agree : ArmsAgree b arms arms') => goes_alternativeStep each replaced agree
  have lengths := fun part part' (replaced : Replaced part part') =>
    (toList_replaced (alternativeStatement_replaced replaced)).length_eq
  have begin : ArmsAgree _ ⟨outs, [branch.1], [negated branch.2]⟩
      ⟨outs', [branch'.1], [negated branch'.2]⟩ := ⟨agrees, entered.and, rfl⟩
  exact Paired.bind (Goes.foldlM step lengths (childrenByField_replaced parts "alternative") begin)
    fun arms arms' through => Paired.pure (through.outs.append through.rest)

private theorem goes_loop (form : formOf node.type = .loop) :
    Goes E b (partsOf node) (partsOf node') Agree
      (loop skipping go node preds) (loop skipping go' node' preds') := by
  have parts := replaced.children (outer_of_form (by rw [form]; decide))
  have alternative := loopElse_replaced replaced form
  simp only [partsOf, ← replaced.type_eq, form]
  rw [loop, loop]
  refine childByField_cases "body" parts Paired.throw fun body body' same => ?_
  refine steps_search (childByField_replaced parts _) ?_
  refine (steps_new_same _ _ _ _ _ _ _ _ _ _).bind fun header header' index => ?_
  have entered : Agree b [header] [header'] := fun _ => by rw [index]
  refine (steps_link agree fun _ => index).bind fun _ _ _ => ?_
  have inner := goes_statement each same entered
  refine Goes.bind (A := fun c (left left' : List Nat × Frame) =>
    Agree c left.1 left'.1 ∧ Agree c left.2 left'.2) (steps_inLoop (steps_underCondition inner)) rfl fun left left' agrees => ?_
  refine (steps_link ?_ fun _ => index).bind fun _ _ _ => ?_
  · exact agrees.1.append fun held => by rw [agrees.2 held]
  refine Paired.bind (goes_optional each alternative entered.and) fun outs outs' through => ?_
  exact Paired.pure (through.append fun held => by rw [agrees.2 held.1])

private theorem goes_doLoop (form : formOf node.type = .doLoop) :
    Goes E b (partsOf node) (partsOf node') Agree
      (doLoop skipping go node preds) (doLoop skipping go' node' preds') := by
  have parts := replaced.children (outer_of_form (by rw [form]; decide))
  simp only [partsOf, ← replaced.type_eq, form]
  rw [doLoop, doLoop]
  refine childByField_cases "body" parts Paired.throw fun body body' inner => ?_
  refine childByField_cases "condition" parts Paired.throw fun condition condition' same => ?_
  refine Paired.bind (Paired.modifyGet fun s s' inStep => ⟨inStep.count, inStep⟩) ?_
  rintro first _ rfl
  refine (steps_inLoop (goes_statement each inner agree)).bind fun left left' agrees => ?_
  have back : Agree _ (left.1 ++ left.2.continues) (left'.1 ++ left'.2.continues) :=
    agrees.1.append fun held => by rw [agrees.2 held]
  refine (steps_branchOn (.some same) _ _ back).bind fun branch branch' index => ?_
  refine (steps_link (fun _ => by rw [index]) fun _ => by rw [index]).bind fun _ _ _ => Paired.pure ?_
  exact fun held => by rw [index, agrees.2 held]

private theorem goes_switch (form : formOf node.type = .switch) :
    Goes E b (partsOf node) (partsOf node') Agree
      (switch skipping go node preds) (switch skipping go' node' preds') := by
  have parts := replaced.children (outer_of_form (by rw [form]; decide))
  have outer := outer_of_switch replaced form
  simp only [partsOf, ← replaced.type_eq, form]
  rw [switch, switch]
  revert outer
  refine childByField_cases "body" parts (fun _ => Paired.throw) fun body body' same => ?_
  intro outer
  simp only [toList_some, flatMap_cons, flatMap_nil, append_nil]
  have arms := statements_replaced (same.children (outer body rfl))
  refine (steps_branchOn (subjectOf_replaced parts) _ _ agree).bind fun branch branch' index => ?_
  rw [← index]
  have begin : CasesAgree b ⟨[], [], false⟩ ⟨[], [], false⟩ := ⟨fun _ => rfl, fun _ => rfl, rfl⟩
  have step := fun b arm arm' cases_ cases_' (replaced : Replaced arm arm')
    (agree : CasesAgree b cases_ cases_') => goes_caseStep each replaced branch.1 branch.2 branch'.2 agree
  have lengths := fun arm arm' (replaced : Replaced arm arm') =>
    (armStatements_replaced replaced).length_eq
  have inner := Goes.foldlM step lengths arms begin
  refine (steps_inFrame .switch inner).bind fun left left' agrees => Paired.pure fun held => ?_
  rw [agrees.1.outs held, agrees.1.falling held, agrees.2 held, agrees.1.hasDefault]

private theorem goes_withHeader (form : formOf node.type = .headed) :
    Goes E b (partsOf node) (partsOf node') Agree
      (withHeader go node preds) (withHeader go' node' preds') := by
  have parts := replaced.children (outer_of_form (by rw [form]; decide))
  simp only [partsOf, ← replaced.type_eq, form]
  rw [withHeader, withHeader]
  refine childByField_cases "body" parts Paired.throw fun body body' same => ?_
  refine (steps_new_same _ _ _ _ _ _ _ _ _ _).bind fun header header' index => ?_
  refine (steps_link agree fun _ => index).bind fun _ _ _ => ?_
  exact goes_statement each same fun _ => by rw [index]

omit replaced agree in
private theorem goes_tryBody (parts : List.Forall₂ Replaced node.children node'.children)
    {body body' : Cst} (same : Replaced body body') (start : Nat) (targets : List Nat)
    {types types' : List String} (lengths : types.length = types'.length) :
    Goes E b [body] [body'] Agree (tryBody go node body start targets types)
      (tryBody go' node' body' start targets types') := by
  refine steps_underHandlers (fun _ => rfl) rfl (steps_inTry lengths ?_)
  have resources : Steps b b (Agree b) (resourcesNode node start) (resourcesNode node' start) := by
    rw [resourcesNode, resourcesNode]
    refine childByField_cases "resources" parts (Paired.pure fun _ => rfl) fun resources resources' _ => ?_
    exact (steps_nodeFor_same _ _ _ (fun _ => rfl) _ _).bind fun _ _ index =>
      Paired.pure fun _ => by rw [index]
  exact resources.bind fun out out' agree => goes_statement each same agree

omit replaced agree in
private theorem goes_clauseBodies {clauses clauses' : List Cst}
    (both : List.Forall₂ (fun clause clause' => Replaced clause clause' ∧ clause.type ∉ nestedTypes)
      clauses clauses') {entries : List Nat} (length : entries.length = clauses.length) {outs outs' : List Nat} (agree : Agree b outs outs') :
    Goes E b (clauses.flatMap fun clause => (clauseBody clause).toList)
      (clauses'.flatMap fun clause => (clauseBody clause).toList) Agree
      (clauseBodies go (clauses.zip entries) outs) (clauseBodies go' (clauses'.zip entries) outs') := by
  have firsts : ∀ clauses : List Cst, entries.length = clauses.length →
      (clauses.flatMap fun clause => (clauseBody clause).toList) =
        (clauses.zip entries).flatMap fun p => (clauseBody p.1).toList := by
    intro clauses length
    conv_lhs => rw [← map_fst_zip length.ge, flatMap_map]
  rw [firsts clauses length, firsts clauses' (both.length_eq ▸ length)]
  refine steps_onExceptionPath (Goes.foldlM ?_ ?_ (Collections.forall₂_zip both entries) agree)
  · rintro b p p' outs outs' ⟨⟨replaced, outer⟩, entry⟩ agree
    have inner := goes_optional each (clauseBody_replaced (replaced.children outer))
      (fun _ => by rw [entry] : Agree b [p.2] [p'.2])
    exact Paired.bind inner fun out out' through => Paired.pure (agree.and.append through)
  · rintro p p' ⟨⟨replaced, outer⟩, -⟩
    exact (toList_replaced (clauseBody_replaced (replaced.children outer))).length_eq

omit replaced agree in
theorem goes_finallyPart {final final' : Option Cst} (same : Option.Rel Replaced final final')
    (outer : ∀ clause ∈ final, clause.type ∉ nestedTypes) {entry : Option Nat}
    (entered : entry.isSome = final.isSome) {normal normal' : List Nat} (agree : Agree b normal normal') :
    Goes E b (final.bind clauseBody).toList (final'.bind clauseBody).toList Agree
      (finallyPart go final entry normal) (finallyPart go' final' entry normal') := by
  cases same with
  | none => exact .of_steps (Paired.pure agree)
  | @some clause clause' replaced =>
    obtain ⟨entry, rfl⟩ := isSome_iff_exists.mp entered
    refine (steps_link agree fun _ => rfl).bind fun _ _ _ => ?_
    have bodies := clauseBody_replaced (replaced.children (outer clause rfl))
    refine Paired.bind (goes_optional each bodies fun _ => rfl) fun outs outs' through => ?_
    exact (steps_leaveFinally through).bind fun _ _ _ => Paired.pure through

private theorem goes_guarded (form : formOf node.type = .guarded) :
    Goes E b (partsOf node) (partsOf node') Agree
      (guarded go node preds) (guarded go' node' preds') := by
  have try_ : node.type ∈ tries := by
    have form := form
    rw [formOf] at form
    split_ifs at form with _ _ _ _ _ _ try_
    exact try_
  have parts := replaced.children (outer_of_form (by rw [form]; decide))
  have clauses := clauses_replaced replaced try_
  have finals := finallyOf_replaced parts
  have finalOuter : ∀ clause ∈ finallyOf node, clause.type ∉ nestedTypes := by
    intro clause found
    have type : clause.type = "finally_clause" := by simpa using List.find?_some found
    rw [type]
    decide
  have bodies := fun clause clause' (both : Replaced clause clause' ∧ clause.type ∉ nestedTypes) =>
    toList_replaced (clauseBody_replaced (both.1.children both.2))
  have lengths := fun clause clause' both => (bodies clause clause' both).length_eq
  simp only [partsOf, ← replaced.type_eq, form, append_assoc]
  rw [guarded, guarded]
  refine childByField_cases "body" parts Paired.throw fun body body' same => ?_
  refine (steps_new_same _ _ _ _ _ _ _ _ _ _).bind fun start start' first => ?_
  subst first
  refine (steps_link agree fun _ => rfl).bind fun _ _ _ => ?_
  refine (steps_clauseNodes .catchClause (clausesOf_replaced parts)).bind ?_
  rintro entries _ ⟨rfl, length⟩
  refine (steps_finallyNode finals).bind ?_
  rintro finalEntry _ ⟨rfl, entered⟩
  refine (steps_throwTo start _).bind fun _ _ _ => ?_
  refine Goes.bind (goes_tryBody each parts same start _ ?_) rfl fun out out' through => ?_
  · rw [length_map, length_map, clauses.length_eq]
  have orelse_ := tryElse_replaced parts
  refine Goes.bind (goes_optional each orelse_ through) (toList_replaced orelse_).length_eq
    fun out out' through => ?_
  refine Goes.bind (steps_underHandlers (fun _ => rfl) rfl (goes_clauseBodies each clauses length through))
    ((Collections.forall₂_flatMap_iff lengths clauses).mpr (clauses.imp bodies)).length_eq
    fun normal normal' through => ?_
  exact goes_finallyPart each finals finalOuter entered through

/-- Every statement is built in step, as long as the calls in it are read alike. -/
theorem steps_dispatch :
    Steps b
      (b ∧ (formOf node.type = .simple → node.isExitCall = node'.isExitCall) ∧
        List.Forall₂ E (partsOf node) (partsOf node'))
      (Agree (b ∧ (formOf node.type = .simple → node.isExitCall = node'.isExitCall) ∧
        List.Forall₂ E (partsOf node) (partsOf node')))
      (dispatch skipping go node preds) (dispatch skipping go' node' preds') := by
  have parts := fun form : formOf node.type ≠ .simple => replaced.children (outer_of_form form)
  rw [dispatch, dispatch, ← replaced.type_eq]
  cases form : formOf node.type with
  | simple =>
    simp only [partsOf, ← replaced.type_eq, form, true_imp_iff, forall₂_nil_left_iff, and_true]
    exact steps_simple replaced agree
  | skipped =>
    simp only [partsOf, ← replaced.type_eq, form, reduceCtorEq, false_imp_iff, forall₂_nil_left_iff,
      and_true]
    exact Paired.pure agree
  | block =>
    simp only [partsOf, ← replaced.type_eq, form, reduceCtorEq, false_imp_iff, true_and]
    exact goes_sequence each (statements_replaced (parts (by rw [form]; decide))) agree
  | labelled =>
    simp only [partsOf, ← replaced.type_eq, form, reduceCtorEq, false_imp_iff, true_and]
    exact goes_sequence each (unlabelled_replaced (parts (by rw [form]; decide))) agree
  | conditional =>
    simpa only [reduceCtorEq, false_imp_iff, true_and] using goes_conditional each replaced agree form
  | loop => simpa only [reduceCtorEq, false_imp_iff, true_and] using goes_loop each replaced agree form
  | doLoop => simpa only [reduceCtorEq, false_imp_iff, true_and] using goes_doLoop each replaced agree form
  | switch => simpa only [reduceCtorEq, false_imp_iff, true_and] using goes_switch each replaced agree form
  | guarded =>
    simpa only [reduceCtorEq, false_imp_iff, true_and] using goes_guarded each replaced agree form
  | headed =>
    simpa only [reduceCtorEq, false_imp_iff, true_and] using goes_withHeader each replaced agree form

end Statements

end OpenUltraSast.Cfg
