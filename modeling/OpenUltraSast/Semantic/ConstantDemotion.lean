import OpenUltraSast.Semantic.Taint

/-!
# What a demotion to constant rests on

A name is constant by its last recorded bind, wherever in the function that bind stands,
so a sink call may be demoted although an earlier bind of its argument was tainted.
-/

namespace OpenUltraSast.Semantic.Taint

open List

/-- The name may hold tainted data at a position: it is a parameter, or a bind recorded
before the position gave it a value with a source pattern or from a name that may hold
tainted data at that bind. -/
inductive MayHoldTaint (facts : FlowFacts) (function : FunctionIR) : String → Nat → Prop where
  | parameter {name : String} {position : Nat} (parameter : name ∈ function.params) :
      MayHoldTaint facts function name position
  | source {name : String} {position : Nat} {bind : Bind} (recorded : bind ∈ function.binds)
      (binds : bind.name = name) (earlier : bind.order < position)
      (source : (sourceIn bind.valueText facts).isSome) : MayHoldTaint facts function name position
  | derived {name used : String} {position : Nat} {bind : Bind} (recorded : bind ∈ function.binds)
      (binds : bind.name = name) (earlier : bind.order < position) (uses : used ∈ bind.names)
      (held : MayHoldTaint facts function used bind.order) : MayHoldTaint facts function name position

/-- No argument name of a call that is demoted as constant may hold tainted data. -/
def ConstantDemotionsSafe (path : String) (function : FunctionIR) (facts : FlowFacts) : Prop :=
  ∀ call ∈ function.calls, ∀ found,
    analyzeCall path call (settledEnv facts function) facts = .demotion found →
      found.dominatingFact = "constant" → ∀ argument ∈ arguments call,
        ∀ name ∈ argument.names, ¬ MayHoldTaint facts function name call.order

/-- A value without a source pattern is constant when it is a constant that uses no name,
or when it uses names and all of them are constant. -/
def ConstantValue (facts : FlowFacts) (bind : Bind) (known : String → Prop) : Prop :=
  sourceIn bind.valueText facts = none ∧
    if bind.isConstant && bind.names = [] then True
    else bind.names ≠ [] ∧ ∀ name ∈ bind.names, known name

def constantThrough (facts : FlowFacts) (known : String → Prop) : List Bind → String → Prop
  | [], name => known name
  | bind :: earlier, name =>
    if bind.name = name then ConstantValue facts bind (constantThrough facts known earlier)
    else constantThrough facts known earlier name

def SettlesConstant (facts : FlowFacts) (function : FunctionIR) : Nat → String → Prop
  | 0 => fun _ => False
  | rounds + 1 =>
    constantThrough facts (SettlesConstant facts function rounds) function.binds.reverse

/-- An argument that is constant by the last recorded binds of its names. -/
def ConstantArgument (facts : FlowFacts) (function : FunctionIR) (argument : Argument) : Prop :=
  sourceIn argument.text facts = none ∧ (argument.isConstant = true ∨
    argument.names ≠ [] ∧ ∀ name ∈ argument.names, SettlesConstant facts function 8 name)

section
variable (facts : FlowFacts)

def Env.constant (env : Env) (name : String) : Prop := env.states name = some .constant

theorem nameState_constant (env : Env) (name : String) :
    env.nameState name = .constant ↔ env.constant name := by
  simp only [Env.nameState, Env.constant]
  cases env.states name <;> simp

theorem all_constant_iff (env : Env) (names : List String) :
    (TaintState.tainted ∉ names.map env.nameState ∧
      (names.map env.nameState ≠ [] && (names.map env.nameState).all (· = .constant)) = true) ↔
      names ≠ [] ∧ ∀ name ∈ names, env.constant name := by
  simp only [Bool.and_eq_true, decide_eq_true_eq, all_eq_true, mem_map, ne_eq,
    map_eq_nil_iff, forall_exists_index, and_imp, forall_apply_eq_imp_iff₂,
    nameState_constant]
  constructor
  · rintro ⟨-, nonempty, all⟩
    exact ⟨nonempty, all⟩
  · rintro ⟨nonempty, all⟩
    refine ⟨?_, nonempty, all⟩
    rintro ⟨name, member, tainted⟩
    rw [(nameState_constant env name).mpr (all name member)] at tainted
    cases tainted

private theorem bindState_constant (bind : Bind) (env : Env) :
    (bindState bind env facts).1 = .constant ↔ ConstantValue facts bind env.constant := by
  simp only [ConstantValue]
  cases found : sourceIn bind.valueText facts with
  | some source => simp [bindState, found]
  | none =>
    by_cases plain : (bind.isConstant && bind.names = []) = true
    · simp only [bindState, found, plain, if_true, true_and]
    · have names := all_constant_iff env bind.names
      simp only [bindState, found, plain, true_and]
      by_cases tainted : TaintState.tainted ∈ bind.names.map env.nameState
      · simp only [tainted, not_true_eq_false, false_and, false_iff] at names
        simp [tainted, names]
      · simp only [tainted, not_false_eq_true, true_and] at names
        simp only [Bool.false_eq_true, if_false, tainted]
        rw [← names]
        split <;> simp_all

private theorem bindStep_states (env : Env) (changed : Bool) (bind : Bind) (name : String) :
    (bindStep facts (env, changed) bind).1.states name =
      if name = bind.name then some (bindState bind env facts).1 else env.states name := by
  simp only [bindStep]
  split
  · rfl
  next same =>
    simp only [Bool.or_eq_true, decide_eq_true_eq, not_or, not_not] at same
    split
    next eq => rw [eq, same.1]
    next => rfl

theorem foldl_bindStep_constant (binds : List Bind) (env : Env) (changed : Bool) (name : String) :
    (binds.foldl (bindStep facts) (env, changed)).1.constant name ↔
      constantThrough facts env.constant binds.reverse name := by
  induction binds using List.reverseRecOn generalizing name with
  | nil => rfl
  | append_singleton earlier bind ih =>
    rw [foldl_append, foldl_cons, foldl_nil, reverse_append,
      reverse_singleton, singleton_append, constantThrough, Env.constant, ← Prod.eta
      (earlier.foldl (bindStep facts) (env, changed)), bindStep_states]
    have known : (earlier.foldl (bindStep facts) (env, changed)).1.constant =
        constantThrough facts env.constant earlier.reverse := funext fun n => propext (ih n)
    by_cases eq : name = bind.name
    · rw [if_pos eq, if_pos eq.symm, Option.some.injEq, bindState_constant, known]
    · rw [if_neg eq, if_neg (Ne.symm eq)]
      exact ih name

def fullPass (binds : List Bind) (env : Env) : Env := (binds.foldl (bindStep facts) (env, false)).1

private theorem foldl_bindStep_flag (binds : List Bind) (env : Env) :
    (binds.foldl (bindStep facts) (env, true)).2 = true := by
  induction binds generalizing env with
  | nil => rfl
  | cons bind rest ih =>
    rw [foldl_cons]
    have flag : (bindStep facts (env, true) bind).2 = true := by
      simp only [bindStep]
      split <;> rfl
    rw [← Prod.eta (bindStep facts (env, true) bind), flag]
    exact ih _

private theorem foldl_bindStep_unchanged (binds : List Bind) (env : Env)
    (unchanged : (binds.foldl (bindStep facts) (env, false)).2 = false) :
    fullPass facts binds env = env := by
  induction binds with
  | nil => rfl
  | cons bind rest ih =>
    simp only [fullPass, foldl_cons] at *
    have step : bindStep facts (env, false) bind = (env, false) := by
      simp only [bindStep] at *
      split at unchanged
      · rw [foldl_bindStep_flag] at unchanged
        cases unchanged
      next same => rw [if_neg same]
    rw [step] at unchanged ⊢
    exact ih unchanged

/-- Stopping early loses nothing: the passes that are left would change nothing. -/
theorem passes_eq_iterate (binds : List Bind) (left : Nat) (env : Env) :
    passes facts binds left env = (fullPass facts binds)^[left] env := by
  induction left generalizing env with
  | zero => rfl
  | succ left ih =>
    rw [passes, Function.iterate_succ_apply]
    cases changed : (binds.foldl (bindStep facts) (env, false)).2 with
    | true =>
      rw [← Prod.eta (binds.foldl (bindStep facts) (env, false)), changed]
      exact ih _
    | false =>
      have fixed := foldl_bindStep_unchanged facts binds env changed
      rw [← Prod.eta (binds.foldl (bindStep facts) (env, false)), changed]
      simp only [Bool.false_eq_true, if_false]
      rw [fixed, Function.iterate_fixed fixed]
      exact fixed

theorem settles_iff (function : FunctionIR) (rounds : Nat) (name : String) :
    ((fullPass facts function.binds)^[rounds] (Env.start function)).constant name ↔
      SettlesConstant facts function rounds name := by
  induction rounds generalizing name with
  | zero =>
    simp only [Function.iterate_zero, id_eq, Env.constant, Env.start, SettlesConstant, iff_false]
    split <;> simp
  | succ rounds ih =>
    rw [Function.iterate_succ_apply', fullPass, foldl_bindStep_constant, SettlesConstant]
    rw [show ((fullPass facts function.binds)^[rounds] (Env.start function)).constant =
      SettlesConstant facts function rounds from funext fun n => propext (ih n)]

private theorem settledEnv_constant (function : FunctionIR) (name : String) :
    (settledEnv facts function).constant name ↔ SettlesConstant facts function 8 name := by
  rw [settledEnv, passes_eq_iterate]
  exact settles_iff facts function 8 name

private theorem argState_constant (function : FunctionIR) (argument : Argument) :
    argState argument (settledEnv facts function) facts = .constant ↔
      ConstantArgument facts function argument := by
  simp only [ConstantArgument, ← settledEnv_constant]
  have names := all_constant_iff (settledEnv facts function) argument.names
  simp only [argState]
  cases sourceIn argument.text facts with
  | some source => simp
  | none =>
    by_cases constant : argument.isConstant = true
    · simp [constant]
    · simp only [Option.isSome_none, Bool.false_eq_true, if_false, constant, true_and, false_or]
      by_cases tainted : TaintState.tainted ∈ argument.names.map (settledEnv facts function).nameState
      · simp only [tainted, not_true_eq_false, false_and, false_iff] at names
        simp [tainted, names]
      · simp only [tainted, not_false_eq_true, true_and] at names
        rw [if_neg tainted, ← names]
        split <;> simp_all

end

/-- A call is demoted with the fact `constant` exactly when it is a sink call and either
a sanitizer fact of that id speaks for it, or none does and all its arguments, at least
one, are constant. -/
theorem demoted_constant_iff (path : String) (function : FunctionIR) (facts : FlowFacts)
    (call : CallSite) :
    (∃ found, analyzeCall path call (settledEnv facts function) facts = .demotion found ∧
      found.dominatingFact = "constant") ↔
      (sinkFor call.name facts).isSome ∧ (sanitizerFor call facts = some "constant" ∨
        sanitizerFor call facts = none ∧ arguments call ≠ [] ∧
          ∀ argument ∈ arguments call, ConstantArgument facts function argument) := by
  simp only [analyzeCall]
  cases sinkFor call.name facts with
  | none => simp
  | some sink =>
    cases sanitizerFor call facts with
    | some sanitizer => simp
    | none =>
      -- The states of the arguments decide, so only they are left.
      have states : (∀ argument ∈ arguments call, ConstantArgument facts function argument) ↔
          ∀ state ∈ (arguments call).map (argState · (settledEnv facts function) facts),
            state = .constant := by
        simp only [forall_mem_map, argState_constant]
      simp only [Option.isSome_some, true_and, reduceCtorEq, false_or]
      have nonempty : arguments call ≠ [] ↔
          (arguments call).map (argState · (settledEnv facts function) facts) ≠ [] :=
        not_congr map_eq_nil_iff.symm
      rw [states, nonempty]
      generalize (arguments call).map (argState · (settledEnv facts function) facts) = argStates
      by_cases tainted : TaintState.tainted ∈ argStates
      · have mixed : ¬ ∀ state ∈ argStates, state = .constant :=
          fun all => by cases all _ tainted
        simp [tainted, mixed]
      · by_cases all : (argStates ≠ [] && argStates.all (· = .constant)) = true
        · rw [if_neg tainted, if_pos all]
          simp only [Bool.and_eq_true, decide_eq_true_eq, all_eq_true] at all
          simp only [CallVerdict.demotion.injEq, exists_eq_left', true_iff]
          exact all
        · rw [if_neg tainted, if_neg all]
          simpa using all

/-- The demotions of a function are safe exactly when every sink call with an argument
name that may hold tainted data has a sanitizer fact of another id than `constant`, or
no sanitizer fact and an argument that is not constant by the last recorded binds. -/
theorem constantDemotionsSafe_iff (path : String) (function : FunctionIR) (facts : FlowFacts) :
    ConstantDemotionsSafe path function facts ↔
      ∀ call ∈ function.calls, (sinkFor call.name facts).isSome →
        ∀ argument ∈ arguments call, ∀ name ∈ argument.names,
          MayHoldTaint facts function name call.order →
            (∃ sanitizer, sanitizerFor call facts = some sanitizer ∧ sanitizer ≠ "constant") ∨
            sanitizerFor call facts = none ∧
              ∃ other ∈ arguments call, ¬ ConstantArgument facts function other := by
  constructor
  · intro safe call member sink argument given name used held
    -- Otherwise the call is demoted as constant.
    by_contra demotable
    simp only [not_or, not_exists, not_and, not_not] at demotable
    obtain ⟨otherId, constants⟩ := demotable
    obtain ⟨found, verdict, fact⟩ := (demoted_constant_iff path function facts call).mpr
      ⟨sink, by
        cases speaks : sanitizerFor call facts with
        | some sanitizer => exact Or.inl (by rw [otherId sanitizer speaks])
        | none => exact Or.inr ⟨rfl, ne_nil_of_mem given, constants speaks⟩⟩
    exact safe call member found verdict fact argument given name used held
  · intro excused call member found verdict fact argument given name used held
    -- A demotion has one of the two reasons, and each is excluded.
    obtain ⟨sink, sanitized | ⟨none_, -, constants⟩⟩ :=
      (demoted_constant_iff path function facts call).mp ⟨found, verdict, fact⟩
    · rcases excused call member sink argument given name used held with ⟨_, other, ne⟩ | ⟨none_, -⟩
      · rw [sanitized] at other
        exact ne (Option.some.inj other).symm
      · rw [sanitized] at none_
        cases none_
    · rcases excused call member sink argument given name used held with
        ⟨_, other, -⟩ | ⟨-, other, given', varies⟩
      · rw [none_] at other
        cases other
      · exact varies (constants other given')

def executeQuery : CallSite where
  name := "cursor.execute"
  line := 3
  argTexts := ["q"]
  argIsConstant := [false]
  argNames := [["q"]]
  order := 60

def clearedAfterwards : FunctionIR where
  name := "view"
  params := []
  startLine := 1
  endLine := 4
  calls := [executeQuery]
  binds := [⟨"q", 2, "request.args['q']", false, ["request"], none, 40⟩,
    ⟨"q", 4, "None", true, [], none, 80⟩]

def requestFacts : FlowFacts where
  sources := [⟨"request-args", ["request.args"]⟩]
  sinks := [⟨"sql", "CWE-89", ["cursor.execute"]⟩]
  sanitizers := []

/-- The call is demoted although its argument holds the request's text. -/
theorem clearedAfterwards_unsafe : ¬ ConstantDemotionsSafe "a.py" clearedAfterwards requestFacts := by
  intro safe
  have demoted : analyzeCall "a.py" executeQuery
      (settledEnv requestFacts clearedAfterwards) requestFacts =
        .demotion ⟨"a.py", "sql", 3, "constant", [], "CWE-89"⟩ := by decide
  refine safe executeQuery (by decide) _ demoted rfl ⟨"q", false, ["q"]⟩ (by decide) "q" (by decide) ?_
  have recorded : (⟨"q", 2, "request.args['q']", false, ["request"], none, 40⟩ : Bind) ∈
      clearedAfterwards.binds := by decide
  exact MayHoldTaint.source recorded rfl (by decide) (by decide)

end OpenUltraSast.Semantic.Taint
