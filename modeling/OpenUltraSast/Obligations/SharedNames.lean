import OpenUltraSast.Obligations.Check

/-!
# Witnesses of functions that share a name

Witnesses are kept by path and function name, so a guard on one method counts for
every method of that name in the file. Two runs of the checker are compared: before
and after guards are added to one of the functions.
-/

namespace OpenUltraSast.Obligations

open Semantic List

/-- A dominance that judges a witness by what duplicates are told apart by. -/
def ReadsKey (dominance : Dominance) : Prop :=
  ∀ (w w' : Discharge) (operation : Operation) (record : Option PathRecord),
    w.key = w'.key → dominance w operation record = dominance w' operation record

private theorem cfgDominance_readsKey (graphs : CfgDominance) : ReadsKey graphs.dominates := by
  intro w w' operation record same
  cases w
  cases w'
  simp only [Discharge.key, DischargeKey.mk.injEq] at same
  obtain ⟨rfl, rfl, rfl, rfl, rfl, rfl, rfl⟩ := same
  rfl

variable {w w' : Discharge}

theorem validWitness_congr (same : w.key = w'.key) :
    validWitness w = validWitness w' := by
  simp only [Discharge.key, DischargeKey.mk.injEq] at same
  obtain ⟨-, -, -, kind, provenance, -, -⟩ := same
  simp only [validWitness, kind, provenance]

namespace CheckInput

private theorem relevant_congr (same : w.key = w'.key) (operation : Operation) :
    relevant w operation = relevant w' operation := by
  simp only [Discharge.key, DischargeKey.mk.injEq] at same
  obtain ⟨path, -, function, -, -, scope, -⟩ := same
  simp only [relevant, sameFunction, path, function, scope]

private theorem onCallerHop_congr {input : CheckInput} (reads : ReadsKey input.dominance)
    (same : w.key = w'.key) (record : Option PathRecord)
    (operation : Operation) :
    input.onCallerHop w record operation = input.onCallerHop w' record operation := by
  have fields := same
  simp only [Discharge.key, DischargeKey.mk.injEq] at fields
  obtain ⟨path, -, function, kind, -, scope, -⟩ := fields
  simp only [onCallerHop, Discharge.handler, path, function, kind, scope, reads w w' _ _ same]
  rfl

theorem key_mem_findDischarges (ir : FileIR) (facts : ObligationFacts) (flow : SemanticFacts)
    (lines : List String) (entries : List EntryPoint) (key : DischargeKey) :
    key ∈ (findDischarges ir facts flow lines entries).map Discharge.key ↔
      ir.parseOk ∧ ∃ function ∈ ir.functions, function.name ≠ "<module>" ∧
        key ∈ (functionDischarges ir.path facts flow lines entries function).map
          Discharge.key := by
  cases parsed : ir.parseOk with
  | false => simp [findDischarges, parsed]
  | true =>
    simp only [findDischarges, parsed, Bool.not_true, Bool.false_eq_true, if_false,
      Collections.key_mem_dedupeBy, map_flatMap, mem_flatMap, mem_filter,
      decide_eq_true_eq, true_and, and_assoc]

private theorem handler_of_mem_functionDischarges {path : String} {facts : ObligationFacts}
    {flow : SemanticFacts} {lines : List String} {entries : List EntryPoint}
    {function : FunctionIR} {w : Discharge}
    (member : w ∈ functionDischarges path facts flow lines entries function) :
    w.path = path ∧ w.function = function.name := by
  simp only [functionDischarges, mem_flatMap, mem_append] at member
  obtain ⟨fact, -, (decorator | call) | constraint⟩ := member
  · simp only [decoratorWitnesses, mem_filterMap] at decorator
    obtain ⟨name, -, found⟩ := decorator
    split at found
    · cases found
      exact ⟨rfl, rfl⟩
    · cases found
  · simp only [callWitnesses] at call
    split at call
    · cases call
    · obtain ⟨site, -, found⟩ := mem_filterMap.mp call
      split at found
      · cases found
        exact ⟨rfl, rfl⟩
      · cases found
  · simp only [constraintWitnesses] at constraint
    split at constraint
    · simp only [mem_filterMap, Option.map_eq_some_iff] at constraint
      obtain ⟨_, -, _, -, rfl⟩ := constraint
      exact ⟨rfl, rfl⟩
    · simp only [mem_map] at constraint
      obtain ⟨_, -, rfl⟩ := constraint
      exact ⟨rfl, rfl⟩
    · cases constraint

end CheckInput

/-- An edit that adds guards to one function of a file, read backwards one that takes
them away: `other` becomes `guarded`, which has the same name and more witnesses, the
framework declares `routers` for it, and `own` is a function that shares the name. The
operations, the routes and what is said of the witnesses that were there stay as they
are. -/
structure GuardEdit (before after : CheckInput) where
  path : String
  ir : FileIR
  lines : List String
  lines' : List String
  earlier : List (String × FileIR × List String)
  later : List (String × FileIR × List String)
  functionsBefore : List FunctionIR
  functionsAfter : List FunctionIR
  other : FunctionIR
  guarded : FunctionIR
  own : FunctionIR
  routers : List Discharge
  parsed : ir.parseOk
  functions : ir.functions = functionsBefore ++ other :: functionsAfter
  own_mem : own ∈ functionsBefore ++ functionsAfter
  other_name : other.name = own.name
  guarded_name : guarded.name = own.name
  named : own.name ≠ "<module>"
  before_irs : before.irs = earlier ++ (path, ir, lines) :: later
  after_eq : after = { before with
    irs := earlier ++
      (path, { ir with functions := functionsBefore ++ guarded :: functionsAfter }, lines') :: later
    extraWitnesses := before.extraWitnesses ++ routers
    dominance := after.dominance }
  routers_handler : ∀ w ∈ routers, w.path = ir.path ∧ w.function = own.name
  same_operations : after.operations = before.operations
  same_routes : ∀ operation ∈ before.operations, operation.path = ir.path →
    operation.function = own.name →
      routePath operation (after.linesOf operation.path) =
        routePath operation (before.linesOf operation.path)
  others : ∀ function ∈ functionsBefore ++ functionsAfter,
    functionDischarges ir.path (before.facts.forLanguage ir.language)
        (before.flowFacts.forLanguage ir.language) lines' before.entries function =
      functionDischarges ir.path (before.facts.forLanguage ir.language)
        (before.flowFacts.forLanguage ir.language) lines before.entries function
  kept : ∀ w ∈ functionDischarges ir.path (before.facts.forLanguage ir.language)
      (before.flowFacts.forLanguage ir.language) lines before.entries other,
    w ∈ functionDischarges ir.path (before.facts.forLanguage ir.language)
      (before.flowFacts.forLanguage ir.language) lines' before.entries guarded
  reads : ReadsKey after.dominance
  judged : ∀ w ∈ before.witnesses, ∀ operation ∈ before.operations, operation.path = ir.path →
    operation.function = own.name → ∀ record,
      after.dominance w operation record = before.dominance w operation record ∧
        after.onCallerHop w record operation = before.onCallerHop w record operation

variable {kind : DischargerKind}

namespace GuardEdit

variable {before after : CheckInput} (edit : GuardEdit before after)

def added : List Discharge :=
  functionDischarges edit.ir.path (before.facts.forLanguage edit.ir.language)
    (before.flowFacts.forLanguage edit.ir.language) edit.lines' before.entries edit.guarded ++
    edit.routers

/-- The operation lies in the function that the edit leaves alone. -/
def Inside (operation : Operation) : Prop :=
  operation ∈ before.operations ∧ operation.path = edit.ir.path ∧
    operation.function = edit.own.name ∧
    edit.own.startLine ≤ operation.line ∧ operation.line ≤ edit.own.endLine

def Brings (kind : DischargerKind) : Prop :=
  ∃ w ∈ edit.added, validWitness w ∧ w.kind = kind

/-- The edited function has a valid witness of the kind that dominates the operation. -/
def Guards (operation : Operation) (record : Option PathRecord) (kind : DischargerKind) : Prop :=
  ∃ w ∈ edit.added, validWitness w ∧ w.kind = kind ∧ after.dominance w operation record

section Shared
include edit

theorem entries_eq : after.entries = before.entries := by
  rw [edit.after_eq]

theorem facts_eq : after.facts = before.facts := by
  rw [edit.after_eq]

private theorem flowFacts_eq : after.flowFacts = before.flowFacts := by
  rw [edit.after_eq]

theorem policy_eq : after.policy = before.policy := by
  rw [edit.after_eq]

theorem assume_eq : after.assumeEntriesProtected = before.assumeEntriesProtected := by
  rw [edit.after_eq]

private theorem handlersOf_eq : after.handlersOf = before.handlersOf := by
  rw [edit.after_eq]

private theorem minSiblings_eq : after.minSiblings = before.minSiblings := by
  rw [edit.after_eq]

theorem extraWitnesses_eq : after.extraWitnesses = before.extraWitnesses ++ edit.routers :=
  congrArg CheckInput.extraWitnesses edit.after_eq

theorem reached_eq (paths : List PathRecord) : after.reached paths = before.reached paths := by
  simp only [CheckInput.reached, edit.same_operations, edit.entries_eq]

theorem handlerObligation_eq (operation : Operation) :
    after.handlerObligation operation = before.handlerObligation operation := by
  simp only [CheckInput.handlerObligation, edit.handlersOf_eq, edit.facts_eq]

end Shared

variable {operation : Operation} (inside : edit.Inside operation) (record : Option PathRecord)

include inside in
theorem routeOf_eq : after.routeOf operation record = before.routeOf operation record := by
  simp only [CheckInput.routeOf, CheckInput.entryOf, CheckInput.entryAt, edit.entries_eq,
    edit.assume_eq, edit.same_routes operation inside.1 inside.2.1 inside.2.2.1]

include inside in
theorem declaredAccess_eq :
    after.declaredAccess operation record = before.declaredAccess operation record := by
  simp only [CheckInput.declaredAccess, edit.policy_eq, edit.routeOf_eq inside]

include inside in
theorem waived_eq (kind : DischargerKind) :
    after.waived operation record kind = before.waived operation record kind := by
  simp only [CheckInput.waived, edit.declaredAccess_eq inside]

include inside in
theorem required_eq : after.required operation record = before.required operation record := by
  simp only [CheckInput.required, edit.waived_eq inside]

include inside in
theorem covered_eq (kind : DischargerKind) :
    after.covered operation record kind = before.covered operation record kind := by
  simp only [CheckInput.covered, CheckInput.resourceClause, CheckInput.routeClause,
    edit.policy_eq, edit.declaredAccess_eq inside]

include inside in
private theorem entryPremise_eq (kind : DischargerKind) (obligation : Bool) :
    after.entryPremise operation record kind obligation =
      before.entryPremise operation record kind obligation := by
  simp only [CheckInput.entryPremise, CheckInput.entryOf, CheckInput.entryAt, edit.entries_eq,
    edit.assume_eq, edit.declaredAccess_eq inside]

include inside in
theorem premiseLabel_eq (hasPaths : Bool) (kind : DischargerKind) (obligation : Bool) :
    after.premiseLabel operation record hasPaths kind obligation =
      before.premiseLabel operation record hasPaths kind obligation := by
  rw [CheckInput.premiseLabel, CheckInput.premiseLabel, edit.entryPremise_eq inside]

def witnessesOf (lines : List String) (function : FunctionIR) : List Discharge :=
  functionDischarges edit.ir.path (before.facts.forLanguage edit.ir.language)
    (before.flowFacts.forLanguage edit.ir.language) lines before.entries function

private theorem key_mem_file (key : DischargeKey) :
    (∃ function ∈ edit.functionsBefore ++ edit.guarded :: edit.functionsAfter,
      function.name ≠ "<module>" ∧ key ∈ (edit.witnessesOf edit.lines' function).map Discharge.key) ↔
    (∃ function ∈ edit.functionsBefore ++ edit.other :: edit.functionsAfter,
      function.name ≠ "<module>" ∧ key ∈ (edit.witnessesOf edit.lines function).map Discharge.key) ∨
    key ∈ (edit.witnessesOf edit.lines' edit.guarded).map Discharge.key := by
  constructor
  · rintro ⟨function, member, named, found⟩
    rcases mem_append.mp member with early | late
    · rw [witnessesOf, edit.others function (mem_append_left _ early)] at found
      exact Or.inl ⟨function, mem_append_left _ early, named, found⟩
    · rcases mem_cons.mp late with rfl | late
      · exact Or.inr found
      · rw [witnessesOf, edit.others function (mem_append_right _ late)] at found
        exact Or.inl
          ⟨function, mem_append_right _ (mem_cons_of_mem _ late), named, found⟩
  · have edited := mem_append_right edit.functionsBefore
      (mem_cons_self (a := edit.guarded) (l := edit.functionsAfter))
    rintro (⟨function, member, named, found⟩ | found)
    · rcases mem_append.mp member with early | late
      · rw [witnessesOf, ← edit.others function (mem_append_left _ early)] at found
        exact ⟨function, mem_append_left _ early, named, found⟩
      · rcases mem_cons.mp late with rfl | late
        · obtain ⟨w, mem, rfl⟩ := mem_map.mp found
          exact ⟨edit.guarded, edited, edit.guarded_name ▸ edit.named,
            mem_map_of_mem (edit.kept w mem)⟩
        · rw [witnessesOf, ← edit.others function (mem_append_right _ late)] at found
          exact ⟨function, mem_append_right _ (mem_cons_of_mem _ late), named, found⟩
    · exact ⟨edit.guarded, edited, edit.guarded_name ▸ edit.named, found⟩

private theorem key_mem_witnesses (key : DischargeKey) :
    key ∈ after.witnesses.map Discharge.key ↔
      key ∈ before.witnesses.map Discharge.key ∨ key ∈ edit.added.map Discharge.key := by
  have irs : after.irs = edit.earlier ++ (edit.path,
      { edit.ir with functions := edit.functionsBefore ++ edit.guarded :: edit.functionsAfter },
      edit.lines') :: edit.later := congrArg CheckInput.irs edit.after_eq
  have file := edit.key_mem_file key
  simp only [witnessesOf] at file
  simp only [CheckInput.witnesses, irs, edit.before_irs, edit.extraWitnesses_eq, edit.facts_eq,
    edit.flowFacts_eq, edit.entries_eq, flatMap_append, flatMap_cons, map_append,
    mem_append (a := key), CheckInput.key_mem_findDischarges, edit.parsed, edit.functions,
    true_and, file, added]
  constructor
  · rintro ((extra | router) | early | (file | new) | late)
    · exact Or.inl (Or.inl extra)
    · exact Or.inr (Or.inr router)
    · exact Or.inl (Or.inr (Or.inl early))
    · exact Or.inl (Or.inr (Or.inr (Or.inl file)))
    · exact Or.inr (Or.inl new)
    · exact Or.inl (Or.inr (Or.inr (Or.inr late)))
  · rintro ((extra | early | file | late) | new | router)
    · exact Or.inl (Or.inl extra)
    · exact Or.inr (Or.inl early)
    · exact Or.inr (Or.inr (Or.inl (Or.inl file)))
    · exact Or.inr (Or.inr (Or.inr late))
    · exact Or.inr (Or.inr (Or.inl (Or.inr new)))
    · exact Or.inl (Or.inr router)

theorem exists_witness_iff {P : Discharge → Prop}
    (shared : ∀ w w' : Discharge, w.key = w'.key → (P w ↔ P w')) :
    (∃ w ∈ after.witnesses, P w) ↔
      (∃ w ∈ before.witnesses, P w) ∨ ∃ w ∈ edit.added, P w := by
  have by_key : ∀ witnesses : List Discharge,
      (∃ w ∈ witnesses, P w) ↔
        ∃ key ∈ witnesses.map Discharge.key, ∃ w, w.key = key ∧ P w := by
    intro witnesses
    constructor
    · rintro ⟨w, member, holds⟩
      exact ⟨w.key, mem_map_of_mem member, w, rfl, holds⟩
    · rintro ⟨_, member, w, same, holds⟩
      obtain ⟨w', member', rfl⟩ := mem_map.mp member
      exact ⟨w', member', (shared w w' same).mp holds⟩
  rw [by_key, by_key before.witnesses, by_key edit.added]
  simp only [edit.key_mem_witnesses, or_and_right, exists_or]

theorem handler_of_mem_added {w : Discharge} (member : w ∈ edit.added) :
    w.path = edit.ir.path ∧ w.function = edit.own.name := by
  rcases mem_append.mp member with own | router
  · have found := CheckInput.handler_of_mem_functionDischarges own
    rw [edit.guarded_name] at found
    exact found
  · exact edit.routers_handler w router

theorem mem_validKinds_after (handler : String) (kind : DischargerKind) :
    kind ∈ validKinds after.witnesses handler ↔
      kind ∈ validKinds before.witnesses handler ∨
        handler = nodeName edit.ir.path edit.own.name ∧ edit.Brings kind := by
  simp only [mem_validKinds]
  rw [edit.exists_witness_iff (P := fun w => validWitness w ∧ w.handler = handler ∧ w.kind = kind)]
  · refine or_congr Iff.rfl ?_
    constructor
    · rintro ⟨w, member, valid, rfl, rfl⟩
      obtain ⟨path, function⟩ := edit.handler_of_mem_added member
      exact ⟨by rw [Discharge.handler, path, function], w, member, valid, rfl⟩
    · rintro ⟨rfl, w, member, valid, rfl⟩
      obtain ⟨path, function⟩ := edit.handler_of_mem_added member
      exact ⟨w, member, valid, by rw [Discharge.handler, path, function], rfl⟩
  · intro w w' same
    rw [validWitness_congr same]
    simp only [Discharge.key, DischargeKey.mk.injEq] at same
    obtain ⟨path, -, function, kind, -, -, -⟩ := same
    simp only [Discharge.handler, path, function, kind]

include inside in
theorem anomalyAt_after (kind : DischargerKind) :
    (after.anomalyAt operation.handler kind).isSome ↔
      (before.anomalyAt operation.handler kind).isSome ∧ ¬ edit.Brings kind := by
  have shared : operation.handler = nodeName edit.ir.path edit.own.name := by
    rw [Operation.handler, inside.2.1, inside.2.2.1]
  simp only [CheckInput.anomalyAt_isSome, CheckInput.anomalies, CheckInput.siblingSets,
    exists_anomaly_iff, edit.entries_eq, edit.same_operations, edit.minSiblings_eq, Anomalous,
    edit.mem_validKinds_after]
  by_cases brings : edit.Brings kind
  · simp [brings, shared]
  · -- No handler gains the kind, so the siblings that discharge it are the same.
    have siblings : ∀ key, dischargers before.entries before.operations after.witnesses key kind =
        dischargers before.entries before.operations before.witnesses key kind := by
      intro key
      simp only [dischargers, edit.mem_validKinds_after, brings, and_false, or_false]
    simp only [siblings, brings, and_false, or_false, not_false_eq_true, and_true]

include inside in
theorem discharged_after (kind : DischargerKind) :
    after.Discharged operation record kind ↔
      before.Discharged operation record kind ∨ edit.Guards operation record kind := by
  have judged := fun w member =>
    edit.judged w member operation inside.1 inside.2.1 inside.2.2.1 record
  simp only [CheckInput.Discharged]
  rw [edit.exists_witness_iff]
  · refine or_congr ?_ ?_
    · constructor
      · rintro ⟨w, member, same, named, valid, dominates⟩
        rw [(judged w member).2, edit.assume_eq] at same
        rw [(judged w member).1] at dominates
        exact ⟨w, member, same, named, valid, dominates⟩
      · rintro ⟨w, member, same, named, valid, dominates⟩
        rw [← (judged w member).2, ← edit.assume_eq] at same
        rw [← (judged w member).1] at dominates
        exact ⟨w, member, same, named, valid, dominates⟩
    · constructor
      · rintro ⟨w, member, -, named, valid, dominates⟩
        exact ⟨w, member, valid, named, dominates⟩
      · rintro ⟨w, member, valid, named, dominates⟩
        obtain ⟨path, function⟩ := edit.handler_of_mem_added member
        refine ⟨w, member, Or.inl ?_, named, valid, dominates⟩
        simp [CheckInput.relevant, sameFunction, path, function, inside.2.1, inside.2.2.1]
  · intro w w' same
    rw [CheckInput.relevant_congr same, CheckInput.onCallerHop_congr edit.reads same,
      validWitness_congr same, edit.reads w w' _ _ same]
    simp only [Discharge.key, DischargeKey.mk.injEq] at same
    rw [same.2.2.2.1]

theorem brings_of_guards (guards : edit.Guards operation record kind) : edit.Brings kind := by
  obtain ⟨w, member, valid, named, -⟩ := guards
  exact ⟨w, member, valid, named⟩

include inside in
private theorem mem_practicedKinds_after (kind : DischargerKind) :
    kind ∈ after.practicedKinds operation record ↔
      kind ∈ before.practicedKinds operation record ∧ ¬ edit.Brings kind := by
  simp only [CheckInput.mem_practicedKinds, CheckInput.mem_dominatedKinds,
    edit.anomalyAt_after inside, edit.discharged_after inside, edit.waived_eq inside]
  constructor
  · rintro ⟨⟨norm, unbrought⟩, beyond, open_, obliged⟩
    exact ⟨⟨norm, beyond, fun h => open_ (Or.inl h), obliged⟩, unbrought⟩
  · rintro ⟨⟨norm, beyond, open_, obliged⟩, unbrought⟩
    refine ⟨⟨norm, unbrought⟩, beyond, ?_, obliged⟩
    rintro (discharged | guards)
    · exact open_ discharged
    · exact unbrought (edit.brings_of_guards record guards)

variable {hasPaths obligation : Bool}

include inside in
theorem label_after_of_unbrought
    (keeps : (before.anomalyAt operation.handler kind).isSome → ¬ edit.Brings kind) :
    after.label operation record hasPaths kind obligation =
      before.label operation record hasPaths kind obligation := by
  have norm : (after.anomalyAt operation.handler kind).isSome =
      (before.anomalyAt operation.handler kind).isSome := by
    rw [Bool.eq_iff_iff, edit.anomalyAt_after inside]
    exact and_iff_left_of_imp keeps
  rw [CheckInput.label_eq, CheckInput.label_eq, edit.covered_eq inside,
    edit.premiseLabel_eq inside, norm]

private theorem premiseLabel_ne_norm (input : CheckInput) (hasPaths obligation : Bool)
    (kind : DischargerKind) :
    input.premiseLabel operation record hasPaths kind obligation ≠ some .consistencyViolation := by
  rw [CheckInput.premiseLabel]
  split
  · simp
  · split <;> simp

include inside in
theorem label_after_eq_iff_covered
    (norm : (before.anomalyAt operation.handler kind).isSome) (brings : edit.Brings kind) :
    after.label operation record hasPaths kind obligation =
        before.label operation record hasPaths kind obligation ↔
      before.covered operation record kind := by
  have gone : (after.anomalyAt operation.handler kind).isSome = false := by
    rw [Bool.eq_false_iff]
    intro norm'
    exact ((edit.anomalyAt_after inside kind).mp norm').2 brings
  rw [CheckInput.label_eq, CheckInput.label_eq, edit.covered_eq inside,
    edit.premiseLabel_eq inside, norm, gone]
  cases before.covered operation record kind with
  | true => simp
  | false => simpa using premiseLabel_ne_norm record before hasPaths obligation kind

theorem requires_of_mem_missingKinds (input : CheckInput)
    (missing : kind ∈ input.missingKinds operation record) : kind ∈ operation.requires := by
  have required : kind ∈ input.required operation record := by
    simp only [CheckInput.missingKinds] at missing
    split at missing
    · exact (mem_filter.mp missing).1
    · split at missing
      · cases missing
      · simp only [Option.mem_toList, CheckInput.pickMissing, Option.or_eq_some_iff] at missing
        rcases missing with found | ⟨-, head⟩
        · exact mem_of_find?_eq_some found
        · exact mem_of_mem_head? head
  exact (mem_filter.mp required).1

theorem mem_missing_iff (input : CheckInput) (handler : String)
    (required dominated : List DischargerKind) (kind : DischargerKind) :
    kind ∈ (if required.any (· ∈ dominated) then []
      else (input.pickMissing handler required).toList) ↔
    (∀ k ∈ required, k ∉ dominated) ∧ input.pickMissing handler required = some kind := by
  split
  next some_dominates =>
    obtain ⟨k, required, dominates⟩ := any_eq_true.mp some_dominates
    constructor
    · intro member
      cases member
    · rintro ⟨open_, -⟩
      exact absurd (by simpa using dominates) (open_ k required)
  next none_dominates => simpa using fun _ => none_dominates

variable {required : List DischargerKind}

private theorem pickMissing_isSome (input : CheckInput) (handler : String)
    (nonempty : required ≠ []) :
    (input.pickMissing handler required).isSome := by
  cases required with
  | nil => exact absurd rfl nonempty
  | cons kind rest => simp [CheckInput.pickMissing]

private theorem required_ne_nil_of_pickMissing (input : CheckInput) (handler : String)
    (picked : input.pickMissing handler required = some kind) :
    required ≠ [] := by
  rintro rfl
  cases picked

/-- The added guards leave the verdict on an operation of the other function alone:
they bring no kind that the siblings practice beyond the requirements, they dominate no
open obligation that would be reported, and where they take the norm of a reported kind
away, a declared clause gives the same label. -/
structure Silent (hasPaths : Bool) (operation : Operation) (record : Option PathRecord) :
    Prop where
  practiced : ∀ kind ∈ before.practicedKinds operation record, ¬ edit.Brings kind
  handler : before.handlerObligation operation →
    ∀ kind ∈ before.required operation record, ¬ before.Discharged operation record kind →
      (edit.Guards operation record kind →
        before.label operation record hasPaths kind true = none) ∧
      (¬ edit.Guards operation record kind → edit.Brings kind →
        (before.anomalyAt operation.handler kind).isSome → before.covered operation record kind)
  operation : ¬ before.handlerObligation operation →
    (∀ kind ∈ before.required operation record, ¬ before.Discharged operation record kind) →
    ∀ missing, before.pickMissing operation.handler (before.required operation record) =
        some missing →
      ((∃ kind ∈ before.required operation record, edit.Guards operation record kind) →
        before.label operation record hasPaths missing false = none) ∧
      ((∀ kind ∈ before.required operation record, ¬ edit.Guards operation record kind) →
        (before.anomalyAt operation.handler missing).isSome → edit.Brings missing →
          (before.required operation record).head? = some missing ∧
          before.covered operation record missing ∧
          ∀ kind ∈ before.required operation record,
            (before.anomalyAt operation.handler kind).isSome → edit.Brings kind)

def KeepsRequired (hasPaths : Bool) (operation : Operation) (record : Option PathRecord) : Prop :=
  ∀ kind label,
    (kind ∈ after.missingKinds operation record ∧ after.label operation record hasPaths kind
      (before.handlerObligation operation) = some label) ↔
    (kind ∈ before.missingKinds operation record ∧ before.label operation record hasPaths kind
      (before.handlerObligation operation) = some label)

include inside in
/-- An edit is silent exactly where it brings no practised kind and keeps what is required. -/
theorem finds_eq_iff (hasPaths : Bool) :
    (∀ kind label, after.Finds operation record hasPaths kind label ↔
      before.Finds operation record hasPaths kind label) ↔
    (∀ kind ∈ before.practicedKinds operation record, ¬ edit.Brings kind) ∧
      @KeepsRequired before after hasPaths operation record := by
  have beyond : ∀ {input : CheckInput} {kind : DischargerKind},
      kind ∈ input.practicedKinds operation record → kind ∉ operation.requires :=
    fun practiced => ((CheckInput.mem_practicedKinds _ _ _ _).mp practiced).2.1
  have practiced_after := edit.mem_practicedKinds_after inside record
  simp only [CheckInput.finds_iff, edit.handlerObligation_eq, KeepsRequired]
  constructor
  · intro same
    constructor
    · -- a finding for a practiced kind that vanishes can only have been the practiced one
      intro kind practiced brings
      obtain ⟨label, labelled⟩ := Option.isSome_iff_exists.mp
        (before.label_isSome_of_anomaly operation record hasPaths false
          ((CheckInput.mem_practicedKinds _ _ _ _).mp practiced).1)
      rcases (same kind label).mpr (Or.inr ⟨practiced, labelled⟩) with ⟨missing, -⟩ | ⟨after_, -⟩
      · exact beyond practiced (requires_of_mem_missingKinds record after missing)
      · exact ((practiced_after kind).mp after_).2 brings
    · -- a practiced finding never stands for a required kind, so the required ones agree alone
      intro kind label
      constructor
      · rintro ⟨missing, labelled⟩
        rcases (same kind label).mp (Or.inl ⟨missing, labelled⟩) with found | ⟨practiced, -⟩
        · exact found
        · exact absurd (requires_of_mem_missingKinds record after missing) (beyond practiced)
      · rintro ⟨missing, labelled⟩
        rcases (same kind label).mpr (Or.inl ⟨missing, labelled⟩) with found | ⟨practiced, -⟩
        · exact found
        · exact absurd (requires_of_mem_missingKinds record before missing) (beyond practiced)
  · -- a kind nobody brings keeps its practice and its label
    rintro ⟨unbrought, required⟩ kind label
    refine or_congr (required kind label) ?_
    rw [practiced_after]
    constructor
    · rintro ⟨⟨practiced, free⟩, labelled⟩
      rw [edit.label_after_of_unbrought inside record fun _ => free] at labelled
      exact ⟨practiced, labelled⟩
    · rintro ⟨practiced, labelled⟩
      rw [← edit.label_after_of_unbrought inside record fun _ => unbrought kind practiced]
        at labelled
      exact ⟨⟨practiced, unbrought kind practiced⟩, labelled⟩

include inside in
theorem keepsRequired_handler (hasPaths : Bool) (handler : before.handlerObligation operation) :
    @KeepsRequired before after hasPaths operation record ↔
      ∀ kind ∈ before.required operation record, ¬ before.Discharged operation record kind →
        (edit.Guards operation record kind →
          before.label operation record hasPaths kind true = none) ∧
        (¬ edit.Guards operation record kind → edit.Brings kind →
          (before.anomalyAt operation.handler kind).isSome →
            before.covered operation record kind) := by
  -- of a handler every kind that is required and not discharged is missing
  have missing_before : ∀ kind, kind ∈ before.missingKinds operation record ↔
      kind ∈ before.required operation record ∧ ¬ before.Discharged operation record kind := by
    intro kind
    simp [CheckInput.missingKinds, handler, CheckInput.mem_dominatedKinds]
  -- the edit discharges the kinds whose guard it brings
  have missing_after : ∀ kind, kind ∈ after.missingKinds operation record ↔
      kind ∈ before.missingKinds operation record ∧ ¬ edit.Guards operation record kind := by
    intro kind
    simp [CheckInput.missingKinds, handler, edit.handlerObligation_eq, edit.required_eq inside,
      CheckInput.mem_dominatedKinds, edit.discharged_after inside, and_assoc]
  simp only [KeepsRequired, handler, missing_after]
  constructor
  · intro same kind required open_
    have missing := (missing_before kind).mpr ⟨required, open_⟩
    constructor
    · intro guards
      rw [Option.eq_none_iff_forall_ne_some]
      intro label labelled
      -- a guarded kind loses its finding, so it must have had none
      exact ((same kind label).mpr ⟨missing, labelled⟩).1.2 guards
    · intro unguarded brings norm
      -- an anomaly that the edit brings to the norm keeps its label just where it was covered
      have kept : after.label operation record hasPaths kind true =
          before.label operation record hasPaths kind true ↔ before.covered operation record kind :=
        edit.label_after_eq_iff_covered inside record norm brings
      rw [← kept]
      obtain ⟨label, labelled⟩ := Option.isSome_iff_exists.mp
        (before.label_isSome_of_anomaly operation record hasPaths true norm)
      rw [((same kind label).mpr ⟨missing, labelled⟩).2, labelled]
  · intro silent kind label
    -- the label of an open kind stays where no guard dominates the operation
    have labels : kind ∈ before.missingKinds operation record → ¬ edit.Guards operation record kind →
        after.label operation record hasPaths kind true =
          before.label operation record hasPaths kind true := by
      intro missing unguarded
      obtain ⟨required, open_⟩ := (missing_before kind).mp missing
      by_cases changed : (before.anomalyAt operation.handler kind).isSome ∧ edit.Brings kind
      · rw [edit.label_after_eq_iff_covered inside record changed.1 changed.2]
        exact (silent kind required open_).2 unguarded changed.2 changed.1
      · exact edit.label_after_of_unbrought inside record (not_and.mp changed)
    constructor
    · rintro ⟨⟨missing, unguarded⟩, labelled⟩
      exact ⟨missing, labels missing unguarded ▸ labelled⟩
    · rintro ⟨missing, labelled⟩
      obtain ⟨required, open_⟩ := (missing_before kind).mp missing
      have unguarded : ¬ edit.Guards operation record kind := by
        intro guards
        rw [(silent kind required open_).1 guards] at labelled
        cases labelled
      exact ⟨⟨missing, unguarded⟩, (labels missing unguarded).trans labelled⟩

theorem find?_eq_some_of_imp {α : Type} {p q : α → Bool} (imp : ∀ x, q x → p x) {l : List α}
    {x : α} (found : l.find? p = some x) (holds : q x) : l.find? q = some x := by
  induction l with
  | nil => cases found
  | cons a rest ih =>
    rw [List.find?_cons] at found ⊢
    cases hp : p a with
    | true =>
      rw [hp] at found
      cases found
      rw [holds]
    | false =>
      rw [hp] at found
      have hq : q a = false := Bool.eq_false_iff.mpr fun h => by simp [imp a h] at hp
      rw [hq]
      exact ih found

include inside in
private theorem pickMissing_after {missing : DischargerKind}
    (picked : before.pickMissing operation.handler (before.required operation record) =
      some missing)
    (keeps : (before.anomalyAt operation.handler missing).isSome → ¬ edit.Brings missing) :
    after.pickMissing operation.handler (before.required operation record) = some missing := by
  rw [CheckInput.pickMissing, Option.or_eq_some_iff] at picked ⊢
  rcases picked with found | ⟨absent, head⟩
  · refine Or.inl (find?_eq_some_of_imp (fun kind norm => ?_) found ?_)
    · exact ((edit.anomalyAt_after inside kind).mp norm).1
    · have norm := List.find?_some found
      exact (edit.anomalyAt_after inside missing).mpr ⟨norm, keeps norm⟩
  · refine Or.inr ⟨List.find?_eq_none.mpr fun kind member norm => ?_, head⟩
    exact List.find?_eq_none.mp absent kind member ((edit.anomalyAt_after inside kind).mp norm).1

include inside in
theorem keepsRequired_operation (hasPaths : Bool)
    (plain : ¬ before.handlerObligation operation) :
    @KeepsRequired before after hasPaths operation record ↔
      ((∀ kind ∈ before.required operation record, ¬ before.Discharged operation record kind) →
      ∀ missing, before.pickMissing operation.handler (before.required operation record) =
          some missing →
        ((∃ kind ∈ before.required operation record, edit.Guards operation record kind) →
          before.label operation record hasPaths missing false = none) ∧
        ((∀ kind ∈ before.required operation record, ¬ edit.Guards operation record kind) →
          (before.anomalyAt operation.handler missing).isSome → edit.Brings missing →
            (before.required operation record).head? = some missing ∧
            before.covered operation record missing ∧
            ∀ kind ∈ before.required operation record,
              (before.anomalyAt operation.handler kind).isSome → edit.Brings kind)) := by
  have missing_before : ∀ kind, kind ∈ before.missingKinds operation record ↔
      (∀ k ∈ before.required operation record, ¬ before.Discharged operation record k) ∧
        before.pickMissing operation.handler (before.required operation record) = some kind := by
    intro kind
    rw [CheckInput.missingKinds, if_neg plain, mem_missing_iff]
    simp [CheckInput.mem_dominatedKinds]
  have missing_after : ∀ kind, kind ∈ after.missingKinds operation record ↔
      (∀ k ∈ before.required operation record, ¬ before.Discharged operation record k) ∧
      (∀ k ∈ before.required operation record, ¬ edit.Guards operation record k) ∧
        after.pickMissing operation.handler (before.required operation record) = some kind := by
    intro kind
    rw [CheckInput.missingKinds, if_neg (edit.handlerObligation_eq operation ▸ plain),
      mem_missing_iff]
    simp [CheckInput.mem_dominatedKinds, edit.discharged_after inside, edit.required_eq inside,
      forall_and, and_assoc]
  have plain' : before.handlerObligation operation = false := by simpa using plain
  simp only [KeepsRequired, plain', missing_before, missing_after]
  constructor
  · intro same open_ missing picked
    constructor
    · rintro ⟨kind, required, guards⟩
      rw [Option.eq_none_iff_forall_ne_some]
      intro label labelled
      exact ((same missing label).mpr ⟨⟨open_, picked⟩, labelled⟩).1.2.1 kind required guards
    · intro unguarded norm brings
      obtain ⟨label, labelled⟩ := Option.isSome_iff_exists.mp
        (before.label_isSome_of_anomaly operation record hasPaths false norm)
      obtain ⟨⟨-, -, picked'⟩, labelled'⟩ := (same missing label).mpr ⟨⟨open_, picked⟩, labelled⟩
      have covered := (edit.label_after_eq_iff_covered inside record norm brings).mp
        (labelled'.trans labelled.symm)
      rw [CheckInput.pickMissing, Option.or_eq_some_iff] at picked'
      rcases picked' with found | ⟨absent, head⟩
      · have norm' := List.find?_some found
        exact absurd brings ((edit.anomalyAt_after inside missing).mp norm').2
      · refine ⟨head, covered, fun kind required norm' => ?_⟩
        by_contra free
        exact List.find?_eq_none.mp absent kind required
          ((edit.anomalyAt_after inside kind).mpr ⟨norm', free⟩)
  · intro silent
    -- The picked kind and its label stay where nothing guards the operation.
    have carry : (∀ k ∈ before.required operation record,
          ¬ before.Discharged operation record k) →
        (∀ k ∈ before.required operation record, ¬ edit.Guards operation record k) →
        ∀ missing, before.pickMissing operation.handler (before.required operation record) =
            some missing →
          after.pickMissing operation.handler (before.required operation record) = some missing ∧
          after.label operation record hasPaths missing false =
            before.label operation record hasPaths missing false := by
      intro open_ unguarded missing picked
      by_cases changed : (before.anomalyAt operation.handler missing).isSome ∧ edit.Brings missing
      · obtain ⟨head, covered, all⟩ := (silent open_ missing picked).2 unguarded changed.1 changed.2
        refine ⟨?_, (edit.label_after_eq_iff_covered inside record changed.1 changed.2).mpr covered⟩
        rw [CheckInput.pickMissing, Option.or_eq_some_iff]
        refine Or.inr ⟨List.find?_eq_none.mpr fun kind required norm => ?_, head⟩
        obtain ⟨norm', free⟩ := (edit.anomalyAt_after inside kind).mp norm
        exact free (all kind required norm')
      · exact ⟨edit.pickMissing_after inside record picked (not_and.mp changed),
          edit.label_after_of_unbrought inside record (not_and.mp changed)⟩
    intro kind label
    constructor
    · rintro ⟨⟨open_, unguarded, picked'⟩, labelled⟩
      have some_picked : (before.pickMissing operation.handler
          (before.required operation record)).isSome :=
        pickMissing_isSome before _ (required_ne_nil_of_pickMissing after _ picked')
      obtain ⟨missing, picked⟩ := Option.isSome_iff_exists.mp some_picked
      obtain ⟨picked'', labels⟩ := carry open_ unguarded missing picked
      obtain rfl := Option.some.inj (picked''.symm.trans picked')
      exact ⟨⟨open_, picked⟩, labels ▸ labelled⟩
    · rintro ⟨⟨open_, picked⟩, labelled⟩
      have unguarded : ∀ k ∈ before.required operation record,
          ¬ edit.Guards operation record k := by
        intro k required guards
        rw [(silent open_ kind picked).1 ⟨k, required, guards⟩] at labelled
        cases labelled
      obtain ⟨picked', labels⟩ := carry open_ unguarded kind picked
      exact ⟨⟨open_, unguarded, picked'⟩, labels ▸ labelled⟩

include inside in
theorem finds_eq_iff_silent (hasPaths : Bool) :
    (∀ kind label, after.Finds operation record hasPaths kind label ↔
      before.Finds operation record hasPaths kind label) ↔
    edit.Silent hasPaths operation record := by
  rw [edit.finds_eq_iff inside]
  constructor
  · rintro ⟨practiced, required⟩
    refine ⟨practiced, fun handler => ?_, fun plain => ?_⟩
    · exact (edit.keepsRequired_handler inside record hasPaths handler).mp required
    · exact (edit.keepsRequired_operation inside record hasPaths plain).mp required
  · rintro ⟨practiced, handler, plain⟩
    refine ⟨practiced, ?_⟩
    by_cases kind : before.handlerObligation operation
    · exact (edit.keepsRequired_handler inside record hasPaths kind).mpr (handler kind)
    · exact (edit.keepsRequired_operation inside record hasPaths kind).mpr (plain kind)

/-- The verdict on every operation of the other function is the same before and after. -/
def KeepsVerdict (paths : List PathRecord) : Prop :=
  ∀ operation, edit.Inside operation → ∀ kind label,
    after.Verdict operation paths kind label ↔ before.Verdict operation paths kind label

/-- Guards added to, or taken from, a function leave the verdict on the operations of
another function of its name alone exactly when they are silent for each of those that
is reached. -/
theorem keepsVerdict_iff_silent (paths : List PathRecord) :
    edit.KeepsVerdict paths ↔
      ∀ operation record, edit.Inside operation → (operation, record) ∈ before.reached paths →
        edit.Silent (paths ≠ []) operation record := by
  have verdict : ∀ {operation record}, (operation, record) ∈ before.reached paths →
      ((∀ kind label, after.Verdict operation paths kind label ↔
          before.Verdict operation paths kind label) ↔
        ∀ kind label, after.Finds operation record (paths ≠ []) kind label ↔
          before.Finds operation record (paths ≠ []) kind label) := by
    intro operation record reached
    simp only [CheckInput.verdict_iff_finds reached,
      CheckInput.verdict_iff_finds ((edit.reached_eq paths).symm ▸ reached)]
  constructor
  · intro keeps operation record inside reached
    rw [← edit.finds_eq_iff_silent inside, ← verdict reached]
    exact keeps operation inside
  · intro silent operation inside
    by_cases reached : ∃ record, (operation, record) ∈ before.reached paths
    · obtain ⟨record, reached⟩ := reached
      rw [verdict reached, edit.finds_eq_iff_silent inside]
      exact silent operation record inside reached
    · intro kind label
      simp only [CheckInput.Verdict, edit.reached_eq]
      constructor <;> rintro ⟨record, found, -⟩ <;> exact absurd ⟨record, found⟩ reached

end GuardEdit

/-- Two classes with a method `get`: the first reads a book, and only the second is
edited. The text above the second method is a parameter. -/
def twoMethods (above : String) : CheckInput where
  irs := [("a.py", ⟨"a.py", "python",
    [⟨"get", ["self"], 2, 3, [{ name := "Book.get", line := 3 }], []⟩,
      ⟨"get", ["self"], 6, 7, [], []⟩], true, none⟩,
    ["class Open:", "    def get(self):", "        return Book.get(self.id)", "class Closed:",
      above, "    def get(self):", "        pass"])]
  entries := [⟨"a.py", some "get", "/books", "route", .authenticated, []⟩]
  facts := ⟨[⟨"orm-get", .protectedRead, "python", ["Book.get"], none, [.pathGuard], .high, [], none,
      []⟩],
    [{ id := "login", kind := .pathGuard, language := "python", decorators := ["login_required"] }]⟩
  flowFacts := ⟨[]⟩
  policy := none
  dominance := CfgDominance.dominates ⟨fun _ => [], fun _ _ => []⟩
  storeShapes := []
  minSiblings := 3
  handlerMatches := fun _ _ => false

def openRead : Operation :=
  ⟨"a.py", 3, "get", .protectedRead, "orm-get", some "book", [.pathGuard]⟩

def loginOnClosed : GuardEdit (twoMethods "    # closed") (twoMethods "    @login_required") where
  path := "a.py"
  ir := ⟨"a.py", "python", [⟨"get", ["self"], 2, 3, [{ name := "Book.get", line := 3 }], []⟩,
    ⟨"get", ["self"], 6, 7, [], []⟩], true, none⟩
  lines := ["class Open:", "    def get(self):", "        return Book.get(self.id)",
    "class Closed:", "    # closed", "    def get(self):", "        pass"]
  lines' := ["class Open:", "    def get(self):", "        return Book.get(self.id)",
    "class Closed:", "    @login_required", "    def get(self):", "        pass"]
  earlier := []
  later := []
  functionsBefore := [⟨"get", ["self"], 2, 3, [{ name := "Book.get", line := 3 }], []⟩]
  functionsAfter := []
  other := ⟨"get", ["self"], 6, 7, [], []⟩
  guarded := ⟨"get", ["self"], 6, 7, [], []⟩
  own := ⟨"get", ["self"], 2, 3, [{ name := "Book.get", line := 3 }], []⟩
  routers := []
  parsed := rfl
  functions := rfl
  own_mem := by decide
  other_name := rfl
  guarded_name := rfl
  named := by decide
  before_irs := rfl
  after_eq := rfl
  routers_handler := by decide
  same_operations := by decide
  same_routes := by decide
  others := by decide
  kept := by decide
  reads := cfgDominance_readsKey ⟨fun _ => [], fun _ _ => []⟩
  judged := by
    have none_ : (twoMethods "    # closed").witnesses = [] := by decide
    rw [none_]
    intro w member
    cases member

/-- The decorator on the second method silences the report on the first. -/
theorem login_on_other_method_changes_verdict : ¬ loginOnClosed.KeepsVerdict [] := by
  intro keeps
  have inside : loginOnClosed.Inside openRead := by
    refine ⟨by decide, rfl, rfl, ?_, ?_⟩ <;> decide
  have reached : (openRead, none) ∈ (twoMethods "    # closed").reached [] := by decide
  have found : (twoMethods "    # closed").Verdict openRead [] .pathGuard .functionLocal := by
    rw [CheckInput.verdict_iff_finds reached, CheckInput.finds_iff]
    exact Or.inl ⟨by decide, by decide⟩
  have reached' : (openRead, none) ∈ (twoMethods "    @login_required").reached [] := by decide
  have lost := (keeps openRead inside _ _).mpr found
  rw [CheckInput.verdict_iff_finds reached', CheckInput.finds_iff] at lost
  rcases lost with ⟨missing, -⟩ | ⟨practiced, -⟩
  · revert missing
    decide
  · revert practiced
    decide

end OpenUltraSast.Obligations
