import OpenUltraSast.Push.Comparison

/-!
# What a base that was read less can change

A base scan may have answered fewer questions, or left more open, than it could have. Only
for an operation in a file that the change added does the comparison then see an alert where
a fuller base would have shown movement.
-/

namespace OpenUltraSast.Push

open Values Model List

/-- An outcome that was kept, or that is not completed and may have lost its rows. -/
def Demoted (less more : QuestionOutcome) : Prop :=
  less = more ∨ less.identity = more.identity ∧ less.status ≠ .completed ∧
    (less.rawRows = more.rawRows ∨ less.rawRows = none)

structure ScopeReduced (less more : ScopeDecision) : Prop where
  population : less.populationComplete = true → more.populationComplete = true
  selected : ∀ question ∈ less.selected, question ∈ more.selected
  deferred : ∀ item ∈ more.deferred, item ∈ less.deferred
  blocking : ∀ item ∈ less.deferred, item ∈ more.deferred ∨ item.reason ≠ "tier_zero"
  boundaries : ∀ boundary ∈ more.unresolvedBoundaries, boundary ∈ less.unresolvedBoundaries

/-- A scan that completed and answered less, with boundaries, degradations and deferrals
added. -/
structure ReadLess (less more : ModelScanResult) : Prop where
  outcomes : ∀ outcome ∈ less.questionOutcomes, ∃ fuller ∈ more.questionOutcomes,
    Demoted outcome fuller
  scope : Option.Rel ScopeReduced less.scope more.scope
  degradations : ∀ item ∈ more.degradations, item ∈ less.degradations

def BaseReadLess (less more : Option ModelScanResult) : Prop :=
  ∀ scan ∈ less, ∃ fuller ∈ more, ReadLess scan fuller

variable (surroundings : Surroundings) {outcome : QuestionOutcome}

theorem answer_of_mem {scan : ModelScanResult}
    (member : outcome ∈ scan.questionOutcomes) : scan.answer outcome.identity = some outcome := by
  have isSome : (scan.answer outcome.identity).isSome := by
    rw [ModelScanResult.answer, List.find?_isSome]
    exact ⟨outcome, member, by simp⟩
  obtain ⟨found, first⟩ := Option.isSome_iff_exists.1 isSome
  rw [first]
  have same : found.identity = outcome.identity := by simpa using List.find?_some first
  have foundMember := mem_of_find?_eq_some first
  exact congrArg some (inj_on_of_nodup_map scan.once foundMember member same)

variable {op : EvidenceOperation}

theorem placedOperation_question {question : QuestionIdentity} {row : List (String × Json)}
    {mechanism : Mechanism} {path line operation method : Json} {source : String} {discharged : Bool}
    (placed : placedOperation question row mechanism path line operation method source discharged =
      some op) : op.question = question := by
  unfold placedOperation at placed
  split at placed
  · split at placed
    · cases placed
    · cases placed
      rfl
  · cases placed

private theorem rowOperation_question {question : QuestionIdentity} {row : Json}
    (read : rowOperation surroundings question row = some op) : op.question = question := by
  unfold rowOperation at read
  split at read
  · split_ifs at read
    · unfold sinkOperation at read
      dsimp only at read
      split at read
      · split_ifs at read
        exact placedOperation_question read
      · cases read
    · unfold guardedOperation at read
      dsimp only at read
      split at read
      · split_ifs at read
        exact placedOperation_question read
      · cases read
    · exact placedOperation_question read
  · cases read

theorem outcomeOperations_question
    (member : op ∈ outcomeOperations surroundings outcome) : op.question = outcome.identity := by
  unfold outcomeOperations at member
  split at member
  · obtain ⟨row, -, read⟩ := mem_filterMap.1 (mem_filter.1 member).1
    exact rowOperation_question surroundings read
  · cases member

theorem operations_of_question (scan : ModelScanResult) (question : QuestionIdentity) :
    (operations surroundings scan).filter (·.question = question) =
      ((scan.answer question).map (outcomeOperations surroundings)).getD [] := by
  have once := scan.once
  unfold operations ModelScanResult.answer
  generalize scan.questionOutcomes = outcomes at once
  induction outcomes with
  | nil => rfl
  | cons outcome rest ih =>
    obtain ⟨apart, rest_once⟩ := nodup_cons.1 once
    rw [flatMap_cons, filter_append, ih rest_once, List.find?_cons]
    by_cases same : outcome.identity = question
    · -- The question has one outcome, so the rest holds nothing of it.
      have absent : rest.find? (·.identity = question) = none := by
        rw [List.find?_eq_none]
        intro other member others
        exact apart (mem_map.2 ⟨other, member, by simpa [same] using others⟩)
      have all : (outcomeOperations surroundings outcome).filter (·.question = question) =
          outcomeOperations surroundings outcome := by
        rw [filter_eq_self]
        intro op member
        simp [outcomeOperations_question surroundings member, same]
      simp [absent, all, same]
    · -- An outcome of another question has no operation of this one.
      have none : (outcomeOperations surroundings outcome).filter (·.question = question) = [] := by
        rw [filter_eq_nil_iff]
        intro op member
        simp [outcomeOperations_question surroundings member, same]
      simp [none, same]

section Completed

variable {surroundings} {less more : ModelScanResult} {question : QuestionIdentity}

section
variable (silent : ReadLess less more)
include silent

section
variable (completed : question ∈ less.completed)
include completed

theorem ReadLess.answer :
    more.answer question = less.answer question ∧ question ∈ more.completed := by
  obtain ⟨outcome, kept, rfl⟩ := mem_map.1 completed
  obtain ⟨member, status⟩ := mem_filter.1 kept
  obtain ⟨fuller, among, rfl | ⟨-, demoted, -⟩⟩ := silent.outcomes outcome member
  · refine ⟨?_, mem_map.2 ⟨outcome, mem_filter.2 ⟨among, status⟩, rfl⟩⟩
    rw [answer_of_mem member, answer_of_mem among]
  · exact absurd (by simpa using status) demoted

theorem ReadLess.operations :
    (operations surroundings more).filter (·.question = question) =
      (operations surroundings less).filter (·.question = question) := by
  rw [operations_of_question, operations_of_question, (silent.answer completed).1]

theorem ReadLess.validAnswer :
    validAnswer more question (Push.operations surroundings more) =
      validAnswer less question (Push.operations surroundings less) := by
  unfold Push.validAnswer
  rw [(silent.answer completed).1, silent.operations completed]

theorem ReadLess.inventory :
    inventory more question = inventory less question := by
  unfold Push.inventory
  rw [(silent.answer completed).1]

end

end

end Completed

variable {surroundings} {context : ChangeContext} {less more : ModelScanResult}

structure Established (surroundings : Surroundings) (context : ChangeContext)
    (base : ModelScanResult) (op : EvidenceOperation) (decision : ScopeDecision) : Prop where
  scope : base.scope = some decision
  population : decision.populationComplete = true
  deferred : ∀ item ∈ decision.deferred, item.reason = "tier_zero"
  undegraded : blockingDegradations base op.question.language = []
  selected : ∀ question ∈ requiredScope surroundings op.question context,
    question ∈ decision.selected
  completed : ∀ question ∈ requiredScope surroundings op.question context,
    question ∈ base.completed
  valid : ∀ question ∈ requiredScope surroundings op.question context,
    validAnswer base question (operations surroundings base) = true

theorem established_iff (base : ModelScanResult) (op : EvidenceOperation) :
    established surroundings context base op = true ↔
      ∃ decision, Established surroundings context base op decision := by
  unfold established
  cases scope : base.scope with
  | none =>
    refine ⟨by simp, ?_⟩
    rintro ⟨decision, holds⟩
    cases scope.symm.trans holds.scope
  | some decision =>
    have asked : ∀ outcome ∈ base.questionOutcomes, outcome.identity ∈ decision.selected :=
      base.asked decision scope
    simp only [Bool.and_eq_true, all_eq_true, decide_eq_true_eq]
    constructor
    · rintro ⟨⟨⟨⟨⟨⟨population, deferred⟩, undegraded⟩, selected⟩, completed⟩, -⟩, valid⟩
      exact ⟨decision, scope, population, deferred, undegraded, selected, completed, valid⟩
    · rintro ⟨other, holds⟩
      obtain rfl : decision = other := Option.some.inj (scope.symm.trans holds.scope)
      exact ⟨⟨⟨⟨⟨⟨holds.population, holds.deferred⟩, holds.undegraded⟩, holds.selected⟩,
        holds.completed⟩, asked⟩, holds.valid⟩

theorem ReadLess.undegraded (silent : ReadLess less more) {language : String}
    (none : blockingDegradations less language = []) : blockingDegradations more language = [] := by
  unfold blockingDegradations at none ⊢
  rw [map_eq_nil_iff, filter_eq_nil_iff] at none ⊢
  exact fun item member => none item (silent.degradations item member)

variable {decision : ScopeDecision}

theorem ReadLess.established (silent : ReadLess less more)
    (holds : Established surroundings context less op decision) :
    ∃ fuller, ScopeReduced decision fuller ∧ Established surroundings context more op fuller := by
  have related := silent.scope
  rw [holds.scope] at related
  cases scope : more.scope with
  | none => rw [scope] at related; cases related
  | some fuller =>
    rw [scope] at related
    cases related with
    | some reduced =>
      refine ⟨fuller, reduced, scope, reduced.population holds.population, ?_, ?_, ?_, ?_, ?_⟩
      · exact fun item member => holds.deferred item (reduced.deferred item member)
      · exact silent.undegraded holds.undegraded
      · exact fun question member => reduced.selected question (holds.selected question member)
      · exact fun question member => (silent.answer (holds.completed question member)).2
      · intro question member
        rw [silent.validAnswer (holds.completed question member)]
        exact holds.valid question member

theorem ReadLess.gaps (silent : ReadLess less more)
    (holds : Established surroundings context less op decision) (questions : List QuestionIdentity) :
    ∀ gap ∈ blockingGaps surroundings more questions,
      gap ∈ blockingGaps surroundings less questions := by
  obtain ⟨fuller, reduced, same⟩ := silent.established holds
  -- With no deferral added, the fuller base records every question that this one does.
  have others : ∀ id ∈ otherQuestions surroundings decision questions,
      id ∈ otherQuestions surroundings fuller questions := by
    intro id other
    obtain ⟨question, kept, rfl⟩ := mem_map.1 other
    obtain ⟨recorded, apart⟩ := mem_filter.1 kept
    refine mem_map.2 ⟨question, mem_filter.2 ⟨?_, apart⟩, rfl⟩
    rcases mem_append.1 recorded with selected | deferred
    · exact mem_append_left _ (reduced.selected question selected)
    · obtain ⟨item, member, rfl⟩ := mem_map.1 deferred
      rcases reduced.blocking item member with before | blocks
      · exact mem_append_right _ (mem_map.2 ⟨item, before, rfl⟩)
      · exact absurd (holds.deferred item member) blocks
  intro gap gapped
  obtain ⟨bounded, blocks⟩ := mem_filter.1 gapped
  refine mem_filter.2 ⟨?_, blocks⟩
  unfold contextBoundaries at bounded ⊢
  rw [same.scope] at bounded
  rw [holds.scope]
  obtain ⟨member, kept⟩ := mem_filter.1 bounded
  refine mem_filter.2 ⟨reduced.boundaries gap member, ?_⟩
  simp only [Bool.and_eq_true, Bool.not_eq_true', Bool.and_eq_false_iff, decide_eq_false_iff_not]
    at kept ⊢
  refine ⟨kept.1, kept.2.imp id fun foreign owned => foreign (others _ owned)⟩

namespace Reading

variable {reading : Reading} {claim : Claim}

/-- A changed line alerts only where the base was read and has no site of the operation. -/
theorem changedLine_alerts : (reading.changedLine claim).1.alerts = true ↔
    reading.identical claim = [] ∧ ∃ inventory, reading.inventory = some inventory ∧
      (inventory.structural = true ∨ reading.complete = true) ∧
      (∀ site ∈ inventory.sites, site.operation ≠ claim.op.operation) ∧
      (claim.entailed && !claim.op.discharged) = true := by
  unfold changedLine
  by_cases moved : reading.identical claim = []
  · rw [if_neg (not_not.2 moved)]
    cases enumeration : reading.inventory with
    | none => simp [Novelty.alerts]
    | some inventory =>
      dsimp only
      -- Without structure the sites were derived, which takes complete reachability.
      by_cases derived : (!inventory.structural && !reading.complete) = true
      · rw [if_pos derived]
        simp only [Bool.and_eq_true, Bool.not_eq_true'] at derived
        simp [Novelty.alerts, derived.1, derived.2]
      have based : inventory.structural = true ∨ reading.complete = true := by
        cases structural : inventory.structural <;> simp_all
      rw [if_neg derived]
      -- The base has the operation somewhere, so the change did not bring it.
      by_cases present : inventory.sites.any (·.operation = claim.op.operation) = true
      · rw [if_pos present]
        obtain ⟨site, member, same⟩ := any_eq_true.1 present
        refine iff_of_false Bool.false_ne_true ?_
        rintro ⟨-, _, found, -, absent, -⟩
        cases found
        exact absent site member (of_decide_eq_true same)
      rw [if_neg present]
      have absent : ∀ site ∈ inventory.sites, site.operation ≠ claim.op.operation := by
        simpa using present
      by_cases supported : (claim.entailed && !claim.op.discharged) = true
      · rw [if_pos supported]
        exact iff_of_true rfl ⟨moved, inventory, rfl, based, absent, supported⟩
      · rw [if_neg supported]
        simp [Novelty.alerts, supported]
  · simp [moved, Novelty.alerts]

private theorem compared_of_incomplete (incomplete : reading.complete = false)
    (alerts : (reading.compared claim).1.alerts = true) :
    claim.correspondence = .changedLine ∧ claim.change ≠ [] ∧ claim.op.mechanism = .taint ∧
      (reading.changedLine claim).1.alerts = true := by
  simp only [compared, incomplete, Bool.false_and, Bool.false_eq_true, if_false, Bool.not_false,
    if_true] at alerts
  split at alerts
  next line =>
    simp only [Bool.and_eq_true, decide_eq_true_eq] at line
    exact ⟨line.1.1, line.1.2, line.2, alerts⟩
  · cases alerts

private theorem compared_of_changedLine (unplaced : claim.location = none)
    (line : claim.correspondence = .changedLine) (changed : claim.change ≠ [])
    (taint : claim.op.mechanism = .taint) : reading.compared claim = reading.changedLine claim := by
  have old : reading.old claim = [] := by simp [Reading.old, unplaced]
  simp [compared, old, unplaced, line, changed, taint]

structure Fuller (less more : Reading) : Prop where
  contextual : more.contextual = less.contextual
  inventory : more.inventory = less.inventory
  established : less.established = true → more.established = true
  boundaries : ∀ boundary ∈ more.boundaries, boundary ∈ less.boundaries

namespace Fuller

variable {less more : Reading}

section
variable (fuller : Fuller less more)
include fuller

theorem complete (complete : less.complete = true) :
    more.complete = true := by
  simp only [Reading.complete, Bool.and_eq_true, decide_eq_true_eq] at complete ⊢
  refine ⟨fuller.established complete.1, eq_nil_iff_forall_not_mem.2 fun boundary member => ?_⟩
  simpa [complete.2] using fuller.boundaries boundary member

theorem enumerated (enumerated : less.enumerated = true) :
    more.enumerated = true := by
  simp only [Reading.enumerated, Bool.and_eq_true, all_eq_true] at enumerated ⊢
  exact ⟨fuller.established enumerated.1,
    fun boundary member => enumerated.2 boundary (fuller.boundaries boundary member)⟩

theorem changedLine (alerts : (less.changedLine claim).1.alerts = true) :
    (more.changedLine claim).1.alerts = true := by
  obtain ⟨unmoved, inventory, enumeration, based, absent⟩ := changedLine_alerts.1 alerts
  refine changedLine_alerts.2 ⟨?_, inventory, fuller.inventory.trans enumeration, ?_, absent⟩
  · rw [← unmoved, identical, fuller.contextual, identical]
  · exact based.imp_right fuller.complete

theorem compared (unplaced : claim.correspondence = .changedLine → claim.location = none)
    (alerts : (less.compared claim).1.alerts = true) :
    (more.compared claim).1.alerts = true := by
  cases whole : less.complete with
  | true =>
    have whole' := fuller.complete whole
    have old : more.old claim = less.old claim := by rw [Reading.old, Reading.old, fuller.contextual]
    have line : more.changedLine claim = less.changedLine claim := by
      simp only [Reading.changedLine, identical, fuller.contextual, fuller.inventory, whole, whole']
    have same : more.compared claim = less.compared claim := by
      simp only [Reading.compared, old, line, whole, whole']
    rw [same, alerts]
  | false =>
    obtain ⟨line, changed, taint, introduced⟩ := compared_of_incomplete whole alerts
    rw [compared_of_changedLine (unplaced line) line changed taint]
    exact fuller.changedLine introduced

end

end Fuller

end Reading

private theorem correspondence_unplaced (op : EvidenceOperation)
    (line : (correspondence surroundings op context).2 = .changedLine) :
    (correspondence surroundings op context).1 = none := by
  cases found : anchors surroundings op context with
  | cons location others =>
    simp only [correspondence, found] at line ⊢
    split_ifs at line
  | nil =>
    simp only [correspondence, found] at line ⊢
    split_ifs at line ⊢
    rfl

theorem ReadLess.reading (silent : ReadLess less more)
    (enumerated : (readBase surroundings context (some less) op).enumerated = true) :
    (readBase surroundings context (some less) op).Fuller
      (readBase surroundings context (some more) op) := by
  have establishes : Push.established surroundings context less op = true :=
    (Bool.and_eq_true_iff.1 enumerated).1
  obtain ⟨decision, holds⟩ := (established_iff less op).1 establishes
  have completed := holds.completed _ (mem_cons_self)
  obtain ⟨fuller, -, fully⟩ := silent.established holds
  refine ⟨?_, silent.inventory completed, fun _ => (established_iff more op).2 ⟨fuller, fully⟩,
    silent.gaps holds _⟩
  have split : ∀ scan : ModelScanResult, (readBase surroundings context (some scan) op).contextual =
      ((Push.operations surroundings scan).filter
        (·.question = counterpart surroundings op.question context)).filter
          (·.mechanism = op.mechanism) := by
    intro scan
    simp [readBase, filter_filter, Bool.and_comm]
  rw [split, split, silent.operations completed]

section Alerts

variable {head : ModelScanResult} {headSemantics baseSemantics : String}
  {base fuller : Option ModelScanResult}

variable {finding : ModelFinding}

theorem BaseReadLess.compared (silent : BaseReadLess base fuller)
    (enumerated : (readBase surroundings context base op).enumerated = true)
    (alerts : ((readBase surroundings context base op).compared
      (claimOf surroundings context finding op)).1.alerts = true) :
    (readBase surroundings context fuller op).enumerated = true ∧
      ((readBase surroundings context fuller op).compared
        (claimOf surroundings context finding op)).1.alerts = true := by
  cases base with
  | none => cases enumerated
  | some less =>
    obtain ⟨more, rfl, read⟩ := silent less rfl
    have reading := read.reading enumerated
    exact ⟨reading.enumerated enumerated,
      reading.compared (correspondence_unplaced op) alerts⟩

private theorem judge_alerts (silent : BaseReadLess base fuller)
    (alerts : (judge surroundings head context headSemantics baseSemantics base
      (claimOf surroundings context finding op)).1.alerts = true) :
    (judge surroundings head context headSemantics baseSemantics fuller
        (claimOf surroundings context finding op)).1.alerts = true ↔
      ¬(inAddedFile surroundings context op = true ∧ heldInBase surroundings fuller op = true) := by
  have same : (claimOf surroundings context finding op).op = op := rfl
  simp only [judge, same] at alerts ⊢
  -- What cannot be compared gives no alert.
  cases gate : uncomparable surroundings head context headSemantics baseSemantics op with
  | some reason => simp only [gate] at alerts; cases alerts
  | none =>
    simp only [gate] at alerts ⊢
    by_cases added : inAddedFile surroundings context op = true
    · -- In an added file the base counts as read where it holds no such operation.
      rw [if_pos added] at alerts ⊢
      by_cases held : heldInBase surroundings base op = true
      · rw [if_pos held] at alerts
        cases alerts
      rw [if_neg held] at alerts
      by_cases moved : heldInBase surroundings fuller op = true
      · rw [if_pos moved]
        exact iff_of_false Bool.false_ne_true fun stays => stays ⟨added, moved⟩
      · rw [if_neg moved]
        exact iff_of_true alerts fun both => moved both.2
    · -- Elsewhere an alert needs an enumerated base, which the fuller one is too.
      rw [if_neg added] at alerts ⊢
      by_cases enumerated : (readBase surroundings context base op).enumerated = true
      · rw [if_pos enumerated] at alerts
        obtain ⟨enumerated', alerts'⟩ := silent.compared enumerated alerts
        rw [if_pos enumerated']
        exact iff_of_true alerts' fun both => added both.1
      · rw [if_neg enumerated] at alerts
        cases alerts

/-- What two comparisons of a finding, against a base that was read less and a fuller one, have
to do with each other. -/
def Kept (surroundings : Surroundings) (context : ChangeContext) (fuller : Option ModelScanResult)
    (less more : CandidateDelta) : Prop :=
  less.finding = more.finding ∧ less.headOperation = more.headOperation ∧
    (less.novelty.alerts = true → (more.novelty.alerts = true ↔ ∀ op ∈ less.headOperation,
      ¬(inAddedFile surroundings context op = true ∧ heldInBase surroundings fuller op = true)))

/-- Reading less of the base makes no finding new or worsened, but one in an added file whose
operation the fuller base holds elsewhere. -/
theorem compareEvidence_kept (silent : BaseReadLess base fuller) :
    List.Forall₂ (Kept surroundings context fuller)
      (compareEvidence surroundings head context headSemantics baseSemantics base)
      (compareEvidence surroundings head context headSemantics baseSemantics fuller) := by
  unfold compareEvidence
  rw [forall₂_map_left_iff, forall₂_map_right_iff, forall₂_same]
  intro finding _
  unfold candidate Kept
  cases matched surroundings head finding with
  | none => exact ⟨rfl, rfl, fun alerts => by cases alerts⟩
  | some op =>
    refine ⟨rfl, rfl, fun alerts => ?_⟩
    rw [judge_alerts silent alerts]
    simp

end Alerts

def handlerArbiter : Surroundings where
  Spec := Unit
  specFor := fun family _ => if family = "injection" then some () else none
  mechanism := fun _ => .taint
  arbitrateAll := fun _ _ path _ =>
    [⟨.entailed, "req.body -> exec(cmd) in " ++ path ++ " (line 4, 2 steps)"⟩]
  questionId := fun question => question.family ++ ":" ++ question.path
  dumps := fun value => match value with
    | .arr [.str kind, .str source] => "[\"" ++ kind ++ "\",\"" ++ source ++ "\"]"
    | _ => ""
  fsdecode := id

def handlerQuestion (path : String) : QuestionIdentity :=
  ⟨"repository", "javascript", path, some "handler", "injection"⟩

def handlerScope (path : String) : ScopeDecision where
  populationComplete := true
  selected := [handlerQuestion path]
  deferred := []
  unresolvedBoundaries := []
  unique := by simp

def handlerScan (path : String) (findings : List ModelFinding) : ModelScanResult where
  findings := findings
  scope := some (handlerScope path)
  questionOutcomes :=
    [{ identity := handlerQuestion path
       status := .completed
       rawRows := some [.obj
         [("sink", .str "exec(cmd)"), ("sinkFile", .str path), ("sinkLine", .int 4),
          ("sinkMethod", .str "handler"), ("source", .str "req.body"),
          ("sourceKind", .str "field"), ("sanitized", .bool false), ("bounded", .bool false)]]
       answered := by simp
       unanswered := by simp }]
  once := by simp
  asked := by simp [handlerScope]

def unansweredScan (path : String) : ModelScanResult where
  scope := some (handlerScope path)
  questionOutcomes :=
    [{ identity := handlerQuestion path, status := .unanswered, rawRows := none
       answered := by simp, unanswered := by simp }]
  once := by simp
  asked := by simp [handlerScope]

theorem unansweredScan_readLess (path : String) :
    ReadLess (unansweredScan path) (handlerScan path []) where
  outcomes outcome member := by
    obtain rfl := mem_singleton.1 member
    exact ⟨_, mem_singleton_self _, .inr ⟨rfl, by simp, .inr rfl⟩⟩
  scope := .some ⟨id, fun _ => id, fun _ => id, fun _ => .inl, fun _ => id⟩
  degradations _ := id

def handlerFinding : ModelFinding :=
  { site := "a.js:4:handler", family := "injection", rung := .entailed
    witness := "req.body -> exec(cmd) in a.js (line 4, 2 steps)" }

def addedContext : ChangeContext where
  baseRevision := some "base"
  headRevision := "head"
  changedPaths := ["a.js"]
  deletedPaths := []
  spans := [⟨"a.js", 1, 6, .head⟩]
  renames := []
  declarationPaths := []
  relationships := []
  unresolvedBoundaries := []
  addedPaths := ["a.js"]

/-- The handler is new against a base that did not answer; against the answer of that base, in
another file, it moved. -/
theorem moved_handler_alerts_unread :
    BaseReadLess (some (unansweredScan "b.js")) (some (handlerScan "b.js" [])) ∧
      ((compareEvidence handlerArbiter (handlerScan "a.js" [handlerFinding]) addedContext
          "same" "same" (some (unansweredScan "b.js"))).map
            fun delta => (delta.novelty, delta.reason)) =
        [(.new, "file_added_in_head")] ∧
      ((compareEvidence handlerArbiter (handlerScan "a.js" [handlerFinding]) addedContext
          "same" "same" (some (handlerScan "b.js" []))).map
            fun delta => (delta.novelty, delta.reason)) =
        [(.unknown, "operation_moved_within_change")] := by
  refine ⟨fun scan member => ?_, by decide +kernel, by decide +kernel⟩
  cases member
  exact ⟨_, rfl, unansweredScan_readLess "b.js"⟩

theorem compareEvidence_kept_unread :
    List.Forall₂ (Kept handlerArbiter addedContext (some (handlerScan "b.js" [])))
      (compareEvidence handlerArbiter (handlerScan "a.js" [handlerFinding]) addedContext
        "same" "same" (some (unansweredScan "b.js")))
      (compareEvidence handlerArbiter (handlerScan "a.js" [handlerFinding]) addedContext
        "same" "same" (some (handlerScan "b.js" []))) := by
  refine compareEvidence_kept fun scan member => ?_
  cases member
  exact ⟨_, rfl, unansweredScan_readLess "b.js"⟩

end OpenUltraSast.Push
