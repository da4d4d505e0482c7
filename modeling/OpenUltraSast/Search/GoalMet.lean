import OpenUltraSast.Search.CallsOnce
import OpenUltraSast.Search.Spending

/-!
# Goals that are met

Over every round and every restart: a goal is met by the dispatch that came last, and what was
called for once is not called for again.
-/

namespace OpenUltraSast.Search

open Values Programs List Option

variable {budget : SearchBudget} {decimal : String → Option ℚ}

variable {payload : Payload}

section Rounds
variable {s t : Sight} {log : List Dispatch}

theorem Ready.changes (ready : Ready budget s log) (live : t.endReason = s.endReason)
    (demonstrations : t.demonstrations = s.demonstrations) (retries : t.retries = s.retries)
    (keeps : s.Keeps t) : Ready budget t log where
  live := live.trans ready.live
  counted := ready.counted.mono demonstrations.ge retries.ge
    (demonstrations.le.trans ready.counted.demonstrations)
    (retries.le.trans ready.counted.retries)
  settled dispatch there about known := keeps about (ready.settled dispatch there about known)

private theorem mem_of_subjectOf {calls : List (List Dispatch)} {about : Subject}
    (there : about ∈ calls.filterMap subjectOf) :
    ∃ dispatch ∈ calls.flatten, dispatch.subject = some about := by
  obtain ⟨attempts, member, known⟩ := mem_filterMap.mp there
  obtain ⟨dispatch, first, own⟩ := bind_eq_some_iff.mp known
  exact ⟨dispatch, mem_flatten.mpr ⟨attempts, member, mem_of_head? first⟩, own⟩

theorem Ready.due (ready : Ready budget s log) {step : Step} (typed : Typed step payload)
    (within : s.demonstrations + (if step = .verify then 1 else 0) ≤ budget.demonstrations)
    (carried : ∀ id demo family oracle, payload = .demo id demo family oracle →
      ∃ fact ∈ s.facts, fact.id = id ∧ fact.demo = some demo ∧ demo ≠ "")
    (fresh : (s.intents.map (·.id)).Nodup → ∀ about, subject step payload = some about →
      ¬ s.Settles about) :
    Due budget step payload
      { s with demonstrations := s.demonstrations + (if step = .verify then 1 else 0) } log := by
  obtain ⟨calls, are, verified, repeated⟩ := ready.counted.calls
  have keeps : s.Keeps
      { s with demonstrations := s.demonstrations + (if step = .verify then 1 else 0) } :=
    fun about settled => by cases about <;> exact settled
  have same : calls.flatten = log := are.split.symm
  -- the calls stay those of the log; the one that begins has no dispatch yet
  refine ⟨calls, [], ?_, fun _ ends => absurd ends (not_mem_none _), repeated⟩
  constructor
  case live => exact ready.live
  case counted =>
    exact ready.counted.mono (Nat.le_add_right _ _) (le_refl _) within ready.counted.retries
  case typed => exact typed
  case split => rw [append_nil, same]
  case before =>
    rw [same]
    exact are
  case chain => exact isChain_nil
  case same => exact fun _ there => absurd there not_mem_nil
  case room => exact Nat.add_le_add_right verified _
  case settled =>
    rw [same]
    exact fun dispatch there about known => keeps about (ready.settled dispatch there about known)
  case carried => exact carried
  -- a dispatch about the subject would have settled it
  case fresh =>
    intro apart about known there
    obtain ⟨dispatch, member, own⟩ := mem_of_subjectOf there
    rw [same] at member
    exact fresh apart about known (ready.settled dispatch member about own)

theorem Ran.ready {step : Step} {dispatch : Dispatch} (ran : Ran budget step payload dispatch s log)
    (own : ∀ id, subject step payload = some (.fact id) → s.Settles (.fact id)) :
    Ready budget s log := by
  obtain ⟨_, _, underway, -, -, -, claimed⟩ := ran
  refine underway.ready fun about known => ?_
  cases about with
  | fact id => exact own id known
  | intent id => exact claimed id known

end Rounds

def GoesOn (budget : SearchBudget) (again : Bool) (memory : Memory) (world : World) : Prop :=
  again = true → At budget (Ready budget) memory world

section Pieces

variable {memory : Memory} {world : World} {known : Sight → List Dispatch → Prop}

theorem ends_other {reason : String}
    (counts : ∀ s log, known s log → Counted budget s log) (named : reason ≠ "")
    (other : reason ≠ "goal_met") (endDetail : Option String)
    (holds : At budget known memory world) :
    Leads checkedAnswers (Inv budget) (fun _ _ _ => True) (Leaves budget)
      (finish reason endDetail) memory world :=
  finish_checked endDetail named memory world
    ⟨⟨counts _ _ holds.1, fun met => absurd met other⟩, holds.2⟩

theorem stops_other {reason : String}
    (counts : ∀ s log, known s log → Counted budget s log) (named : reason ≠ "")
    (other : reason ≠ "goal_met") (endDetail : Option String)
    (holds : At budget known memory world) :
    Leads checkedAnswers (Inv budget) (GoesOn budget) (Leaves budget)
      (do
        finish reason endDetail
        return false) memory world := by
  refine .bind ((ends_other counts named other endDetail holds).mono ?_
    fun _ _ _ leaves => leaves)
  exact fun _ _ _ _ => Leads.pure fun on => by cases on

theorem Frames.exhaustion (result : Result) : Frames budget (exhaustion result) := by
  unfold Search.exhaustion
  split
  · exact pure _
  · exact pure _
  · exact throw _

theorem Frames.taskSpend (result : Result) : Frames budget (taskSpend result) :=
  bind (exhaustion result) fun _ => pure _

theorem Frames.progress {change : Progress → Progress}
    (same : ∀ memory : Memory,
      { memory with progress := change memory.progress : Memory }.sight = memory.sight) :
    Frames budget (modifyProgress change) := Frames.change same

theorem Frames.state {change : Board → Board}
    (same : ∀ memory : Memory,
      { memory with state := change memory.state : Memory }.sight = memory.sight) :
    Frames budget (modifyState change) := Frames.change same

theorem Frames.addFailure (failure : Failure) : Frames budget (addFailure failure) :=
  change fun _ => rfl

theorem ready_counts (s : Sight) (log : List Dispatch) (ready : Ready budget s log) :
    Counted budget s log := ready.counted

theorem Frames.then {α β : Type} {piece : Coordination α} {f : α → Coordination β}
    {post : β → Memory → World → Prop} (frames : Frames budget piece)
    (rest : ∀ value, Meets checkedAnswers (Inv budget) (At budget (Ready budget)) (f value) post
      (Leaves budget)) :
    Meets checkedAnswers (Inv budget) (At budget (Ready budget)) (piece >>= f) post
      (Leaves budget) :=
  Meets.bind (frames (Ready budget) ready_counts) rest

theorem finishExhausted_checked (result : Result) :
    Meets checkedAnswers (Inv budget) (At budget (Ready budget)) (finishExhausted result)
      (fun _ _ _ => True) (Leaves budget) := by
  refine (Frames.exhaustion result).then fun fields => ?_
  intro memory world holds
  split
  · exact ends_other ready_counts (by decide) (by decide) _ holds
  · exact .throw trivial

theorem stopsExhausted (result : Result) :
    Meets checkedAnswers (Inv budget) (At budget (Ready budget))
      (do
        finishExhausted result
        return false) (GoesOn budget) (Leaves budget) :=
  Meets.bind (finishExhausted_checked result) fun _ =>
    Meets.pure fun _ _ _ on => by cases on

theorem saves_on : Meets checkedAnswers (Inv budget) (At budget (Ready budget))
    (do
      save
      return true) (GoesOn budget) (Leaves budget) :=
  Meets.bind (save_at fun _ _ => Ready.sound) fun _ => Meets.pure fun _ _ ready _ => ready

theorem roundEnd_checked (result : Result) :
    Meets checkedAnswers (Inv budget) (At budget (Ready budget)) (roundEnd result)
      (GoesOn budget) (Leaves budget) := by
  intro memory world ready
  refine .ite (fun _ => ?_) fun _ => saves_on memory world ready
  refine (Frames.taskSpend result).then (fun spent => ?_) memory world ready
  intro memory world ready
  exact .ite (fun _ => stopsExhausted result memory world ready)
    fun _ => saves_on memory world ready

theorem call_ready {step : Step} (model : ∀ id, subject step payload ≠ some (.fact id)) :
    Meets checkedAnswers (Inv budget) (At budget (Due budget step payload))
      (call budget decimal step payload) (fun _ => At budget (Ready budget)) (Leaves budget) := by
  refine (call_checked step payload).mono (fun _ _ due => due) ?_ fun _ _ _ leaves => leaves
  rintro result memory world ⟨dispatch, -, ran, sound⟩
  exact ⟨ran.ready fun id known => absurd known (model id), sound⟩

theorem reason_call (typed : Typed .reason payload) :
    Meets checkedAnswers (Inv budget) (At budget (Ready budget))
      (call budget decimal .reason payload) (fun _ => At budget (Ready budget)) (Leaves budget) := by
  have none (about : Subject) : subject .reason payload ≠ some about := fun known => by
    cases payload <;> cases known
  refine (call_ready fun id => none _).mono (fun memory world ready => ?_)
    (fun _ _ _ ready => ready) fun _ _ _ leaves => leaves
  have due := ready.1.due typed ready.1.counted.demonstrations
    (fun id demo family oracle same => by
      subst same
      cases typed)
    fun _ about known => absurd known (none about)
  exact ⟨due, ready.2⟩

private theorem exploreRound_checked (intent : Intent) {memory : Memory} {world : World}
    (ready : At budget (Ready budget) memory world) (there : intent ∈ memory.state.intents)
    (opened : intent.status = .opened) :
    Leads checkedAnswers (Inv budget) (GoesOn budget) (Leaves budget)
      (exploreRound budget decimal intent) memory world := by
  have due : Due budget .explore (.intent intent.id intent.description) memory.sight world.log := by
    refine ready.1.due trivial ready.1.counted.demonstrations
      (fun id demo family oracle same => by cases same) ?_
    rintro apart about ⟨⟩ ⟨other, member, same, settled⟩
    -- Ids are apart, so the settled intent would be the open one.
    have one := inj_on_of_nodup_map apart member there same
    rw [one, opened] at settled
    exact settled rfl
  unfold exploreRound
  refine .bind ((call_ready (fun id known => by cases known) memory world
    ⟨due, ready.2⟩).mono ?_ fun _ _ _ leaves => leaves)
  intro result memory world ready
  have rest (spent : Bool) : Meets checkedAnswers (Inv budget) (At budget (Ready budget))
      (do
        if spent then addFailure ⟨result.taskId, "task_spend", none⟩
        roundEnd result) (GoesOn budget) (Leaves budget) := by
    intro memory world ready
    refine .ite (fun _ => ?_) fun _ => roundEnd_checked result memory world ready
    exact (Frames.addFailure _).then (fun _ => roundEnd_checked result) memory world ready
  have concludes (facts : List Fact) (change : Intent → Intent)
      (same : ∀ intent, (change intent).id = intent.id)
      (closed : ∀ intent, (change intent).status ≠ .opened) :
      At budget (Ready budget) { memory with state := { memory.state with
        facts, intents := updateIntent intent.id change memory.state.intents } } world := by
    have moves : memory.sight.Moves budget { memory.sight with
        intents := updateIntent intent.id change memory.sight.intents } :=
      Sight.Moves.intents ready.1.counted.retries same closed
    exact ⟨ready.1.changes rfl rfl rfl fun about settled => by
      cases about with
      | fact id => exact settled
      | intent id => exact moves.keeps (.intent id) settled, ready.2⟩
  split
  · refine .bind (.change ?_)
    exact (Frames.taskSpend result).then rest _ _ (concludes _ _ (fun _ => rfl) fun _ => by simp)
  · refine .bind (.change ?_)
    exact (Frames.taskSpend result).then rest _ _ (concludes _ _ (fun _ => rfl) fun _ => by simp)

variable {tokens : String → List String} {admission : Admission}

private theorem mem_admitProposal {known : List String} {taskId : String}
    {intent : Intent} (there : intent ∈ admission.intents)
    (proposal : Json) : intent ∈ (admitProposal tokens known taskId admission proposal).intents := by
  unfold admitProposal
  split
  · split
    · dsimp only
      split
      · exact there
      · split
        · exact there
        · split
          · exact there
          · exact mem_append_left _ there
    · exact there
  · exact there

private theorem mem_foldl_admitProposal {known : List String}
    {taskId : String} (proposals : List Json) {intent : Intent}
    (there : intent ∈ admission.intents) :
    intent ∈ (proposals.foldl (admitProposal tokens known taskId) admission).intents := by
  induction proposals generalizing admission with
  | nil => exact there
  | cons proposal rest ih => exact ih (mem_admitProposal there proposal)

theorem admitIntents_checked (tokens : String → List String) (result : Result) :
    Meets checkedAnswers (Inv budget) (At budget (Ready budget)) (admitIntents budget tokens result)
      (fun _ => At budget (Ready budget)) (Leaves budget) := by
  intro memory world ready
  unfold admitIntents
  split
  next proposals _ =>
    refine .ite (fun _ => Leads.pure ready) fun _ => Leads.bind (.get ?_)
    refine .bind (.change (.bind (.change (.pure ?_))))
    refine ⟨ready.1.changes rfl rfl rfl fun about settled => ?_, ready.2⟩
    cases about with
    | fact id => exact settled
    | intent id =>
      obtain ⟨intent, there, rest⟩ := settled
      exact ⟨intent, mem_foldl_admitProposal proposals there, rest⟩
  next => exact .pure ready

private theorem admitRound_checked (tokens : String → List String) (result : Result) :
    Meets checkedAnswers (Inv budget) (At budget (Ready budget))
      (admitRound budget decimal tokens result)
      (fun next memory world => ∀ result ∈ next, At budget (Ready budget) memory world)
      (Leaves budget) := by
  refine Meets.bind (admitIntents_checked tokens result) fun rejected => ?_
  intro memory world ready
  refine .ite (fun _ => Leads.pure fun _ _ => ready) fun _ => ?_
  refine Meets.bind (save_at fun _ _ => Ready.sound) (fun _ => ?_) memory world ready
  have typed : Typed .reason (.reminder duplicateReminder) := trivial
  refine Meets.bind (reason_call typed) fun again => ?_
  intro memory world ready
  refine .ite (fun _ => ?_) fun _ => ?_
  · refine (Frames.taskSpend again).then (fun spent => ?_) memory world ready
    intro memory world ready
    refine .ite (fun _ => Leads.pure fun _ _ => ready) fun _ => ?_
    refine .bind ((finishExhausted_checked again memory world ready).mono ?_
      fun _ _ _ leaves => leaves)
    exact fun _ _ _ _ => Leads.pure fun _ none => by cases none
  · refine Meets.bind (admitIntents_checked tokens again) (fun _ => ?_) memory world ready
    exact Meets.pure fun _ _ ready _ _ => ready

theorem spentRound_checked (result : Result) :
    Meets checkedAnswers (Inv budget) (At budget (Ready budget)) (spentRound result)
      (GoesOn budget) (Leaves budget) :=
  (Frames.addFailure _).then fun _ => saves_on

theorem reasoned_checked (tokens : String → List String) (first result : Result) :
    Meets checkedAnswers (Inv budget) (At budget (Ready budget))
      (do
        if refused first && refused result then
          addFailure ⟨result.taskId, "reason_refused", none⟩
          finish "reason_refused"
          return false
        let spent ← taskSpend result
        if spent then return ← spentRound result
        if result.exhausted then
          finishExhausted result
          return false
        match ← admitRound budget decimal tokens result with
        | none => return false
        | some result =>
          let spent ← taskSpend result
          if spent then return ← spentRound result
          let memory ← get
          if memory.state.intents.all (·.status ≠ .opened) then
            finish "exhausted"
            return false
          roundEnd result) (GoesOn budget) (Leaves budget) := by
  intro memory world ready
  -- refused twice
  refine .ite (fun _ => ?_) fun _ => ?_
  · refine (Frames.addFailure _).then (fun _ => ?_) memory world ready
    exact fun _ _ ready => stops_other ready_counts (by decide) (by decide) _ ready
  refine (Frames.taskSpend result).then (fun spent => ?_) memory world ready
  intro memory world ready
  refine .ite (fun _ => spentRound_checked result memory world ready) fun _ => ?_
  refine .ite (fun _ => stopsExhausted result memory world ready) fun _ => ?_
  -- what is admitted leaves the search ready
  refine .bind ((admitRound_checked tokens result memory world ready).mono ?_
    fun _ _ _ leaves => leaves)
  intro admitted memory world ready
  cases admitted with
  | none => exact .pure fun on => by cases on
  | some result =>
    have ready := ready result rfl
    refine (Frames.taskSpend result).then (fun spent => ?_) memory world ready
    intro memory world ready
    refine .ite (fun _ => spentRound_checked result memory world ready) fun _ => ?_
    -- without an open intent the search is exhausted, otherwise the round ends
    refine .bind (.get (.ite (fun _ => ?_) fun _ => ?_))
    · exact stops_other ready_counts (by decide) (by decide) _ ready
    · exact roundEnd_checked result memory world ready

private theorem reasonRound_checked (tokens : String → List String) :
    Meets checkedAnswers (Inv budget) (At budget (Ready budget))
      (reasonRound budget decimal tokens) (GoesOn budget) (Leaves budget) := by
  intro memory world ready
  unfold reasonRound
  refine .bind (.get (.ite (fun _ => ?_) fun _ => ?_))
  · exact stops_other ready_counts (by decide) (by decide) _ ready
  refine (Frames.progress fun _ => rfl).then (fun _ => ?_) memory world ready
  have empty : Typed .reason .empty := trivial
  have reminder : Typed .reason (.reminder proposeReminder) := trivial
  refine Meets.bind (reason_call empty) fun first => ?_
  intro memory world ready
  refine .ite (fun _ => ?_) fun _ => reasoned_checked tokens first first memory world ready
  exact Meets.bind (reason_call reminder) (reasoned_checked tokens first) memory world ready

theorem refs_eq_some {value : Option Json} {texts : List String} (found : refs value = some texts) :
    ∃ items, value = some (.arr items) ∧ items ≠ [] ∧
      ∀ item ∈ items, ∃ text, item = .str text ∧ text ≠ "" := by
  unfold refs at found
  split at found
  next items =>
    dsimp only at found
    split at found
    next all =>
      refine ⟨items, rfl, all.1, fun item there => ?_⟩
      have each := filterMap_length_eq_length.mp all.2 item there
      cases item with
      | str text =>
        refine ⟨text, rfl, fun empty => ?_⟩
        rw [empty] at each
        cases each
      | _ => cases each
    next => cases found
  next => cases found

theorem lookup_of_isStr {fields : List (String × Json)} {key text : String}
    (is : ((fields.lookup key).map (Json.isStr text)).getD false = true) :
    fields.lookup key = some (.str text) := by
  cases there : fields.lookup key with
  | none =>
    rw [there] at is
    cases is
  | some value =>
    rw [there] at is
    cases value with
    | str other => exact congrArg (some ∘ Json.str) (of_decide_eq_true is)
    | _ => cases is

theorem Ran.demonstrates {s : Sight} {log : List Dispatch} {dispatch : Dispatch} {result : Result}
    {id demo : String} {family : Option String} {oracle : Option Json} {evidence : List String}
    (ran : Ran budget .verify (.demo id demo family oracle) dispatch s log)
    (yields : Yields dispatch result) (found : refs (result.get "evidence_refs") = some evidence)
    (ok : result.hasStatus "ok" = true)
    (demonstrated : ((result.get "outcome").map (Json.isStr "demonstrated")).getD false = true) :
    log.getLast? = some dispatch ∧ Demonstrates s.facts dispatch := by
  obtain ⟨calls, attempts, underway, last, -⟩ := ran
  obtain ⟨steps, payloads⟩ := underway.same dispatch (mem_of_getLast? last)
  refine ⟨?_, steps, ?_, ?_⟩
  · rw [underway.split]
    rw [List.getLast?_append, last]
    rfl
  · obtain ⟨fact, there, rfl, carried, some⟩ := underway.carried _ _ _ _ rfl
    exact ⟨fact, there, demo, family, oracle, carried, some, payloads⟩
  · have ok := lookup_of_isStr ok
    rcases yields with returned | invalid
    · exact ⟨result.fields, returned, ok, lookup_of_isStr demonstrated, refs_eq_some found⟩
    · rw [invalid] at ok
      have same : "invalid_result" = "ok" := Json.str.inj (some.inj ok)
      exact absurd same (by decide)

private theorem verifyRound_checked (loads : String → Option Json) (fact : Fact) (demo : String)
    {memory : Memory} {world : World} (ready : At budget (Ready budget) memory world)
    (there : fact ∈ memory.state.facts) (own : fact.demo = some demo) (some : demo ≠ "")
    (unverified : fact.id ∉ memory.progress.verified) :
    Leads checkedAnswers (Inv budget) (GoesOn budget) (Leaves budget)
      (verifyRound budget loads decimal fact demo) memory world := by
  unfold verifyRound
  refine .bind (.get (.ite (fun _ => ?_) fun below => ?_))
  · exact stops_other ready_counts (by decide) (by decide) _ ready
  refine .bind (.change ?_)
  have due (family : Option String) : Due budget .verify (.demo fact.id demo family fact.oracle)
      { memory.sight with demonstrations := memory.sight.demonstrations + 1 } world.log := by
    have typed : Typed .verify (.demo fact.id demo family fact.oracle) := trivial
    refine ready.1.due typed (not_le.mp below) ?_ ?_
    · rintro id demo family oracle ⟨⟩
      exact ⟨fact, there, rfl, own, some⟩
    · rintro - about ⟨⟩
      exact unverified
  refine .bind ((call_checked .verify _ _ _ ⟨due _, ready.2⟩).mono ?_
    fun _ _ _ leaves => leaves)
  rintro result memory world ⟨dispatch, yields, ran, sound⟩
  refine .bind (.change ?_)
  have moves : memory.sight.Moves budget
      { memory.sight with verified := memory.sight.verified ++ [fact.id] } := by
    refine ⟨rfl, rfl, rfl, rfl, le_refl _, ran.counted.retries, fun about settled => ?_⟩
    cases about with
    | fact id => exact mem_append_left _ settled
    | intent id => exact settled
  have ran := ran.moves moves
  have verified := ran.ready fun id known => by
    cases known
    exact mem_append_right _ (mem_singleton_self _)
  -- Whether the control was served is only read for a hint, and no hint moves the figures.
  have rest (failure : Failure) (unserved : Memory → Bool) (hint : Board → List Hint) :
      Meets checkedAnswers (Inv budget) (At budget (Ready budget))
        (do
          addFailure failure
          let memory ← get
          if unserved memory then
            modifyState fun state => { state with hints := hint state }
          roundEnd result) (GoesOn budget) (Leaves budget) := by
    refine (Frames.addFailure _).then fun _ => Frames.get.then fun memory => ?_
    intro memory world ready
    refine .ite (fun _ => ?_) fun _ => roundEnd_checked result memory world ready
    exact (Frames.state fun _ => rfl).then (fun _ => roundEnd_checked result) memory world ready
  let memory' : Memory := { memory with progress := { memory.progress with
    verified := memory.progress.verified ++ [fact.id] } }
  cases found : refs (result.get "evidence_refs") with
  | none => exact rest _ _ _ memory' world ⟨verified, sound⟩
  | some evidence =>
    refine .ite (fun met => ?_) fun _ => rest _ _ _ memory' world ⟨verified, sound⟩
    obtain ⟨ok, demonstrated⟩ := Bool.and_eq_true_iff.mp met
    obtain ⟨last, demonstrates⟩ := ran.demonstrates yields found ok demonstrated
    refine .bind (.change ?_)
    refine .bind ((finish_checked none (by decide) _ _ ⟨⟨?_, fun _ => ?_⟩, sound⟩).mono ?_
      fun _ _ _ leaves => leaves)
    · exact ⟨ran.counted.demonstrations, ran.counted.retries, ran.counted.calls⟩
    · obtain ⟨fact, there, rest⟩ := demonstrates.fact
      exact ⟨dispatch, last, demonstrates.step, ⟨fact, mem_append_left _ there, rest⟩,
        demonstrates.result⟩
    · exact fun _ _ _ _ => Leads.pure fun on => by cases on

end Pieces

private theorem nextDemo_eq_some {memory : Memory} {fact : Fact} {demo : String}
    (next : nextDemo memory = some (fact, demo)) :
    fact ∈ memory.state.facts ∧ fact.demo = some demo ∧ demo ≠ "" ∧
      fact.id ∉ memory.progress.verified := by
  obtain ⟨other, there, chosen⟩ := exists_of_findSome?_eq_some next
  split at chosen
  next demo' own =>
    split at chosen
    next fits =>
      cases chosen
      exact ⟨there, own, fits⟩
    next => cases chosen
  next => cases chosen

private theorem chosen_checked (loads : String → Option Json) (tokens : String → List String) :
    Meets checkedAnswers (Inv budget) (At budget (Ready budget))
      (do
        let memory ← get
        match nextDemo memory, memory.state.intents.find? (·.status = .opened) with
        | some (fact, demo), _ => verifyRound budget loads decimal fact demo
        | none, some intent => exploreRound budget decimal intent
        | none, none => reasonRound budget decimal tokens) (GoesOn budget) (Leaves budget) := by
  refine fun memory world ready => Leads.bind (.get ?_)
  cases next : nextDemo memory with
  | some found =>
    obtain ⟨there, own, some, unverified⟩ := nextDemo_eq_some next
    exact verifyRound_checked loads found.1 found.2 ready there own some unverified
  | none =>
    cases found : memory.state.intents.find? (·.status = .opened) with
    | some intent =>
      have opened := List.find?_some found
      exact exploreRound_checked intent ready (mem_of_find?_eq_some found)
        (of_decide_eq_true opened)
    | none => exact reasonRound_checked tokens memory world ready

private theorem round_checked (loads : String → Option Json) (tokens : String → List String) :
    Meets checkedAnswers (Inv budget) (At budget (Ready budget))
      (round budget loads decimal tokens) (GoesOn budget) (Leaves budget) := by
  refine Frames.remaining.then fun left => ?_
  intro memory world ready
  refine .ite (fun _ => stops_other ready_counts (by decide) (by decide) _ ready) fun _ => ?_
  refine Meets.tryCatch (chosen_checked loads tokens) (fun stop => ?_) memory world ready
  cases stop with
  | exhausted endDetail =>
    exact fun _ _ leaves =>
      stops_other (fun _ _ counted => counted) (by decide) (by decide) _ leaves
  | raised => exact Meets.throw fun _ _ _ => trivial

structure Resumed (budget : SearchBudget) (s : Sight) (log : List Dispatch) : Prop where
  live : s.endReason = none
  counted : Counted budget s log
  settled : ∀ dispatch ∈ log, ∀ about, dispatch.subject = some about →
    s.Settles about ∨ s.Awaits about

theorem Resumed.sound {s : Sight} {log : List Dispatch} (resumed : Resumed budget s log) :
    Sound budget s log where
  counted := resumed.counted
  settled _ := resumed.settled
  goal met := by
    rw [resumed.live] at met
    cases met
  named empty := by
    rw [resumed.live] at empty
    cases empty

private theorem recover_checked {pending : Pending} {memory : Memory} {world : World}
    (holds : At budget (Resumed budget) memory world)
    (waits : memory.progress.pending = some pending) :
    Leads checkedAnswers (Inv budget) (fun _ => At budget (Ready budget)) (Leaves budget)
      (recover pending) memory world := by
  refine .bind (.change (.bind (.change (.bind (.change ?_)))))
  refine save_at (fun _ _ => Ready.sound) _ _ ⟨⟨holds.1.live, ?_, ?_⟩, holds.2⟩
  · exact ⟨holds.1.counted.demonstrations, holds.1.counted.retries, holds.1.counted.calls⟩
  · intro dispatch there about known
    cases about with
    | fact id =>
      rcases holds.1.settled dispatch there _ known with settled | ⟨other, awaited, payload⟩
      · change id ∈ _
        split
        · exact mem_append_left _ settled
        · exact settled
      · obtain ⟨demo, family, oracle, payload⟩ := payload
        have same : other = pending := some.inj (awaited.symm.trans waits)
        rw [same] at payload
        change id ∈ _
        rw [payload]
        exact mem_append_right _ (mem_singleton_self id)
    | intent id =>
      obtain ⟨intent, member, same, closed⟩ :=
        (holds.1.settled dispatch there _ known).resolve_right not_false
      refine ⟨_, mem_map_of_mem member, ?_, ?_⟩
      · split
        · exact same
        · exact same
      · split
        · exact fun open_ => by cases open_
        · exact closed

theorem prologue_checked (loads : String → Option Json) {memory : Memory} {world : World}
    (holds : At budget (Sound budget) memory world) :
    Leads checkedAnswers (Inv budget) (GoesOn budget) (Leaves budget) (prologue loads) memory
      world := by
  unfold prologue
  refine .bind (.get (.ite (fun _ => Leads.pure fun on => by cases on) fun on => ?_))
  have live : memory.sight.endReason = none := by
    cases ended : memory.state.endReason with
    | none => exact ended
    | some reason =>
      rw [ended] at on
      have empty : reason = "" := by
        by_contra named
        exact on (decide_eq_true named)
      exact absurd (ended.trans (congrArg some empty)) holds.1.named
  have resumed : At budget (Resumed budget) memory world :=
    ⟨⟨live, holds.1.counted, holds.1.settled live⟩, holds.2⟩
  -- The last thing is to look at what the last run left pending.
  have rest (last : Memory → Coordination Bool)
      (recovers : ∀ memory pending, memory.progress.pending = some pending →
        last memory = recover pending >>= fun _ => pure true)
      (passes : ∀ memory, memory.progress.pending = none → last memory = pure true) :
      Meets checkedAnswers (Inv budget) (At budget (Resumed budget)) (get >>= last)
        (GoesOn budget) (Leaves budget) := by
    refine fun memory world resumed => Leads.bind (.get ?_)
    cases waits : memory.progress.pending with
    | some pending =>
      rw [recovers memory pending waits]
      refine .bind ((recover_checked resumed waits).mono ?_ fun _ _ _ leaves => leaves)
      exact fun _ _ _ ready => Leads.pure fun _ => ready
    | none =>
      rw [passes memory waits]
      refine .pure fun _ => ⟨⟨resumed.1.live, resumed.1.counted, ?_⟩, resumed.2⟩
      intro dispatch there about known
      refine (resumed.1.settled dispatch there about known).resolve_right fun awaited => ?_
      cases about with
      | fact id =>
        obtain ⟨pending, some, -⟩ := awaited
        rw [show memory.sight.pending = none from waits] at some
        cases some
      | intent id => exact awaited
  dsimp only
  split
  next file function _ _ =>
    refine .ite (fun _ => ?_) fun _ => rest _ (fun _ _ waits => by rw [waits])
      (fun _ waits => by rw [waits]) memory world resumed
    refine .bind (.change ?_)
    let begun : Memory := { memory with state := { memory.state with
      intents := memory.state.intents ++ [bootstrapIntent function file] } }
    have before : At budget (Resumed budget) begun world := by
      refine ⟨⟨live, ?_, fun dispatch there about known => ?_⟩, holds.2⟩
      · exact ⟨holds.1.counted.demonstrations, holds.1.counted.retries, holds.1.counted.calls⟩
      refine (resumed.1.settled dispatch there about known).imp (fun settled => ?_) fun awaited => ?_
      · cases about with
        | fact id => exact settled
        | intent id =>
          obtain ⟨intent, member, rest⟩ := settled
          exact ⟨intent, mem_append_left _ member, rest⟩
      · cases about with
        | fact id => exact awaited
        | intent id => exact awaited
    exact Meets.bind (save_at fun _ _ => Resumed.sound) (fun _ => rest _
      (fun _ _ waits => by rw [waits]) fun _ waits => by rw [waits]) begun world before
  next =>
    exact rest _ (fun _ _ waits => by rw [waits]) (fun _ waits => by rw [waits]) memory world
      resumed

private theorem sight_load (board : Board) (now : ℚ) :
    (Memory.load budget board now).sight = board.sight := by
  unfold Memory.load Memory.sight Board.sight
  cases board.checkpoint <;> rfl

theorem program_checked {piece : Coordination Bool} {memory : Memory} {world : World}
    (leads : Leads checkedAnswers (Inv budget) (GoesOn budget) (Leaves budget) piece memory world) :
    Safe checkedAnswers (Inv budget)
      (fun next world => ∀ memory ∈ next, At budget (Ready budget) memory world)
      (toProgram piece memory) world := by
  refine Safe.bind (Safe.mono ?_ leads)
  rintro ⟨result, memory'⟩ world' holds
  match result with
  | .ok true => exact fun memory same => by cases same; exact holds rfl
  | .ok false => exact fun memory same => by cases same
  | .error _ => exact fun memory same => by cases same

private theorem sound_fresh {world : World} (unended : Unended world) : Inv budget world := by
  obtain ⟨⟨checkpoint, log⟩, live⟩ := unended
  unfold Inv
  rw [log]
  refine ⟨⟨?_, ?_, [], ⟨rfl, ?_, nodup_nil⟩, Nat.zero_le _, Nat.zero_le _⟩, ?_, ?_, ?_⟩
  · rw [Board.sight, checkpoint]
    exact Nat.zero_le _
  · rw [Board.sight, checkpoint]
    exact Nat.zero_le _
  · exact fun _ there => absurd there not_mem_nil
  · exact fun _ _ there => absurd there not_mem_nil
  · intro met
    rw [show world.durable.sight.endReason = none from live] at met
    cases met
  · intro empty
    rw [show world.durable.sight.endReason = none from live] at empty
    cases empty

/-- A goal is met by the verification that was dispatched last; no fact is verified and no intent
explored in two calls; and facts to verify and attempts again are within the budget. -/
theorem search_accounted {loads : String → Option Json} {tokens : String → List String}
    {host : Host Request Request.Answer World Memory}
    (run : CheckedRun budget loads decimal tokens host) : Accounted budget host.world := by
  have sound : Inv budget host.world := by
    refine host_invariant
      (fun (memory : Memory) (world : World) => At budget (Ready budget) memory world)
      (fun (world : World) (unended : Unended world) => sound_fresh unended)
      (fun world sound => ?_) (fun world memory ready => ?_) run
    · refine fun (now : ℚ) _ same => ?_
      cases same.1
      refine ⟨sound, ?_⟩
      change Safe _ _ _ (if _ then _ else _) world
      split
      · exact fun _ same => by cases same
      · refine program_checked (prologue_checked loads ⟨?_, sound⟩)
        rw [sight_load]
        exact sound
    · exact program_checked (round_checked loads tokens memory world ready)
  obtain ⟨calls, are, verified, repeated⟩ := sound.counted.calls
  exact ⟨sound.goal, calls, are, verified.trans sound.counted.demonstrations,
    repeated.trans sound.counted.retries⟩

def demonstrating (request : Request) (world : World) : request.Answer × World :=
  match request with
  | .now => ((0 : ℚ), world)
  | .commit board =>
    if world.durable.endReason = none ∧ board.Valid then (true, { world with durable := board })
    else (false, world)
  | .snapshot => (some "", world)
  | .pushReserve _ => (true, world)
  | .pushSettle _ => ((), world)
  | .execute task =>
    let result : Outcome := .returned (.obj [("status", .str "ok"),
      ("outcome", .str "demonstrated"), ("evidence_refs", .arr [.str "run-1"])])
    (result, { world with log := world.log ++ [⟨task, 0, result⟩] })

private theorem answers_demonstrating (request : Request) (world : World) :
    checkedAnswers request (demonstrating request world).1 world
      (demonstrating request world).2 := by
  cases request with
  | commit board =>
    by_cases fits : world.durable.endReason = none ∧ board.Valid
    · rw [demonstrating, if_pos fits]
      exact ⟨.inl ⟨rfl, fits.1, rfl⟩, fun _ => fits.2⟩
    · rw [demonstrating, if_neg fits]
      exact ⟨.inr ⟨rfl, rfl⟩, fun committed => by cases committed⟩
  | execute task => exact ⟨⟨0, rfl⟩, trivial⟩
  | _ => exact ⟨rfl, trivial⟩

def shownFact : Fact :=
  { id := "fact-task-1", text := "reads the file", evidenceRefs := ["app.py"], fromIntents := []
    step := "explore", taskId := "task-1", demo := some "demo" }

def shown : Nat → Host Request Request.Answer World Memory
  | 0 => ⟨{ durable := { facts := [shownFact] } }, none⟩
  | n + 1 => (shown n).advance (fun world => startUp smallBudget (fun _ => none) world.durable)
      (toProgram (round smallBudget (fun _ => none) (fun _ => none) fun _ => [])) demonstrating

theorem shown_run (n : Nat) :
    CheckedRun smallBudget (fun _ => none) (fun _ => none) (fun _ => []) (shown n) := by
  induction n with
  | zero => exact .initial ⟨⟨rfl, rfl⟩, rfl⟩
  | succ n ih => exact ih.advance answers_demonstrating

theorem search_accounted_shown : (shown 25).world.durable.endReason = some "goal_met" ∧
    Accounted smallBudget (shown 25).world :=
  ⟨by decide +kernel, search_accounted (shown_run 25)⟩

end OpenUltraSast.Search
