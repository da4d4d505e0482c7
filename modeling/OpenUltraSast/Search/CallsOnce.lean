import OpenUltraSast.Search.Calls

/-!
# No call twice

Before a dispatch begins, the committed board names its subject: as verified, as an intent that is no
longer open, or as pending.
-/

namespace OpenUltraSast.Search

open Values Programs List

variable {budget : SearchBudget} {decimal : String → Option ℚ}

/-- What of a memory or a committed board the calls depend on. -/
structure Sight where
  facts : List Fact
  intents : List Intent
  endReason : Option String
  demonstrations : Nat
  retries : Nat
  verified : List String
  pending : Option Pending

def Memory.sight (memory : Memory) : Sight where
  facts := memory.state.facts
  intents := memory.state.intents
  endReason := memory.state.endReason
  demonstrations := memory.progress.demonstrations
  retries := memory.progress.retries
  verified := memory.progress.verified
  pending := memory.progress.pending

def Board.sight (board : Board) : Sight where
  facts := board.facts
  intents := board.intents
  endReason := board.endReason
  demonstrations := (board.checkpoint.map (·.demonstrations)).getD 0
  retries := (board.checkpoint.map (·.retries)).getD 0
  verified := (board.checkpoint.map (·.verified)).getD []
  pending := board.checkpoint.bind (·.pending)

def Sight.Settles (s : Sight) : Subject → Prop
  | .fact id => id ∈ s.verified
  | .intent id => ∃ intent ∈ s.intents, intent.id = id ∧ intent.status ≠ .opened

def Sight.Awaits (s : Sight) : Subject → Prop
  | .fact id => ∃ pending, s.pending = some pending ∧
      ∃ demo family oracle, pending.payload = .demo id demo family oracle
  | .intent _ => False

def Sight.Keeps (s t : Sight) : Prop := ∀ about, s.Settles about → t.Settles about

def Dispatch.subject (dispatch : Dispatch) : Option Subject :=
  Search.subject dispatch.task.step dispatch.task.payload

def Settled (s : Sight) (log : List Dispatch) : Prop :=
  ∀ dispatch ∈ log, ∀ about, dispatch.subject = some about → s.Settles about

section Predicates
variable (budget)

structure Counted (s : Sight) (log : List Dispatch) : Prop where
  demonstrations : s.demonstrations ≤ budget.demonstrations
  retries : s.retries ≤ budget.retries
  calls : ∃ calls, AreCalls calls log ∧ verifications calls ≤ s.demonstrations ∧
    repeats calls ≤ s.retries

/-- A committed board: while the search goes on, what was called for is settled or awaited. -/
structure Sound (s : Sight) (log : List Dispatch) : Prop where
  counted : Counted budget s log
  settled : s.endReason = none → ∀ dispatch ∈ log, ∀ about, dispatch.subject = some about →
    s.Settles about ∨ s.Awaits about
  goal : s.endReason = some "goal_met" →
    ∃ dispatch, log.getLast? = some dispatch ∧ Demonstrates s.facts dispatch
  named : s.endReason ≠ some ""

/-- A memory between two rounds. -/
structure Ready (s : Sight) (log : List Dispatch) : Prop where
  live : s.endReason = none
  counted : Counted budget s log
  settled : Settled s log

def Fresh (step : Step) (payload : Payload) (calls : List (List Dispatch)) : Prop :=
  ∀ about, subject step payload = some about → about ∉ calls.filterMap subjectOf

structure Underway (step : Step) (payload : Payload) (s : Sight) (log : List Dispatch)
    (calls : List (List Dispatch)) (attempts : List Dispatch) : Prop where
  live : s.endReason = none
  counted : Counted budget s log
  typed : Typed step payload
  split : log = calls.flatten ++ attempts
  before : AreCalls calls calls.flatten
  chain : attempts.IsChain Follows
  same : ∀ dispatch ∈ attempts, dispatch.task.step = step ∧ dispatch.task.payload = payload
  room : verifications calls + (if step = .verify then 1 else 0) ≤ s.demonstrations
  settled : Settled s calls.flatten
  carried : ∀ id demo family oracle, payload = .demo id demo family oracle →
    ∃ fact ∈ s.facts, fact.id = id ∧ fact.demo = some demo ∧ demo ≠ ""
  fresh : (s.intents.map (·.id)).Nodup → Fresh step payload calls

/-- A dispatch may follow: it is the first of its call, or the last one is tried again. -/
def Due (step : Step) (payload : Payload) (s : Sight) (log : List Dispatch) : Prop :=
  ∃ calls attempts, Underway budget step payload s log calls attempts ∧
    (∀ dispatch ∈ attempts.getLast?, dispatch.Retried) ∧
    repeats calls + attempts.length ≤ s.retries

/-- An explored intent is not open any more. -/
def Claimed (step : Step) (payload : Payload) (s : Sight) : Prop :=
  ∀ id, subject step payload = some (.intent id) → s.Settles (.intent id)

/-- The dispatch is on the board that is to be committed. -/
def Booked (step : Step) (payload : Payload) (s : Sight) (log : List Dispatch) : Prop :=
  Due budget step payload s log ∧
    ∀ about, subject step payload = some about → s.Settles about ∨ s.Awaits about

def Ran (step : Step) (payload : Payload) (dispatch : Dispatch) (s : Sight)
    (log : List Dispatch) : Prop :=
  ∃ calls attempts, Underway budget step payload s log calls attempts ∧
    attempts.getLast? = some dispatch ∧ repeats calls + (attempts.length - 1) ≤ s.retries ∧
    Fresh step payload calls ∧ Claimed step payload s

end Predicates

theorem Counted.mono {s t : Sight} {log : List Dispatch} (counted : Counted budget s log)
    (more : s.demonstrations ≤ t.demonstrations) (again : s.retries ≤ t.retries)
    (demonstrations : t.demonstrations ≤ budget.demonstrations)
    (retries : t.retries ≤ budget.retries) : Counted budget t log := by
  obtain ⟨calls, are, verified, repeated⟩ := counted.calls
  exact ⟨demonstrations, retries, calls, are, verified.trans more, repeated.trans again⟩

/-- A sight with the same board but for settled intents, and more retries at most. -/
structure Sight.Moves (budget : SearchBudget) (s t : Sight) : Prop where
  facts : t.facts = s.facts
  ids : t.intents.map (·.id) = s.intents.map (·.id)
  endReason : t.endReason = s.endReason
  demonstrations : t.demonstrations = s.demonstrations
  retries : s.retries ≤ t.retries
  within : t.retries ≤ budget.retries
  keeps : s.Keeps t

section Moves
variable {step : Step} {payload : Payload} {s t : Sight} {log : List Dispatch}
  {calls : List (List Dispatch)} {attempts : List Dispatch}

theorem Underway.moves (underway : Underway budget step payload s log calls attempts)
    (moves : s.Moves budget t) : Underway budget step payload t log calls attempts where
  live := moves.endReason.trans underway.live
  counted := underway.counted.mono moves.demonstrations.ge moves.retries
    (moves.demonstrations.le.trans underway.counted.demonstrations) moves.within
  typed := underway.typed
  split := underway.split
  before := underway.before
  chain := underway.chain
  same := underway.same
  room := underway.room.trans moves.demonstrations.ge
  settled dispatch there about known := moves.keeps about (underway.settled dispatch there about known)
  carried := by
    rw [moves.facts]
    exact underway.carried
  fresh := by
    rw [moves.ids]
    exact underway.fresh

theorem Due.moves (due : Due budget step payload s log) (moves : s.Moves budget t) :
    Due budget step payload t log := by
  obtain ⟨calls, attempts, underway, again, room⟩ := due
  exact ⟨calls, attempts, underway.moves moves, again, room.trans moves.retries⟩

theorem Ran.moves {dispatch : Dispatch} (ran : Ran budget step payload dispatch s log)
    (moves : s.Moves budget t) : Ran budget step payload dispatch t log := by
  obtain ⟨calls, attempts, underway, last, room, fresh, claimed⟩ := ran
  exact ⟨calls, attempts, underway.moves moves, last, room.trans moves.retries, fresh,
    fun id known => moves.keeps _ (claimed id known)⟩

theorem Underway.about (underway : Underway budget step payload s log calls attempts)
    {dispatch : Dispatch} (there : dispatch ∈ log) :
    dispatch ∈ calls.flatten ∨ dispatch.subject = subject step payload := by
  rw [underway.split] at there
  rcases mem_append.mp there with old | own
  · exact Or.inl old
  · obtain ⟨steps, payloads⟩ := underway.same dispatch own
    rw [Dispatch.subject, steps, payloads]
    exact Or.inr rfl

theorem Underway.ready (underway : Underway budget step payload s log calls attempts)
    (own : ∀ about, subject step payload = some about → s.Settles about) : Ready budget s log where
  live := underway.live
  counted := underway.counted
  settled dispatch there about known := by
    rcases underway.about there with old | same
    · exact underway.settled dispatch old about known
    · exact own about (same.symm.trans known)

theorem Ready.sound (ready : Ready budget s log) : Sound budget s log where
  counted := ready.counted
  settled _ dispatch there about known := Or.inl (ready.settled dispatch there about known)
  goal met := by
    rw [ready.live] at met
    cases met
  named empty := by
    rw [ready.live] at empty
    cases empty

theorem Underway.sound (underway : Underway budget step payload s log calls attempts)
    (booked : ∀ about, subject step payload = some about → s.Settles about ∨ s.Awaits about) :
    Sound budget s log where
  counted := underway.counted
  settled _ dispatch there about known := by
    rcases underway.about there with old | same
    · exact Or.inl (underway.settled dispatch old about known)
    · exact booked about (same.symm.trans known)
  goal met := by
    rw [underway.live] at met
    cases met
  named empty := by
    rw [underway.live] at empty
    cases empty

theorem Booked.sound (booked : Booked budget step payload s log) : Sound budget s log := by
  obtain ⟨⟨calls, attempts, underway, -, -⟩, own⟩ := booked
  exact underway.sound own

end Moves

section Dispatching
variable {step : Step} {payload : Payload} {s : Sight} {log : List Dispatch}
  {calls : List (List Dispatch)} {attempts : List Dispatch} {dispatch : Dispatch}

theorem AreCalls.snoc (are : AreCalls calls calls.flatten) (attempted : attempts ≠ [])
    (chain : attempts.IsChain Follows) (typed : Typed step payload)
    (same : ∀ dispatch ∈ attempts, dispatch.task.step = step ∧ dispatch.task.payload = payload)
    (fresh : Fresh step payload calls) :
    AreCalls (calls ++ [attempts]) (calls.flatten ++ attempts) where
  split := by rw [flatten_append, flatten_singleton]
  each other there := by
    rcases mem_append.mp there with old | new
    · exact are.each other old
    · rw [mem_singleton.mp new]
      refine ⟨attempted, chain, fun dispatch own => ?_⟩
      obtain ⟨steps, payloads⟩ := same dispatch own
      rw [steps, payloads]
      exact typed
  apart := by
    rw [filterMap_append]
    cases about : subject step payload with
    | none =>
      have none : [attempts].filterMap subjectOf = [] := by
        rw [filterMap_cons_none ((subjectOf_of_same attempted same).trans about)]
        rfl
      rw [none, append_nil]
      exact are.apart
    | some about' =>
      have one : [attempts].filterMap subjectOf = [about'] := by
        rw [filterMap_cons_some ((subjectOf_of_same attempted same).trans about)]
        rfl
      rw [one]
      refine nodup_append'.mpr ⟨are.apart, nodup_singleton _, ?_⟩
      intro other old new
      rw [mem_singleton.mp new] at old
      exact fresh about' about old

/-- One more dispatch of a retried call is a further attempt at it. -/
theorem Underway.run (underway : Underway budget step payload s log calls attempts)
    (again : ∀ dispatch ∈ attempts.getLast?, dispatch.Retried)
    (room : repeats calls + attempts.length ≤ s.retries) (fresh : Fresh step payload calls)
    (own : dispatch.task.step = step ∧ dispatch.task.payload = payload) :
    Underway budget step payload s (log ++ [dispatch]) calls (attempts ++ [dispatch]) := by
  have attempted : attempts ++ [dispatch] ≠ [] := append_ne_nil_of_right_ne_nil _ (by simp)
  have chain := chain_snoc underway.chain underway.same again own
  have same : ∀ other ∈ attempts ++ [dispatch],
      other.task.step = step ∧ other.task.payload = payload := by
    intro other there
    rcases mem_append.mp there with old | new
    · exact underway.same other old
    · rw [mem_singleton.mp new]
      exact own
  have split : log ++ [dispatch] = calls.flatten ++ (attempts ++ [dispatch]) := by
    rw [underway.split, append_assoc]
  have are := underway.before.snoc attempted chain underway.typed same fresh
  have counted : Counted budget s (log ++ [dispatch]) := by
    refine ⟨underway.counted.demonstrations, underway.counted.retries, _, split ▸ are, ?_, ?_⟩
    · have verified := verifies_of_same attempted same
      have room : List.countP verifies calls + (if step = .verify then 1 else 0) ≤
        s.demonstrations := underway.room
      rw [verifications, countP_append, countP_singleton, verified]
      simpa only [decide_eq_true_eq] using room
    · rw [repeats_append]
      simpa only [repeats, map_singleton, sum_singleton, length_append,
        length_singleton, Nat.add_sub_cancel] using room
  exact { underway with counted, split, chain, same }

theorem Ran.of_booked (booked : Booked budget step payload s log)
    (apart : (s.intents.map (·.id)).Nodup)
    (own : dispatch.task.step = step ∧ dispatch.task.payload = payload) :
    Ran budget step payload dispatch s (log ++ [dispatch]) := by
  obtain ⟨⟨calls, attempts, underway, again, room⟩, subjects⟩ := booked
  have fresh := underway.fresh apart
  refine ⟨calls, _, underway.run again room fresh own, List.getLast?_concat, ?_, fresh, ?_⟩
  · rw [length_append, length_singleton, Nat.add_sub_cancel]
    exact room
  · exact fun id known => (subjects _ known).resolve_right not_false

theorem Ran.due {t : Sight} (ran : Ran budget step payload dispatch s log) (retried : dispatch.Retried)
    (moves : s.Moves budget t) (more : s.retries + 1 ≤ t.retries) :
    Due budget step payload t log := by
  obtain ⟨calls, attempts, underway, last, room, -⟩ := ran
  refine ⟨calls, attempts, underway.moves moves, fun other ends => ?_, ?_⟩
  · rw [last] at ends
    cases ends
    exact retried
  · omega

theorem Ran.counted (ran : Ran budget step payload dispatch s log) : Counted budget s log := by
  obtain ⟨_, _, underway, -⟩ := ran
  exact underway.counted

theorem Due.counted (due : Due budget step payload s log) : Counted budget s log := by
  obtain ⟨_, _, underway, -⟩ := due
  exact underway.counted

end Dispatching

/-- A predicate on what the calls depend on, and a sound committed board. -/
def At (budget : SearchBudget) (known : Sight → List Dispatch → Prop) (memory : Memory)
    (world : World) : Prop :=
  known memory.sight world.log ∧ Sound budget world.durable.sight world.log

/-- An exhausted budget is caught, and the board is committed once more. -/
def Leaves (budget : SearchBudget) : Stop → Memory → World → Prop
  | .exhausted _, memory, world => At budget (Counted budget) memory world
  | .raised, _, _ => True

def Inv (budget : SearchBudget) (world : World) : Prop :=
  Sound budget world.durable.sight world.log

def Frames {α : Type} (budget : SearchBudget) (piece : Coordination α) : Prop :=
  ∀ known : Sight → List Dispatch → Prop, (∀ s log, known s log → Counted budget s log) →
    Meets checkedAnswers (Inv budget) (At budget known) piece (fun _ => At budget known)
      (Leaves budget)

variable {known : Sight → List Dispatch → Prop}

theorem At.leaves {memory : Memory} {world : World} (holds : At budget known memory world)
    (counts : ∀ s log, known s log → Counted budget s log) (stop : Stop) :
    Leaves budget stop memory world := by
  cases stop with
  | exhausted _ => exact ⟨counts _ _ holds.1, holds.2⟩
  | raised => trivial

namespace Frames

variable {α β : Type}

theorem pure (value : α) : Frames budget (Pure.pure value) :=
  fun _ _ => Meets.pure fun _ _ holds => holds

theorem throw (stop : Stop) : Frames (α := α) budget (MonadExcept.throw stop) :=
  fun _ counts => Meets.throw fun _ _ holds => holds.leaves counts stop

theorem bind {piece : Coordination α} {f : α → Coordination β} (first : Frames budget piece)
    (rest : ∀ value, Frames budget (f value)) : Frames budget (piece >>= f) :=
  fun known counts => Meets.bind (first known counts) fun value => rest value known counts

theorem get : Frames budget MonadState.get := fun _ _ _ _ holds => Leads.get holds

theorem change {change : Memory → Memory} (same : ∀ memory, (change memory).sight = memory.sight) :
    Frames budget (modify change) := by
  refine fun known _ => Meets.change fun memory world holds => ?_
  rw [At, same]
  exact holds

end Frames

theorem save_checked (sound : ∀ s log, known s log → Sound budget s log) :
    Meets checkedAnswers (Inv budget) (At budget known) save
      (fun _ memory world => At budget known memory world ∧
        world.durable.sight = memory.sight ∧ (memory.sight.intents.map (·.id)).Nodup)
      (Leaves budget) := by
  intro memory world holds
  refine fun (now : ℚ) _ same => ?_
  cases same.1
  refine ⟨holds.2, fun committed after answered => ?_⟩
  obtain ⟨⟨rfl, -, rfl⟩ | ⟨rfl, rfl⟩, valid⟩ := answered
  · have kept := sound _ _ holds.1
    exact ⟨kept, ⟨holds.1, kept⟩, rfl, (valid rfl).intentIds⟩
  · exact ⟨holds.2, trivial⟩

theorem save_at (sound : ∀ s log, known s log → Sound budget s log) :
    Meets checkedAnswers (Inv budget) (At budget known) save (fun _ => At budget known)
      (Leaves budget) :=
  (save_checked sound).mono (fun _ _ holds => holds) (fun _ _ _ after => after.1)
    fun _ _ _ leaves => leaves

def Ends (budget : SearchBudget) (reason : String) (s : Sight) (log : List Dispatch) : Prop :=
  Counted budget s log ∧ (reason = "goal_met" →
    ∃ dispatch, log.getLast? = some dispatch ∧ Demonstrates s.facts dispatch)

theorem finish_checked {reason : String} (endDetail : Option String) (named : reason ≠ "") :
    Meets checkedAnswers (Inv budget) (At budget (Ends budget reason)) (finish reason endDetail)
      (fun _ _ _ => True) (Leaves budget) := by
  intro memory world holds
  unfold finish
  have saves : Leads checkedAnswers (Inv budget) (fun _ _ _ => True) (Leaves budget)
      (do
        modifyState fun state => { state with endReason := some reason, endDetail := endDetail }
        save) memory world := by
    refine .bind (.change ?_)
    let ended (s : Sight) (log : List Dispatch) : Prop :=
      s.endReason = some reason ∧ Ends budget reason s log
    have sound (s : Sight) (log : List Dispatch) (ends : ended s log) : Sound budget s log := by
      refine ⟨ends.2.1, fun live => ?_, fun met => ?_, fun empty => ?_⟩
      · rw [ends.1] at live
        cases live
      · rw [ends.1] at met
        exact ends.2.2 (Option.some.inj met)
      · rw [ends.1] at empty
        exact named (Option.some.inj empty)
    have before : At budget ended { memory with
        state := { memory.state with endReason := some reason, endDetail := endDetail } } world := by
      obtain ⟨counted, met⟩ := holds.1
      exact ⟨⟨rfl, ⟨counted.demonstrations, counted.retries, counted.calls⟩, met⟩, holds.2⟩
    exact (save_at sound _ _ before).mono (fun _ _ _ _ => trivial) fun _ _ _ leaves => leaves
  split
  · exact .bind (.throw trivial)
  · exact saves

section Still

variable {memory : Memory} {world : World} {left : Stop → Memory → World → Prop}

section
variable (sound : Inv budget world)
include sound

theorem ask_still {request : Request} {post : request.Answer → Memory → World → Prop}
    (still : ∀ reply before after, answers request reply before after → after = before)
    (holds : ∀ reply, post reply memory world) :
    Leads checkedAnswers (Inv budget) post left (ask request) memory world := by
  refine .ask fun reply after answered => ?_
  rw [still reply world after answered.1]
  exact ⟨sound, holds reply⟩

theorem remaining_still {post : ℚ → Memory → World → Prop}
    (holds : ∀ time, post time memory world) :
    Leads checkedAnswers (Inv budget) post left (remaining budget) memory world :=
  Leads.bind (ask_still sound (fun _ _ _ same => same)
    fun _ => Leads.bind (.get (.pure (holds _))))

theorem snapshot_still {post : String → Memory → World → Prop}
    (holds : ∀ text, post text memory world) (fails : left .raised memory world) :
    Leads checkedAnswers (Inv budget) post left (snapshot budget) memory world := by
  refine .bind (remaining_still sound fun _ => ?_)
  refine .bind (ask_still sound (fun _ _ _ same => same) fun text => ?_)
  cases text with
  | some text => exact .pure (holds text)
  | none => exact .throw fails

theorem searchTask_still {id : String} {step : Step} {payload : Payload} {wall : ℚ} {lane : Lane}
    {post : Task → Memory → World → Prop}
    (holds : ∀ text, post ⟨id, step, text, payload, wall, lane⟩ memory world)
    (fails : left .raised memory world) :
    Leads checkedAnswers (Inv budget) post left (searchTask budget id step payload wall lane)
      memory world := by
  refine .bind (snapshot_still sound (fun text => ?_) fails)
  exact .ite (fun _ => Leads.bind (.throw fails)) fun _ => Leads.pure (holds text)

end

end Still

theorem Frames.remaining : Frames budget (remaining budget) :=
  fun _ _ _ _ holds => remaining_still holds.2 fun _ => holds

theorem Frames.charge (maximum : ℚ) (actual : Option ℚ) : Frames budget (charge maximum actual) := by
  intro known counts memory world holds
  unfold Search.charge
  refine .bind (.get ?_)
  split
  next meter _ =>
    refine .bind (.set (.bind ?_))
    exact ask_still holds.2 (fun _ _ _ same => same) fun _ => Leads.pure holds
  next =>
    split
    · exact .throw trivial
    · refine .bind (.set (.bind ?_))
      exact ask_still holds.2 (fun _ _ _ same => same) fun _ => Leads.pure holds

section Intents
variable {id : String} {change : Intent → Intent} {intents : List Intent}

section
variable (same : ∀ intent, (change intent).id = intent.id)
include same

private theorem map_id_updateIntent :
    (updateIntent id change intents).map (·.id) = intents.map (·.id) := by
  induction intents with
  | nil => rfl
  | cons intent rest ih =>
    rw [updateIntent]
    split
    · rw [map_cons, map_cons, same]
    · rw [map_cons, map_cons, ih]

theorem mem_updateIntent (closed : ∀ intent, (change intent).status ≠ .opened) {intent : Intent}
    (there : intent ∈ intents) (settled : intent.status ≠ .opened) :
    ∃ later ∈ updateIntent id change intents, later.id = intent.id ∧ later.status ≠ .opened := by
  induction intents with
  | nil => cases there
  | cons first rest ih =>
    rw [updateIntent]
    rcases mem_cons.mp there with rfl | later
    · split
      · exact ⟨_, mem_cons_self, same intent, closed intent⟩
      · exact ⟨_, mem_cons_self, rfl, settled⟩
    · split
      · exact ⟨intent, mem_cons_of_mem _ later, rfl, settled⟩
      · obtain ⟨found, member, rest⟩ := ih later
        exact ⟨found, mem_cons_of_mem _ member, rest⟩

private theorem updated_updateIntent
    (closed : ∀ intent, (change intent).status ≠ .opened) (there : ∃ intent ∈ intents, intent.id = id) :
    ∃ later ∈ updateIntent id change intents, later.id = id ∧ later.status ≠ .opened := by
  obtain ⟨intent, there, rfl⟩ := there
  induction intents with
  | nil => cases there
  | cons first rest ih =>
    rw [updateIntent]
    split
    next found => exact ⟨_, mem_cons_self, (same first).trans found, closed first⟩
    next other =>
      have later := (mem_cons.mp there).resolve_left fun is => other (is ▸ rfl)
      obtain ⟨found, member, rest⟩ := ih later
      exact ⟨found, mem_cons_of_mem _ member, rest⟩

end

end Intents

theorem Sight.Moves.intents {s : Sight} {id : String} {change : Intent → Intent}
    (within : s.retries ≤ budget.retries) (same : ∀ intent, (change intent).id = intent.id)
    (closed : ∀ intent, (change intent).status ≠ .opened) :
    s.Moves budget { s with intents := updateIntent id change s.intents } where
  facts := rfl
  ids := map_id_updateIntent same
  endReason := rfl
  demonstrations := rfl
  retries := le_refl _
  within := within
  keeps about settled := by
    cases about with
    | fact id => exact settled
    | intent other =>
      obtain ⟨intent, there, rfl, settled⟩ := settled
      exact mem_updateIntent same closed there settled

private theorem awaits_of_payload {step : Step} {payload : Payload} {s : Sight} {id : String}
    (none : ∀ id description, payload ≠ .intent id description)
    (pending : s.pending = some ⟨id, step, payload⟩) (about : Subject)
    (known : subject step payload = some about) : s.Settles about ∨ s.Awaits about := by
  cases step <;> cases payload <;> cases known
  · exact absurd rfl (none _ _)
  · exact Or.inr ⟨_, pending, _, _, _, rfl⟩

private theorem prepare_checked (step : Step) (payload : Payload) (lane : Lane) :
    Meets checkedAnswers (Inv budget) (At budget (Due budget step payload))
      (prepare budget step payload lane)
      (fun task memory world => task.step = step ∧ task.payload = payload ∧
        At budget (Booked budget step payload) memory world ∧
        world.durable.sight = memory.sight ∧ (memory.sight.intents.map (·.id)).Nodup)
      (Leaves budget) := by
  intro memory world holds
  -- until the call is booked it leaves the memory as it found it
  have leaves (stop : Stop) (memory : Memory) (world : World)
      (holds : At budget (Due budget step payload) memory world) : Leaves budget stop memory world :=
    holds.leaves (fun _ _ => Due.counted) stop
  unfold prepare
  refine .bind (remaining_still holds.2 fun left => ?_)
  -- no time, no calls and no tokens left: three ways to stop before the call is booked
  refine .bind (.get ?_)
  dsimp only
  split
  · exact .bind (.throw (leaves _ _ _ holds))
  split
  · exact .bind (.throw (leaves _ _ _ holds))
  split
  · exact .bind (.throw (leaves _ _ _ holds))
  next meter _ =>
  refine .bind (.set (.bind ?_))
  refine ask_still holds.2 (fun _ _ _ same => same) fun granted => ?_
  split
  · exact .bind (.set (.bind (.throw (leaves _ _ _ holds))))
  refine .bind (searchTask_still holds.2 (fun first => ?_) trivial)
  refine .bind (.change ?_)
  -- a booked call is committed before it is dispatched
  have saves (task : Task) (steps : task.step = step) (payloads : task.payload = payload) :
      Meets checkedAnswers (Inv budget) (At budget (Booked budget step payload))
      (do
        save
        let text ← snapshot budget
        return { task with snapshot := text })
      (fun task memory world => task.step = step ∧ task.payload = payload ∧
        At budget (Booked budget step payload) memory world ∧
        world.durable.sight = memory.sight ∧ (memory.sight.intents.map (·.id)).Nodup)
      (Leaves budget) := by
    intro memory' world' booked
    refine .bind ((save_checked (fun _ _ => Booked.sound) memory' world' booked).mono ?_
      fun _ _ _ leaves => leaves)
    rintro - memory'' world'' ⟨booked, committed, apart⟩
    refine .bind (snapshot_still booked.2 (fun text => ?_) trivial)
    exact .pure ⟨steps, payloads, booked, committed, apart⟩
  have within : memory.sight.retries ≤ budget.retries := holds.1.counted.retries
  let id := taskId (memory.progress.tasks + 1)
  let awaiting : Sight := { memory.sight with pending := some ⟨id, step, payload⟩ }
  have moves : memory.sight.Moves budget awaiting :=
    ⟨rfl, rfl, rfl, rfl, le_refl _, within, fun about settled => by cases about <;> exact settled⟩
  split
  next intent description =>
    split
    · exact .bind (.throw trivial)
    next found =>
      -- the call claims its intent, so that no other call takes it up
      let claim := fun intent : Intent =>
        { intent with status := .claimed, claimant := some id }
      have same (intent : Intent) : (claim intent).id = intent.id := rfl
      have closed (intent : Intent) : (claim intent).status ≠ .opened := fun open_ => by cases open_
      have claims : awaiting.Moves budget
          { awaiting with intents := updateIntent intent claim awaiting.intents } :=
        Sight.Moves.intents within same closed
      refine .bind (.change (saves _ rfl rfl _ _ ⟨⟨?_, ?_⟩, holds.2⟩))
      · exact (holds.1.moves moves).moves claims
      · intro about known
        have own : about = .intent intent := by
          cases step <;> cases known
          rfl
        have there : ∃ present ∈ memory.state.intents, present.id = intent := by
          -- the intent is there: otherwise the call was refused
          by_contra absent
          refine found (all_eq_true.mpr fun present there => decide_eq_true fun is => ?_)
          exact absent ⟨present, there, is⟩
        rw [own]
        exact Or.inl (updated_updateIntent same closed there)
  next none =>
    exact saves _ rfl rfl _ _ ⟨⟨holds.1.moves moves, awaits_of_payload none rfl⟩, holds.2⟩

private theorem execute_checked {step : Step} {payload : Payload} (task : Task) :
    Meets checkedAnswers (Inv budget)
      (fun memory world => task.step = step ∧ task.payload = payload ∧
        At budget (Booked budget step payload) memory world ∧
        world.durable.sight = memory.sight ∧ (memory.sight.intents.map (·.id)).Nodup)
      (execute task)
      (fun outcome memory world =>
        ∃ cost, At budget (Ran budget step payload ⟨task, cost, outcome⟩) memory world)
      (Leaves budget) := by
  refine Meets.ask fun memory world outcome after before answered => ?_
  obtain ⟨steps, payloads, ⟨booked, -⟩, committed, apart⟩ := before
  obtain ⟨⟨cost, rfl⟩, -⟩ := answered
  have ran : Ran budget step payload ⟨task, cost, outcome⟩ memory.sight _ :=
    Ran.of_booked booked apart ⟨steps, payloads⟩
  have ⟨_, _, underway, _⟩ := ran
  have sound : Sound budget world.durable.sight (world.log ++ [⟨task, cost, outcome⟩]) := by
    rw [committed]
    exact underway.sound booked.2
  exact ⟨sound, cost, ran, sound⟩

def Yields (dispatch : Dispatch) (result : Result) : Prop :=
  dispatch.outcome = .returned (.obj result.fields) ∨
    result.fields = [("status", .str "invalid_result")]

def Attempted (budget : SearchBudget) (step : Step) (payload : Payload) :
    Option Result → Memory → World → Prop
  | none, memory, world => At budget (Due budget step payload) memory world
  | some result, memory, world => ∃ dispatch, Yields dispatch result ∧
      At budget (Ran budget step payload dispatch) memory world

/-- The fields of a returned value as `_call` goes on with them. -/
def settledFields (kept : Bool) (value : Json) : List (String × Json) :=
  if kept then
    match value with
    | .obj fields => fields
    | _ => [("status", .str "invalid_result")]
  else [("status", .str "invalid_cost")]

private theorem yields_settled {kept : Bool} {value : Json} {task : Task} {cost : ℚ}
    (valid : ¬ (⟨settledFields kept value, task.id⟩ : Result).hasStatus "invalid_cost" = true) :
    Yields ⟨task, cost, .returned value⟩ ⟨settledFields kept value, task.id⟩ := by
  cases kept with
  | false => exact absurd rfl valid
  | true =>
    cases value with
    | obj fields => exact Or.inl rfl
    | _ => exact Or.inr rfl

private theorem retried_settled {dispatch : Dispatch} {result : Result}
    (answers : Yields dispatch result) (own : result.taskId = dispatch.task.id)
    (again : retried result = true) : dispatch.Retried := by
  rcases answers with returned | invalid
  · refine ⟨result.fields, returned, ?_⟩
    rw [← own]
    exact again
  · rw [retried, Result.hasStatus, Result.hasStatus, Result.hasStatus, Result.get, invalid] at again
    cases again

theorem settleCall_checked {step : Step} {payload : Payload} (task : Task) (cost dispatchedAt : ℚ)
    (value : Json) :
    Meets checkedAnswers (Inv budget)
      (At budget (Ran budget step payload ⟨task, cost, .returned value⟩))
      (settleCall budget decimal task dispatchedAt value) (Attempted budget step payload)
      (Leaves budget) := by
  let ran := Ran budget step payload ⟨task, cost, .returned value⟩
  have counts (s : Sight) (log : List Dispatch) (holds : ran s log) : Counted budget s log :=
    holds.counted
  intro memory world holds
  unfold settleCall
  dsimp only
  refine .bind ((Frames.charge _ _ ran counts memory world holds).mono ?_
    fun _ _ _ leaves => leaves)
  intro kept memory world holds
  have within : memory.sight.retries ≤ budget.retries := (counts _ _ holds.1).retries
  refine .bind (.change ?_)
  -- settling clears the pending call and touches nothing else the count reads
  have moves : memory.sight.Moves budget { memory.sight with pending := none } :=
    ⟨rfl, rfl, rfl, rfl, le_refl _, within, fun about settled => by cases about <;> exact settled⟩
  have settled := holds.1.moves moves
  -- an answer of the wrong shape raises before anything is appended
  refine .ite (fun _ => Leads.bind (.throw ⟨settled.counted, holds.2⟩)) fun valid => ?_
  have answered : Yields ⟨task, cost, .returned value⟩ ⟨settledFields kept value, task.id⟩ :=
    yields_settled valid
  refine .bind (remaining_still holds.2 fun left => ?_)
  refine .ite (fun _ => Leads.bind (remaining_still holds.2 fun _ => ?_)) fun _ => ?_
  · exact .bind (.throw ⟨settled.counted, holds.2⟩)
  refine .bind (ask_still holds.2 (fun _ _ _ same => same) fun now => ?_)
  refine .ite (fun _ => Leads.bind (remaining_still holds.2 fun _ => ?_)) fun _ => ?_
  · exact .bind (.throw ⟨settled.counted, holds.2⟩)
  refine .bind (.get (.ite (fun again => ?_) fun _ => Leads.ite ?_ ?_))
  · -- the call is tried again: one more attempt is due, under the same task
    obtain ⟨again, below⟩ := Bool.and_eq_true_iff.mp again
    have below : memory.progress.retries < budget.retries := of_decide_eq_true below
    refine .bind (.change (.pure ⟨?_, holds.2⟩))
    refine settled.due (retried_settled answered rfl again) ⟨rfl, rfl, rfl, rfl, ?_, below, ?_⟩ ?_
    · exact Nat.le_succ _
    · exact fun about settled => by cases about <;> exact settled
    · exact le_refl _
  · exact fun _ => Leads.bind (.change (.pure ⟨_, answered, settled, holds.2⟩))
  · exact fun _ => Leads.pure ⟨_, answered, settled, holds.2⟩

private theorem attempt_checked (step : Step) (payload : Payload) (lane : Lane) :
    Meets checkedAnswers (Inv budget) (At budget (Due budget step payload))
      (attempt budget decimal step payload lane) (Attempted budget step payload)
      (Leaves budget) := by
  intro memory world holds
  unfold attempt
  refine .bind ((prepare_checked step payload lane memory world holds).mono ?_
    fun _ _ _ leaves => leaves)
  intro task memory world before
  refine .bind (ask_still before.2.2.1.2 (fun _ _ _ same => same) fun dispatchedAt => ?_)
  refine .bind ((execute_checked task memory world before).mono ?_ fun _ _ _ leaves => leaves)
  rintro outcome memory world ⟨cost, holds⟩
  -- A dispatch that raises is charged, and the call ends.
  have ends (stop : Stop) : Leads checkedAnswers (Inv budget) (Attempted budget step payload)
      (Leaves budget)
      (do
        let _ ← charge (budget.maximum step) none
        MonadExcept.throw stop : Coordination (Option Result)) memory world := by
    refine .bind ((Frames.charge _ _ _ (fun _ _ => Ran.counted) memory world holds).mono ?_
      fun _ _ _ leaves => leaves)
    exact fun _ _ _ holds => Leads.throw (holds.leaves (fun _ _ => Ran.counted) stop)
  cases outcome with
  | raised => exact ends .raised
  | exhausted endDetail => exact ends (.exhausted endDetail)
  | returned value => exact settleCall_checked task cost dispatchedAt value memory world holds

private theorem callLoop_checked (step : Step) (payload : Payload) (left : Nat) (lane : Lane) :
    Meets checkedAnswers (Inv budget) (At budget (Due budget step payload))
      (callLoop budget decimal step payload left lane)
      (fun result => Attempted budget step payload (some result)) (Leaves budget) := by
  induction left generalizing lane with
  | zero => exact Meets.throw fun _ _ _ => trivial
  | succ left ih =>
    refine Meets.bind (attempt_checked step payload lane) fun result => ?_
    cases result with
    | some result => exact Meets.pure fun _ _ returned => returned
    | none => exact ih .docker

theorem call_checked (step : Step) (payload : Payload) :
    Meets checkedAnswers (Inv budget) (At budget (Due budget step payload))
      (call budget decimal step payload)
      (fun result => Attempted budget step payload (some result)) (Leaves budget) :=
  callLoop_checked step payload _ _

end OpenUltraSast.Search
