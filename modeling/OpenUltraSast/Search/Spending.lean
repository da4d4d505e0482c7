import Mathlib.Tactic.Linarith
import OpenUltraSast.Search.Coordinator

/-!
# What a search spends

Each dispatch is recorded durably, with its whole allowance, before it begins; so what was
committed last covers what was spent, wherever the process is cut.
-/

namespace OpenUltraSast.Search

open Values Programs Option

variable (budget : SearchBudget) (decimal : String → Option ℚ)

/-- What the executor promises of a dispatch: a model task costs at most its allowance and
reports its cost or none, and a verification costs nothing. -/
def Dispatch.Honest (dispatch : Dispatch) : Prop :=
  0 ≤ dispatch.cost ∧ dispatch.cost ≤ budget.maximum dispatch.task.step ∧
    ∀ fields cost, dispatch.outcome = .returned (.obj fields) →
      fields.lookup "cost_usd" = some cost → dispatch.task.step ≠ .verify →
        amount decimal cost = some dispatch.cost

def Honest (log : List Dispatch) : Prop := ∀ dispatch ∈ log, dispatch.Honest budget decimal

def totalCost (log : List Dispatch) : ℚ := (log.map (·.cost)).sum

/-- `tasks` and `spent_usd` of the last committed checkpoint. -/
def World.tasks (world : World) : Nat := (world.durable.checkpoint.map (·.tasks)).getD 0

def World.spentUsd (world : World) : ℚ := (world.durable.checkpoint.map (·.spentUsd)).getD 0

def Numbered (log : List Dispatch) (tasks : Nat) : Prop :=
  (log.map (·.task.id)).Nodup ∧ log.length ≤ tasks ∧
    ∀ dispatch ∈ log, ∃ k, 1 ≤ k ∧ k ≤ tasks ∧ dispatch.task.id = taskId k

theorem Numbered.mono {log : List Dispatch} {tasks more : Nat} (numbered : Numbered log tasks)
    (le : tasks ≤ more) : Numbered log more := by
  obtain ⟨apart, many, numbers⟩ := numbered
  refine ⟨apart, many.trans le, fun dispatch member => ?_⟩
  obtain ⟨k, first, last, id⟩ := numbers dispatch member
  exact ⟨k, first, last.trans le, id⟩

structure Covered (world : World) : Prop where
  numbered : Numbered world.log world.tasks
  within : world.tasks ≤ budget.tasks
  spent : Honest budget decimal world.log → totalCost world.log ≤ world.spentUsd
  capped : world.spentUsd ≤ budget.spendUsd

/-- What of a memory the spending depends on. -/
structure View where
  tasks : Nat
  spentUsd : ℚ
  meter : SpendBudget

def Memory.view (memory : Memory) : View :=
  ⟨memory.progress.tasks, memory.progress.spentUsd, memory.meter⟩

structure Bounded (view : View) (world : World) : Prop where
  covered : Covered budget decimal world
  recorded : world.tasks ≤ view.tasks
  within : view.tasks ≤ budget.tasks
  spent : Honest budget decimal world.log → totalCost world.log ≤ view.spentUsd
  capped : view.spentUsd ≤ budget.spendUsd
  cap : view.meter.cap = budget.spendUsd
  room : view.meter.spent + view.meter.reserved ≤ view.meter.cap

structure Covering (view : View) (world : World) : Prop extends
    Bounded budget decimal view world where
  metered : Honest budget decimal world.log → totalCost world.log ≤ view.meter.spent
  reserved : 0 ≤ view.meter.reserved

/-- A piece that covers what it dispatches, however it is left. -/
def Covers {α : Type} (piece : Coordination α) : Prop :=
  Programs.Meets answers (Covered budget decimal)
    (fun memory world => Covering budget decimal memory.view world) piece
    (fun _ memory world => Covering budget decimal memory.view world)
    (fun _ memory world => Covering budget decimal memory.view world)

variable {budget decimal}

namespace Covers

variable {α β : Type}

theorem pure (value : α) : Covers budget decimal (Pure.pure value) :=
  Meets.pure fun _ _ covering => covering

theorem throw (stop : Stop) : Covers (α := α) budget decimal (MonadExcept.throw stop) :=
  Meets.throw fun _ _ covering => covering

variable {f : α → Coordination β} {piece : Coordination α}

theorem bind (first : Covers budget decimal piece)
    (rest : ∀ value, Covers budget decimal (f value)) : Covers budget decimal (piece >>= f) :=
  Meets.bind first rest

theorem get : Covers budget decimal MonadState.get :=
  fun _ _ covering => Leads.get covering

theorem change {change : Memory → Memory} (same : ∀ memory, (change memory).view = memory.view) :
    Covers budget decimal (modify change) :=
  Meets.change fun memory _ covering => by rw [same]; exact covering

theorem progress {change : Progress → Progress}
    (tasks : ∀ progress, (change progress).tasks = progress.tasks)
    (spent : ∀ progress, (change progress).spentUsd = progress.spentUsd) :
    Covers budget decimal (modifyProgress change) :=
  Covers.change fun memory => by simp [Memory.view, tasks, spent]

theorem state (change : Board → Board) : Covers budget decimal (modifyState change) :=
  Covers.change fun _ => rfl

theorem ask {request : Request}
    (still : ∀ reply before after, answers request reply before after → after = before) :
    Covers budget decimal (Search.ask request) :=
  Meets.ask fun _ _ _ _ covering answered => by
    rw [still _ _ _ answered]
    exact ⟨covering.covered, covering⟩

theorem clock : Covers budget decimal Search.clock := ask fun _ _ _ same => same

variable {p : Prop}

theorem ite [Decidable p] {piece other : Coordination α}
    (first : Covers budget decimal piece) (second : Covers budget decimal other) :
    Covers budget decimal (if p then piece else other) := by
  split
  · exact first
  · exact second

theorem refuse {stop : Stop} :
    Covers budget decimal (MonadExcept.throw stop >>= f) :=
  fun _ _ covering => Leads.bind (.throw covering)

theorem either [Decidable p] {value : α}
    (runs : Covers budget decimal piece)
    (rest : ∀ value, Covers budget decimal (f value)) :
    Covers budget decimal (if p then piece >>= f else f value) :=
  ite (bind runs rest) (rest value)

theorem when [Decidable p] {piece : Coordination Unit} {f : Unit → Coordination β}
    (runs : Covers budget decimal piece) (rest : Covers budget decimal (f ())) :
    Covers budget decimal (if p then piece >>= f else f ()) :=
  either runs fun _ => rest

theorem tryCatch {handle : Stop → Coordination α}
    (tried : Covers budget decimal piece) (handled : ∀ stop, Covers budget decimal (handle stop)) :
    Covers budget decimal (MonadExcept.tryCatch piece handle) :=
  Meets.tryCatch tried handled

end Covers

theorem Covering.commit (memory : Memory) {world : World} (board : Board)
    (covering : Covering budget decimal memory.view world)
    (checkpoint : board.checkpoint = some memory.progress) :
    Covering budget decimal memory.view { world with durable := board } := by
  have tasks : World.tasks { world with durable := board } = memory.progress.tasks := by
    simp [World.tasks, checkpoint]
  have spent : World.spentUsd { world with durable := board } = memory.progress.spentUsd := by
    simp [World.spentUsd, checkpoint]
  refine { covering with
    covered := ⟨?_, tasks ▸ covering.within, fun honest => spent ▸ covering.spent honest,
      spent ▸ covering.capped⟩
    recorded := tasks.le }
  rw [tasks]
  exact covering.covered.numbered.mono covering.recorded

theorem save_meets (known : View → List Dispatch → Prop) :
    Programs.Meets answers (Covered budget decimal)
      (fun memory world => Covering budget decimal memory.view world ∧ known memory.view world.log)
      save
      (fun _ memory world => Covering budget decimal memory.view world ∧
        known memory.view world.log ∧ world.tasks = memory.view.tasks ∧
        world.spentUsd = memory.view.spentUsd)
      (fun _ memory world => Covering budget decimal memory.view world) := by
  intro memory world before
  obtain ⟨covering, knows⟩ := before
  refine fun (now : ℚ) _ same => ?_
  cases same
  refine ⟨covering.covered, fun committed after answered => ?_⟩
  rcases answered with ⟨rfl, -, rfl⟩ | ⟨rfl, rfl⟩
  · let saved := { memory with progress := { memory.progress with
      wallSeconds := max 0 (now - memory.progress.startedAt) } }
    have covers := Covering.commit saved
      { saved.state with checkpoint := some saved.progress } covering rfl
    exact ⟨covers.covered, covers, knows, rfl, rfl⟩
  · exact ⟨covering.covered, covering⟩

theorem Covers.save : Covers budget decimal save := by
  intro memory world covering
  refine .mono (save_meets (fun _ _ => True) memory world ⟨covering, trivial⟩) ?_ ?_
  · exact fun _ _ _ after => after.1
  · exact fun _ _ _ after => after

theorem Covers.finish (reason : String) (endDetail : Option String) :
    Covers budget decimal (finish reason endDetail) := by
  unfold Search.finish
  exact Covers.when (Covers.throw _) (Covers.bind (Covers.state _) fun _ => Covers.save)

section Still

variable {memory : Memory} {world : World} {left : Stop → Memory → World → Prop}

section
variable (covered : Covered budget decimal world)
include covered

theorem ask_leads {request : Request} {post : request.Answer → Memory → World → Prop}
    (still : ∀ reply before after, answers request reply before after → after = before)
    (holds : ∀ reply, post reply memory world) :
    Leads answers (Covered budget decimal) post left (ask request) memory world := by
  refine .ask fun reply after answered => ?_
  rw [still reply world after answered]
  exact ⟨covered, holds reply⟩

theorem remaining_leads {post : ℚ → Memory → World → Prop}
    (holds : ∀ time, post time memory world) :
    Leads answers (Covered budget decimal) post left (remaining budget) memory world :=
  Leads.bind (ask_leads covered (fun _ _ _ same => same)
    fun _ => Leads.bind (.get (.pure (holds _))))

theorem snapshot_leads {post : String → Memory → World → Prop}
    (holds : ∀ text, post text memory world)
    (fails : left .raised memory world) :
    Leads answers (Covered budget decimal) post left (snapshot budget) memory world := by
  refine .bind (remaining_leads covered fun _ => ?_)
  refine .bind (ask_leads covered (fun _ _ _ same => same) fun text => ?_)
  cases text with
  | some text => exact .pure (holds text)
  | none => exact .throw fails

theorem searchTask_leads {id : String} {step : Step} {payload : Payload} {wall : ℚ} {lane : Lane}
    {post : Task → Memory → World → Prop}
    (holds : ∀ text, post ⟨id, step, text, payload, wall, lane⟩ memory world)
    (fails : left .raised memory world) :
    Leads answers (Covered budget decimal) post left (searchTask budget id step payload wall lane)
      memory world := by
  refine .bind (snapshot_leads covered (fun text => ?_) fails)
  exact .ite (fun _ => Leads.bind (.throw fails)) fun _ => Leads.pure (holds text)

end

end Still

theorem Covers.remaining : Covers budget decimal (remaining budget) :=
  fun _ _ covering => remaining_leads covering.covered fun _ => covering

structure Recorded (id : String) (maximum : ℚ) (view : View) (log : List Dispatch) : Prop where
  number : ∃ tasks, view.tasks = tasks + 1 ∧ Numbered log tasks ∧ id = taskId (tasks + 1)
  spent : view.spentUsd = view.meter.spent + maximum
  reserved : maximum ≤ view.meter.reserved

theorem SearchBudget.maximum_nonneg (budget : SearchBudget) (step : Step) :
    0 ≤ budget.maximum step := by
  unfold SearchBudget.maximum
  split
  · exact le_rfl
  · exact budget.maxCallUsd_pos.le

variable {meter : SpendBudget}

theorem Covering.reserve {memory : Memory} {world : World} {amount : ℚ}
    (covering : Covering budget decimal memory.view world) (nonneg : 0 ≤ amount)
    (reserved : memory.meter.reserve amount = some meter) :
    Covering budget decimal { memory with meter : Memory }.view world ∧
      amount ≤ meter.reserved := by
  unfold SpendBudget.reserve at reserved
  split at reserved
  · cases reserved
  next fits =>
    cases reserved
    have room : memory.meter.spent + (memory.meter.reserved + amount) ≤ memory.meter.cap := by
      linarith [not_lt.1 fits]
    have held : 0 ≤ memory.meter.reserved := covering.reserved
    exact ⟨{ covering with room, reserved := add_nonneg held nonneg }, by simpa using held⟩

theorem Covering.record {memory : Memory} {world : World} {maximum : ℚ} (pending : Option Pending)
    (covering : Covering budget decimal memory.view world)
    (more : memory.progress.tasks < budget.tasks) (nonneg : 0 ≤ maximum)
    (reserved : maximum ≤ memory.meter.reserved) :
    let recorded := { memory with progress := { memory.progress with
      tasks := memory.progress.tasks + 1
      pending
      spentUsd := memory.meter.spent + maximum } }
    Covering budget decimal recorded.view world ∧
      Recorded (taskId (memory.progress.tasks + 1)) maximum recorded.view world.log := by
  have room : memory.meter.spent + memory.meter.reserved ≤ memory.meter.cap := covering.room
  have cap : memory.meter.cap = budget.spendUsd := covering.cap
  refine ⟨{ covering with
    recorded := covering.recorded.trans (Nat.le_succ _)
    within := more
    spent := fun honest => ?_
    capped := ?_ }, ⟨_, rfl, covering.covered.numbered.mono covering.recorded, rfl⟩, rfl, reserved⟩
  · exact (covering.metered honest).trans (le_add_of_nonneg_right nonneg)
  · change memory.meter.spent + maximum ≤ budget.spendUsd
    linarith

private theorem prepare_meets (step : Step) (payload : Payload) (lane : Lane) :
    Programs.Meets answers (Covered budget decimal)
      (fun memory world => Covering budget decimal memory.view world)
      (prepare budget step payload lane)
      (fun task memory world => task.step = step ∧ Covering budget decimal memory.view world ∧
        Recorded task.id (budget.maximum step) memory.view world.log ∧
        world.tasks = memory.view.tasks ∧ world.spentUsd = memory.view.spentUsd)
      (fun _ memory world => Covering budget decimal memory.view world) := by
  intro memory world covering
  unfold prepare
  refine .bind (remaining_leads covering.covered fun left => ?_)
  refine .bind (.get ?_)
  dsimp only
  split
  · exact .bind (.throw covering)
  split
  · exact .bind (.throw covering)
  next _ more =>
  split
  · exact .bind (.throw covering)
  next meter reserved =>
  have nonneg := budget.maximum_nonneg step
  obtain ⟨covers, held⟩ := covering.reserve nonneg reserved
  refine .bind (.set (.bind ?_))
  refine ask_leads covers.covered (fun _ _ _ same => same) fun granted => ?_
  split
  · exact .bind (.set (.bind (.throw covering)))
  refine .bind (searchTask_leads covers.covered (fun first => ?_) covers)
  have recorded := Covering.record (some ⟨taskId (memory.progress.tasks + 1), step, payload⟩)
    covers (not_le.1 more) nonneg held
  refine .bind (.change ?_)
  -- The claim of an intent changes nothing the record is about.
  let Ready (memory' : Memory) (world' : World) : Prop :=
    Covering budget decimal memory'.view world' ∧
      Recorded (taskId (memory.progress.tasks + 1)) (budget.maximum step) memory'.view world'.log
  have saves (task : Task) (steps : task.step = step)
      (own : task.id = taskId (memory.progress.tasks + 1)) :
      Programs.Meets answers (Covered budget decimal) Ready
      (do
        save
        let text ← snapshot budget
        return { task with snapshot := text })
      (fun task memory world => task.step = step ∧ Covering budget decimal memory.view world ∧
        Recorded task.id (budget.maximum step) memory.view world.log ∧
        world.tasks = memory.view.tasks ∧ world.spentUsd = memory.view.spentUsd)
      (fun _ memory world => Covering budget decimal memory.view world) := by
    intro memory' world' ready
    refine .bind ((save_meets _ memory' world' ready).mono ?_ fun _ _ _ after => after)
    rintro - memory'' world'' ⟨covers, recorded, tasks, spent⟩
    refine .bind (snapshot_leads covers.covered (fun text => ?_) covers)
    exact .pure ⟨steps, covers, own ▸ recorded, tasks, spent⟩
  split
  · split
    · exact .bind (.throw recorded.1)
    · exact .bind (.change (saves _ rfl rfl _ _ recorded))
  · exact saves _ rfl rfl _ _ recorded

private theorem taskId_injective : Function.Injective taskId := by
  intro number other same
  have digits := congrArg (fun text => Nat.ofDigitChars 10 text.toList 0)
    ((String.append_right_inj _).1 same)
  simpa [Nat.toString_eq_repr, Nat.repr] using digits

variable (budget decimal) in
structure Running (maximum : ℚ) (dispatch : Dispatch) (view : View) (world : World) : Prop extends
    Bounded budget decimal view world where
  honest : Honest budget decimal world.log →
    dispatch.Honest budget decimal ∧ totalCost world.log ≤ view.meter.spent + dispatch.cost
  reserved : maximum ≤ view.meter.reserved

/-- A dispatch that was recorded is covered while it runs. -/
theorem Recorded.run (dispatch : Dispatch) {view : View} {world : World}
    (recorded : Recorded dispatch.task.id (budget.maximum dispatch.task.step) view world.log)
    (covering : Covering budget decimal view world) (tasks : world.tasks = view.tasks)
    (spent : world.spentUsd = view.spentUsd) :
    Running budget decimal (budget.maximum dispatch.task.step) dispatch view
      { world with log := world.log ++ [dispatch] } := by
  obtain ⟨⟨number, more, ⟨apart, many, numbers⟩, id⟩, whole, reserved⟩ := recorded
  -- The log is honest when what went before and the dispatch are.
  have split : Honest budget decimal (world.log ++ [dispatch]) →
      Honest budget decimal world.log ∧ dispatch.Honest budget decimal := fun honest =>
    ⟨fun other member => honest other (List.mem_append_left _ member), honest dispatch (by simp)⟩
  have total : totalCost (world.log ++ [dispatch]) = totalCost world.log + dispatch.cost := by
    simp [totalCost]
  -- An honest dispatch costs no more than the allowance recorded for it.
  have within : Honest budget decimal (world.log ++ [dispatch]) →
      totalCost (world.log ++ [dispatch]) ≤ view.spentUsd := by
    intro honest
    obtain ⟨before, -, atMost, -⟩ := split honest
    rw [total, whole]
    exact add_le_add (covering.metered before) atMost
  refine { covering.toBounded with
    covered := ⟨⟨?_, ?_, ?_⟩, covering.covered.within, fun honest => ?_, covering.covered.capped⟩
    spent := within
    honest := fun honest => ?_
    reserved }
  · rw [List.map_append, List.nodup_append]
    refine ⟨apart, by simp, fun other member new isNew same => ?_⟩
    obtain ⟨earlier, isEarlier, rfl⟩ := List.mem_map.1 member
    obtain ⟨k, -, last, numbered⟩ := numbers earlier isEarlier
    obtain rfl : new = dispatch.task.id := by simpa using isNew
    rw [numbered, id] at same
    have := taskId_injective same
    omega
  · change (world.log ++ [dispatch]).length ≤ world.tasks
    rw [tasks, more]
    simpa using many
  · intro other member
    rcases List.mem_append.1 member with earlier | new
    · obtain ⟨k, first, last, numbered⟩ := numbers other earlier
      exact ⟨k, first, by change k ≤ world.tasks; omega, numbered⟩
    · obtain rfl : other = dispatch := by simpa using new
      exact ⟨number + 1, by omega, by change number + 1 ≤ world.tasks; omega, id⟩
  · exact (within honest).trans spent.ge
  · obtain ⟨before, alone⟩ := split honest
    refine ⟨alone, ?_⟩
    rw [total]
    exact add_le_add_left (covering.metered before) _

variable {dispatch : Dispatch}

theorem Running.settle {memory : Memory} {world : World} {maximum actual : ℚ}
    (running : Running budget decimal maximum dispatch memory.view world)
    (settled : memory.meter.settle maximum actual = some meter)
    (reports : dispatch.Honest budget decimal → dispatch.cost ≤ actual) :
    Covering budget decimal { memory with meter : Memory }.view world := by
  unfold SpendBudget.settle at settled
  split at settled
  · cases settled
  -- The actual cost takes the place of the reservation.
  next atMost =>
    cases settled
    have room : memory.meter.spent + memory.meter.reserved ≤ memory.meter.cap := running.room
    have held : maximum ≤ memory.meter.reserved := running.reserved
    refine { running.toBounded with
      room := ?_
      metered := fun honest => ?_
      reserved := sub_nonneg.2 held }
    · change memory.meter.spent + actual + (memory.meter.reserved - maximum) ≤ memory.meter.cap
      linarith [not_lt.1 atMost]
    · obtain ⟨alone, metered⟩ := running.honest honest
      exact metered.trans (add_le_add_right (reports alone) _)

theorem charge_meets (maximum : ℚ) (dispatch : Dispatch) (actual : Option ℚ)
    (reports : dispatch.Honest budget decimal →
      dispatch.cost ≤ maximum ∧ ∀ cost ∈ actual, dispatch.cost ≤ cost) :
    Programs.Meets answers (Covered budget decimal)
      (fun memory world => Running budget decimal maximum dispatch memory.view world)
      (charge maximum actual)
      (fun _ memory world => Covering budget decimal memory.view world)
      (fun _ memory world => Covering budget decimal memory.view world) := by
  intro memory world running
  unfold charge
  refine .bind (.get ?_)
  split
  -- The reported cost settles the reservation.
  next meter settled =>
    obtain ⟨cost, reported, settled⟩ := bind_eq_some_iff.1 settled
    have covering := running.settle settled fun honest => (reports honest).2 cost reported
    refine .bind (.set (.bind ?_))
    exact ask_leads covering.covered (fun _ _ _ same => same) fun _ => Leads.pure covering
  next =>
    split
    -- It does not, and the whole reservation is settled instead.
    next refused => simp [SpendBudget.settle] at refused
    next meter settled =>
      have covering := running.settle settled fun honest => (reports honest).1
      refine .bind (.set (.bind ?_))
      exact ask_leads covering.covered (fun _ _ _ same => same) fun _ => Leads.pure covering

theorem amount_nonneg {value : Json} {cost : ℚ} (accepted : amount decimal value = some cost) :
    0 ≤ cost := by
  unfold amount at accepted
  split at accepted
  · split at accepted
    next nonneg => exact some.inj accepted ▸ Int.cast_nonneg nonneg
    · cases accepted
  · split at accepted
    next nonneg => exact some.inj accepted ▸ nonneg
    · cases accepted
  · obtain ⟨-, nonneg⟩ := filter_eq_some_iff.1 accepted
    simpa using nonneg
  · cases accepted

theorem Dispatch.Honest.reports {fields : List (String × Json)} {value : Json}
    (honest : dispatch.Honest budget decimal)
    (returned : dispatch.outcome = .returned (.obj fields))
    (reported : fields.lookup "cost_usd" = some value) :
    ∀ cost ∈ amount decimal value, dispatch.cost ≤ cost := by
  obtain ⟨-, atMost, reports⟩ := honest
  intro cost accepted
  by_cases verify : dispatch.task.step = .verify
  · have free : dispatch.cost ≤ 0 := by simpa [SearchBudget.maximum, verify] using atMost
    exact free.trans (amount_nonneg accepted)
  · have same := (reports fields value returned reported verify).symm.trans accepted
    exact (some.inj same).le

theorem Covering.settled {memory : Memory} {world : World}
    (covering : Covering budget decimal memory.view world) (pending : Option Pending) :
    Covering budget decimal { memory with progress := { memory.progress with
      spentUsd := memory.meter.spent, pending } : Memory }.view world := by
  refine { covering with spent := covering.metered, capped := ?_ }
  have cap : memory.meter.cap = budget.spendUsd := covering.cap
  have room : memory.meter.spent + memory.meter.reserved ≤ memory.meter.cap := covering.room
  have held : 0 ≤ memory.meter.reserved := covering.reserved
  change memory.meter.spent ≤ budget.spendUsd
  linarith

private theorem settleCall_meets (dispatch : Dispatch) (dispatchedAt : ℚ) (value : Json)
    (returned : dispatch.outcome = .returned value) :
    Programs.Meets answers (Covered budget decimal)
      (fun memory world =>
        Running budget decimal (budget.maximum dispatch.task.step) dispatch memory.view world)
      (settleCall budget decimal dispatch.task dispatchedAt value)
      (fun _ memory world => Covering budget decimal memory.view world)
      (fun _ memory world => Covering budget decimal memory.view world) := by
  intro memory world running
  unfold settleCall
  refine .bind (.mono (charge_meets _ dispatch _ (fun honest => ⟨honest.2.1, ?_⟩) memory
    world running) ?_ fun _ _ _ covering => covering)
  · rintro cost reported
    split at reported
    · cases reported
      exact honest.2.1
    next reply reads =>
      cases value with
      | obj fields => exact honest.reports returned reads cost reported
      | _ => simp [List.lookup_cons] at reads
  · intro kept memory world covering
    refine .bind (.change ?_)
    refine Covers.when (Covers.throw _) ?_ _ _ (covering.settled none)
    refine Covers.bind Covers.remaining fun left => ?_
    refine Covers.ite (Covers.bind Covers.remaining fun _ => Covers.refuse) ?_
    refine Covers.bind Covers.clock fun now => ?_
    refine Covers.ite (Covers.bind Covers.remaining fun _ => Covers.refuse) ?_
    refine Covers.bind Covers.get fun memory => Covers.ite ?_ ?_
    · exact Covers.bind (Covers.progress (fun _ => rfl) fun _ => rfl) fun _ => Covers.pure _
    · exact Covers.when (Covers.progress (fun _ => rfl) fun _ => rfl) (Covers.pure _)

private theorem execute_meets (task : Task) :
    Programs.Meets answers (Covered budget decimal)
      (fun memory world => Covering budget decimal memory.view world ∧
        Recorded task.id (budget.maximum task.step) memory.view world.log ∧
        world.tasks = memory.view.tasks ∧ world.spentUsd = memory.view.spentUsd)
      (execute task)
      (fun outcome memory world => ∃ cost, Running budget decimal (budget.maximum task.step)
        ⟨task, cost, outcome⟩ memory.view world)
      (fun _ memory world => Covering budget decimal memory.view world) := by
  refine Meets.ask fun memory world outcome after before answered => ?_
  obtain ⟨covering, recorded, tasks, spent⟩ := before
  obtain ⟨cost, rfl⟩ := answered
  have running := Recorded.run ⟨task, cost, outcome⟩ recorded covering tasks spent
  exact ⟨running.covered, cost, running⟩

theorem Covers.attempt (step : Step) (payload : Payload) (lane : Lane) :
    Covers budget decimal (attempt budget decimal step payload lane) := by
  intro memory world covering
  unfold Search.attempt
  refine .bind (.mono (prepare_meets step payload lane memory world covering) ?_
    fun _ _ _ covering => covering)
  rintro task memory world ⟨rfl, covering, recorded, durable⟩
  refine .bind (ask_leads covering.covered (fun _ _ _ same => same) fun dispatchedAt => ?_)
  refine .bind (.mono (execute_meets task memory world ⟨covering, recorded, durable⟩) ?_
    fun _ _ _ covering => covering)
  rintro outcome memory world ⟨cost, running⟩
  -- A dispatch that raises is charged its whole allowance.
  have whole : ∀ stop : Stop, Leads answers (Covered budget decimal)
      (fun _ memory world => Covering budget decimal memory.view world)
      (fun _ memory world => Covering budget decimal memory.view world)
      (do
        let _ ← charge (budget.maximum task.step) none
        MonadExcept.throw stop : Coordination (Option Result)) memory world := by
    intro stop
    refine .bind (.mono (charge_meets _ _ none ?_ memory world running) ?_
      fun _ _ _ covering => covering)
    · exact fun honest => ⟨honest.2.1, by simp⟩
    · exact fun _ _ _ covering => Leads.throw covering
  cases outcome with
  | raised => exact whole .raised
  | exhausted endDetail => exact whole (.exhausted endDetail)
  | returned value =>
    exact settleCall_meets ⟨task, cost, .returned value⟩ dispatchedAt value rfl memory world running

theorem Covers.callLoop (step : Step) (payload : Payload) (left : Nat) (lane : Lane) :
    Covers budget decimal (callLoop budget decimal step payload left lane) := by
  induction left generalizing lane with
  | zero => exact Covers.throw _
  | succ left ih =>
    refine Covers.bind (Covers.attempt step payload lane) fun result => ?_
    cases result with
    | some result => exact Covers.pure _
    | none => exact ih .docker

theorem Covers.call (step : Step) (payload : Payload) :
    Covers budget decimal (call budget decimal step payload) := Covers.callLoop step payload _ _

namespace Covers

variable (loads : String → Option Json) (tokens : String → List String)

theorem addFailure (failure : Failure) : Covers budget decimal (addFailure failure) :=
  progress (fun _ => rfl) fun _ => rfl

theorem exhaustion (result : Result) : Covers budget decimal (exhaustion result) := by
  unfold Search.exhaustion
  split
  · exact pure _
  · exact pure _
  · exact throw _

theorem taskSpend (result : Result) : Covers budget decimal (taskSpend result) :=
  bind (exhaustion result) fun _ => pure _

theorem finishExhausted (result : Result) : Covers budget decimal (finishExhausted result) := by
  refine bind (exhaustion result) fun fields => ?_
  split
  · exact finish _ _
  · exact throw _

theorem ended {piece : Coordination α} {value : β} (runs : Covers budget decimal piece) :
    Covers budget decimal (piece >>= fun _ => Pure.pure value) :=
  bind runs fun _ => pure _

theorem roundEnd (result : Result) : Covers budget decimal (roundEnd result) := by
  refine ite (bind (taskSpend result) fun spent => ?_) (ended save)
  exact ite (ended (finishExhausted result)) (ended save)

theorem admitIntents (result : Result) : Covers budget decimal (admitIntents budget tokens result) := by
  unfold Search.admitIntents
  split
  · refine ite (pure _) (bind get fun memory => ?_)
    exact bind (state _) fun _ => ended (progress (fun _ => rfl) fun _ => rfl)
  · exact pure _

theorem verifyRound (fact : Fact) (demo : String) :
    Covers budget decimal (verifyRound budget loads decimal fact demo) := by
  refine bind get fun memory => ite (ended (finish _ _)) ?_
  refine bind (progress (fun _ => rfl) fun _ => rfl) fun _ => bind (call _ _) fun result => ?_
  refine bind (progress (fun _ => rfl) fun _ => rfl) fun _ => ?_
  have failed : Covers budget decimal
    (Search.addFailure ⟨result.taskId, "not_demonstrated", none⟩) := addFailure _
  cases refs (result.get "evidence_refs") with
  | some evidence =>
    refine ite (bind (state _) fun _ => ended (finish _ _)) ?_
    exact bind failed fun _ => bind get fun memory => when (state _) (roundEnd result)
  | none => exact bind failed fun _ => bind get fun memory => when (state _) (roundEnd result)

theorem exploreRound (intent : Intent) :
    Covers budget decimal (exploreRound budget decimal intent) := by
  refine bind (call _ _) fun result => ?_
  split <;> refine bind (state _) fun _ => bind (taskSpend result) fun spent => ?_
  · exact when (addFailure _) (roundEnd result)
  · exact when (addFailure _) (roundEnd result)

theorem admitRound (result : Result) :
    Covers budget decimal (admitRound budget decimal tokens result) := by
  refine bind (admitIntents tokens result) fun rejected => ite (pure _) (bind save fun _ => ?_)
  refine bind (call _ _) fun again => ite (bind (taskSpend again) fun spent => ?_) ?_
  · exact ite (pure _) (ended (finishExhausted again))
  · exact ended (admitIntents tokens again)

theorem spentRound (result : Result) : Covers budget decimal (spentRound result) :=
  bind (addFailure _) fun _ => ended save

theorem reasonRound : Covers budget decimal (reasonRound budget decimal tokens) := by
  refine bind get fun memory => ite (ended (finish _ _)) ?_
  refine bind (progress (fun _ => rfl) fun _ => rfl) fun _ => bind (call _ _) fun first => ?_
  refine either (call _ _) fun result => ?_
  refine ite (bind (addFailure _) fun _ => ended (finish _ _)) ?_
  refine bind (taskSpend result) fun spent => ite (spentRound result) ?_
  refine ite (ended (finishExhausted result)) (bind (admitRound tokens result) fun admitted => ?_)
  cases admitted with
  | none => exact pure _
  | some result =>
    refine bind (taskSpend result) fun spent => ite (spentRound result) ?_
    exact bind get fun memory => ite (ended (finish _ _)) (roundEnd result)

theorem round : Covers budget decimal (round budget loads decimal tokens) := by
  refine bind remaining fun left => ite (ended (finish _ _)) (tryCatch ?_ fun stop => ?_)
  · refine bind get fun memory => ?_
    split
    · exact verifyRound loads _ _
    · exact exploreRound _
    · exact reasonRound tokens
  · cases stop with
    | exhausted endDetail => exact ended (finish _ _)
    | raised => exact throw _

theorem recover (pending : Pending) : Covers budget decimal (recover pending) := by
  refine bind (addFailure _) fun _ => bind (state _) fun _ => ?_
  exact bind (progress (fun _ => rfl) fun _ => rfl) fun _ => save

theorem prologue : Covers budget decimal (prologue loads) := by
  refine bind get fun memory => ite (pure _) ?_
  dsimp only
  -- Every way through ends by looking at what the last run left pending.
  split
  · refine ite (bind (state _) fun _ => bind save fun _ => bind get fun memory => ?_)
      (bind get fun memory => ?_)
    all_goals
      split
      · exact ended (recover _)
      · exact pure _
  · refine bind get fun memory => ?_
    split
    · exact ended (recover _)
    · exact pure _

end Covers

theorem Covered.fresh {world : World} (unsearched : Unsearched world) :
    Covered budget decimal world := by
  obtain ⟨checkpoint, log⟩ := unsearched
  refine ⟨?_, ?_, fun _ => ?_, ?_⟩
  · simp [Numbered, log]
  · simp [World.tasks, checkpoint]
  · simp [World.spentUsd, checkpoint, totalCost, log]
  · simpa [World.spentUsd, checkpoint] using budget.spendUsd_nonneg

theorem Covered.load {world : World} (covered : Covered budget decimal world) (now : ℚ) :
    Covering budget decimal (Memory.load budget world.durable now).view world := by
  have tasks : (Memory.load budget world.durable now).view.tasks = world.tasks := by
    cases checkpoint : world.durable.checkpoint <;>
      simp [Memory.load, Memory.view, World.tasks, checkpoint]
  have spent : (Memory.load budget world.durable now).view.spentUsd = world.spentUsd := by
    cases checkpoint : world.durable.checkpoint <;>
      simp [Memory.load, Memory.view, World.spentUsd, checkpoint]
  refine ⟨⟨covered, tasks.ge, tasks ▸ covered.within, ?_, spent ▸ covered.capped, rfl, ?_⟩, ?_, le_rfl⟩
  · exact fun honest => spent ▸ covered.spent honest
  · change (Memory.load budget world.durable now).view.spentUsd + 0 ≤ budget.spendUsd
    rw [spent, add_zero]
    exact covered.capped
  · intro honest
    exact (covered.spent honest).trans spent.ge

theorem Covers.program {piece : Coordination Bool} (covers : Covers budget decimal piece)
    {memory : Memory} {world : World} (covering : Covering budget decimal memory.view world) :
    Safe answers (Covered budget decimal)
      (fun next world => ∀ memory ∈ next, Covering budget decimal memory.view world)
      (toProgram piece memory) world := by
  refine Safe.bind (Safe.mono ?_ (covers memory world covering))
  rintro ⟨result, memory'⟩ world' holds
  match result with
  | .ok true => exact fun memory same => by cases same; exact holds
  | .ok false => exact fun memory same => by cases same
  | .error _ => exact fun memory same => by cases same

variable {loads : String → Option Json} {tokens : String → List String}

/-- What a start-up resumes covers what was spent before. -/
theorem Covered.startUp {world : World} (covered : Covered budget decimal world) :
    Safe answers (Covered budget decimal)
      (fun next world => ∀ memory ∈ next, Covering budget decimal memory.view world)
      (startUp budget loads world.durable) world := by
  refine fun (now : ℚ) _ same => ?_
  cases same
  have covering := covered.load now
  refine ⟨covered, ?_⟩
  change Safe _ _ _ (if _ then _ else _) world
  split
  · exact fun _ same => by cases same
  · exact (Covers.prologue loads).program covering

variable {host : Host Request Request.Answer World Memory}

private theorem searchRun_covered
    (run : SearchRun budget loads decimal tokens host) : Covered budget decimal host.world := by
  refine host_invariant
    (fun (memory : Memory) (world : World) => Covering budget decimal memory.view world)
    (fun (world : World) (unsearched : Unsearched world) => Covered.fresh unsearched)
    (fun world covered => ?_) (fun world memory => ?_) run
  · exact covered.startUp
  · exact (Covers.round loads tokens).program

/-- However often its host crashes, a search dispatches no more tasks than its budget has and
none twice; and if its executor is honest, it spends no more than its budget, nor than its last
committed checkpoint says. -/
theorem search_within {host : Host Request Request.Answer World Memory}
    (run : SearchRun budget loads decimal tokens host) :
    host.world.log.length ≤ budget.tasks ∧ (host.world.log.map (·.task.id)).Nodup ∧
      (Honest budget decimal host.world.log →
        totalCost host.world.log ≤ budget.spendUsd ∧
          totalCost host.world.log ≤ host.world.spentUsd) := by
  obtain ⟨⟨apart, many, -⟩, within, spent, capped⟩ := searchRun_covered run
  exact ⟨many.trans within, apart, fun honest => ⟨(spent honest).trans capped, spent honest⟩⟩

def smallBudget : SearchBudget where
  spendUsd := 5
  maxCallUsd := 1
  reasonRounds := 2
  intentsPerRound := 3
  demonstrations := 1
  tasks := 4
  retries := 1
  taskWallSeconds := 60
  wallSeconds := 600
  cleanupSeconds := 10
  spendUsd_nonneg := by norm_num
  maxCallUsd_pos := by norm_num

def failing (request : Request) (world : World) : request.Answer × World :=
  match request with
  | .now => ((0 : ℚ), world)
  | .commit board =>
    if world.durable.endReason = none then (true, { world with durable := board })
    else (false, world)
  | .snapshot => (some "", world)
  | .pushReserve _ => (true, world)
  | .pushSettle _ => ((), world)
  | .execute task => (.raised, { world with log := world.log ++ [⟨task, 1, .raised⟩] })

private theorem answers_failing (request : Request) (world : World) :
    answers request (failing request world).1 world (failing request world).2 := by
  cases request with
  | commit board =>
    by_cases ended : world.durable.endReason = none
    · rw [failing, if_pos ended]
      exact .inl ⟨rfl, ended, rfl⟩
    · rw [failing, if_neg ended]
      exact .inr ⟨rfl, rfl⟩
  | execute task => exact ⟨1, rfl⟩
  | _ => rfl

/-- The host some steps later. -/
def goesOn (host : Host Request Request.Answer World Memory) :
    Nat → Host Request Request.Answer World Memory
  | 0 => host
  | n + 1 => (goesOn host n).advance (fun world => startUp smallBudget (fun _ => none) world.durable)
      (toProgram (round smallBudget (fun _ => none) (fun _ => none) fun _ => [])) failing

theorem goesOn_run
    (run : SearchRun smallBudget (fun _ => none) (fun _ => none) (fun _ => []) host) (n : Nat) :
    SearchRun smallBudget (fun _ => none) (fun _ => none) (fun _ => []) (goesOn host n) := by
  induction n with
  | zero => exact run
  | succ n ih => exact ih.advance answers_failing

/-- The host dies when the executor of the first task has raised, before that is settled, and is
started again. -/
def failedTwice : Host Request Request.Answer World Memory :=
  goesOn { goesOn ⟨{ durable := {} }, none⟩ 14 with running := none } 30

theorem search_within_failed : failedTwice.world.log.map (·.task.id) = ["task-1", "task-2"] ∧
    failedTwice.world.durable.endReason = some "budget_spent" ∧
    failedTwice.world.log.length ≤ smallBudget.tasks ∧
    (failedTwice.world.log.map (·.task.id)).Nodup ∧
    (Honest smallBudget (fun _ => none) failedTwice.world.log →
      totalCost failedTwice.world.log ≤ smallBudget.spendUsd ∧
        totalCost failedTwice.world.log ≤ failedTwice.world.spentUsd) := by
  have run : SearchRun smallBudget (fun _ => none) (fun _ => none) (fun _ => []) failedTwice :=
    goesOn_run (goesOn_run (.initial ⟨rfl, rfl⟩) 14).crashed 30
  exact ⟨by decide +kernel, by decide +kernel, search_within run⟩

end OpenUltraSast.Search
