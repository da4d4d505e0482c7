import OpenUltraSast.Plane.RunGraph

/-!
# The scheduler respects the run graph

What the rules of a run let start, and what every reachable state of the scheduler keeps of them:
a task starts only when it may, the loop waits only when no task may start, and the returned
status says how the tasks of the run ended.
-/

namespace OpenUltraSast.Plane.Scheduler

open Values List

variable {run : Run} {slots : Nat} {recorded : String → Json} {s : State}

structure MayStart (run : Run) (slots : Nat) (s : State) (entry : RunTask) : Prop where
  task : entry ∈ run.tasks
  fresh : entry.name ∉ s.started
  notDone : s.isDone entry.name = false
  produced : ∀ producer ∈ entry.producers, s.isDone producer = true
  alone : ∀ other ∈ s.running, entry.serialize ≠ none → other.serialize ≠ entry.serialize
  room : s.running.length < max slots 1
  noFailure : ∀ t ∈ run.tasks, (s.statuses t.name).isStr "failed" = false

structure Respected (run : Run) (slots : Nat) (recorded : String → Json) (s : State) : Prop where
  starts : ∀ action next, step slots action s = some next →
    ∀ t ∈ next.running, t ∉ s.running → MayStart run slots s t
  serial : s.running.Pairwise fun t u => t.serialize ≠ none → t.serialize ≠ u.serialize
  room : s.running.length ≤ max slots 1
  doneKept : ∀ t ∈ run.tasks, (recorded t.name).isStr "done" = true →
    t.name ∉ s.started ∧ s.isDone t.name = true
  waits : s.control = .waiting → ∀ t, ¬ MayStart run slots s t
  -- Once the running tasks have posted, the loop goes on, and it cannot go on for ever.
  moves : s.control ≠ .ended → s.control ≠ .raised →
    (∀ t ∈ s.running, s.workers t.name = .posted) → (s.main slots).isSome = true
  ends : ∀ actions last, Runs.run (step slots) actions s = some last →
    actions.count .main ≤ rank run s
  returnsDone : s.control = .ended →
    (result run s = "done" ↔ ∀ t ∈ run.tasks,
      (recorded t.name).isStr "done" = true ∨ (t.name, .done) ∈ s.taken)
  returnsFailed : s.control = .ended → (result run s = "failed" ↔ ∃ c ∈ s.taken, c.2 = .failed)

theorem done_not_failed {status : Json} (done : status.isStr "done" = true) :
    status.isStr "failed" = false := by
  cases status with
  | str value =>
    simp only [Json.isStr, decide_eq_true_eq] at done
    subst done
    decide
  | _ => cases done

section
variable (core : Core run slots s)
include core

/-- A task has failed exactly where a failure was taken. -/
theorem failed_iff :
    (∃ t ∈ run.tasks, (s.statuses t.name).isStr "failed" = true) ↔
      ∃ c ∈ s.taken, c.2 = .failed := by
  constructor
  · rintro ⟨t, task, failed⟩
    by_cases started : t.name ∈ s.started
    · rcases mem_append.mp started with running | taken
      · obtain ⟨u, member, same⟩ := mem_map.mp running
        rw [← same] at failed
        rcases core.runningStatus u member with status | status <;>
          rw [status] at failed <;> exact absurd failed (by decide)
      · obtain ⟨c, member, same⟩ := mem_map.mp taken
        refine ⟨c, member, ?_⟩
        rw [← same, core.takenStatus c member] at failed
        cases outcome : c.2 with
        | failed => rfl
        | _ =>
          rw [outcome] at failed
          exact absurd failed (by decide)
    · rcases core.otherStatus t task started with pending | done
      · rw [pending] at failed
        exact absurd failed (by decide)
      · rw [done_not_failed done] at failed
        cases failed
  · rintro ⟨c, member, failed⟩
    obtain ⟨t, task, same⟩ := mem_map.mp (core.takenTasks c member)
    refine ⟨t, task, ?_⟩
    rw [same, core.takenStatus c member, failed]
    decide

theorem noFailure_iff :
    (∀ t ∈ run.tasks, (s.statuses t.name).isStr "failed" = false) ↔ s.halted = false := by
  have halted : s.halted = true ↔ ∃ t ∈ run.tasks, (s.statuses t.name).isStr "failed" = true :=
    core.halted.trans (failed_iff core).symm
  rw [← Bool.not_eq_true, halted]
  push Not
  simp only [Bool.not_eq_true]

private theorem mayStart_of_startable {entry : RunTask}
    (pending : entry ∈ s.pending) (startable : Startable slots s entry)
    (labelled : entry.serialize ≠ some "") : MayStart run slots s entry := by
  refine ⟨core.pendingTasks entry pending, core.apart entry pending, ?_, startable.ready, ?_,
    startable.room, (noFailure_iff core).mpr startable.going⟩
  · rw [State.isDone, core.pendingStatus entry pending]
    decide
  · intro other member serialized same
    obtain ⟨name, named⟩ := Option.ne_none_iff_exists'.mp serialized
    have proper : name ≠ "" := fun empty => labelled (empty ▸ named)
    apply startable.alone name (serializeName_eq_some.mpr ⟨named, proper⟩)
    exact mem_filterMap.mpr
      ⟨other, member, serializeName_eq_some.mpr ⟨same.trans named, proper⟩⟩

private theorem startable_of_mayStart {entry : RunTask}
    (may : MayStart run slots s entry) : entry ∈ s.pending ∧ Startable slots s entry := by
  constructor
  · rcases core.dropped entry may.task may.fresh with done | pending | ⟨c, member, unfinished, needs⟩
    · rw [may.notDone] at done
      cases done
    · exact pending
    · -- A task that an unfinished one produces for is not ready.
      have produced := may.produced c.1 needs
      rw [State.isDone, core.takenStatus c member, unfinished] at produced
      exact absurd produced (by decide)
  · refine ⟨(noFailure_iff core).mp may.noFailure, may.room, fun name named among => ?_,
      may.produced⟩
    obtain ⟨other, member, same⟩ := mem_filterMap.mp among
    have own := (serializeName_eq_some.mp named).1
    apply may.alone other member (by simp [own])
    rw [own, (serializeName_eq_some.mp same).1]

end

structure Calm (s next : State) : Prop where
  running : next.running ⊆ s.running
  started : ∀ name, name ∈ next.started ↔ name ∈ s.started
  statuses : ∀ name, name ∉ s.started → next.statuses name = s.statuses name

private theorem calm_enter {s next : State} (calm : Calm s next) : Calm s next.enter := by
  unfold State.enter
  split <;> exact ⟨calm.running, calm.started, calm.statuses⟩

private theorem calm_take (core : Core run slots s) {name : String} {outcome : Outcome}
    {later : List (String × Outcome)} (head : s.finished = (name, outcome) :: later) :
    Calm s ({ s with finished := later }.take name outcome) := by
  obtain ⟨busy, -⟩ := core.queued (name, outcome) (by rw [head]; exact mem_cons_self)
  refine ⟨filter_subset_self _, mem_started_take busy later outcome, fun other idle => ?_⟩
  apply setAt_of_ne
  rintro rfl
  exact idle (mem_append_left _ busy)

/-- A step starts one pending task that may start, or none. -/
theorem step_starts (kept : Kept run slots s) {action : Action} {next : State}
    (taken : step slots action s = some next) :
    Calm s next ∨ ∃ entry rest, entry ∈ s.pending ∧ Startable slots s entry ∧
      next = s.begun entry rest := by
  obtain ⟨core, looping⟩ := kept
  cases action with
  | main =>
    -- only the scan over the pending entries starts any
    cases turn_of_main taken with
    | @considers entry rest scanning =>
      rw [Looping, scanning] at looping
      rw [consider_eq]
      split
      next => exact Or.inl ⟨List.Subset.refl _, fun _ => Iff.rfl, fun _ _ => rfl⟩
      next goes =>
        -- it did not pass the entry over, so nothing holds it back
        refine Or.inr ⟨entry, rest, looping.2.1 mem_cons_self, ?_, rfl⟩
        exact (passesOver_iff looping.2.2.1 entry).mp (by simpa using goes)
    | ends | waits => exact Or.inl ⟨List.Subset.refl _, fun _ => Iff.rfl, fun _ _ => rfl⟩
    | takes head =>
      -- a completion is taken, and the scan begins anew
      exact Or.inl (calm_enter (calm_take core head))
  | begin task =>
    rw [step, Option.ite_none_right_eq_some] at taken
    obtain ⟨phase, ⟨⟩⟩ := taken
    left
    refine ⟨List.Subset.refl _, fun _ => Iff.rfl, fun name idle => setAt_of_ne _ _ ?_⟩
    rintro rfl
    apply idle
    apply mem_append_left
    exact running_of_worker core (by rw [phase]; decide) (by rw [phase]; decide)
  | _ =>
    rw [step, Option.ite_none_right_eq_some] at taken
    obtain ⟨-, ⟨⟩⟩ := taken
    exact Or.inl ⟨List.Subset.refl _, fun _ => Iff.rfl, fun _ _ => rfl⟩

def Recalls (run : Run) (recorded : String → Json) (s : State) : Prop :=
  ∀ t ∈ run.tasks, (recorded t.name).isStr "done" = true ↔
    t.name ∉ s.started ∧ s.isDone t.name = true

theorem recalls_start : Recalls run recorded (start run recorded) := by
  have statuses : (start run recorded).statuses = fun task =>
      if task ∈ (run.tasks.filter fun entry => !(recorded entry.name).isStr "done").map (·.name)
      then .str "pending" else recorded task := by
    unfold start State.enter
    dsimp only
    split <;> rfl
  have started : (start run recorded).started = [] := by
    unfold start State.enter
    dsimp only
    split <;> rfl
  intro t task
  rw [started, State.isDone, statuses]
  by_cases done : (recorded t.name).isStr "done" = true
  · have absent : t.name ∉
        (run.tasks.filter fun entry => !(recorded entry.name).isStr "done").map (·.name) := by
      intro member
      obtain ⟨u, pending, same⟩ := mem_map.mp member
      have open_ := (mem_filter.mp pending).2
      rw [same, done] at open_
      cases open_
    simp only [if_neg absent, done, not_mem_nil, not_false_eq_true, true_and]
  · have pending : t.name ∈
        (run.tasks.filter fun entry => !(recorded entry.name).isStr "done").map (·.name) :=
      mem_map_of_mem (mem_filter.mpr ⟨task, by simpa using done⟩)
    simp only [if_pos pending, done]
    exact ⟨fun never => absurd never (by decide), fun both => absurd both.2 (by decide)⟩

theorem recalls_step (kept : Kept run slots s) (recalls : Recalls run recorded s)
    {action : Action} {next : State} (taken : step slots action s = some next) :
    Recalls run recorded next := by
  intro t task
  rw [recalls t task]
  rcases step_starts kept taken with calm | ⟨entry, rest, pending, -, rfl⟩
  · rw [calm.started]
    apply and_congr_right
    intro idle
    rw [State.isDone, State.isDone, calm.statuses t.name idle]
  · rw [mem_started_begun, not_or]
    -- The entry that starts was not done.
    constructor
    · rintro ⟨idle, done⟩
      refine ⟨⟨idle, fun same => ?_⟩, done⟩
      rw [State.isDone, same, kept.core.pendingStatus entry pending] at done
      exact absurd done (by decide)
    · rintro ⟨⟨idle, -⟩, done⟩
      exact ⟨idle, done⟩

theorem recalls_reached (distinct : run.names.Nodup) (reached : Reached run slots recorded s) :
    Recalls run recorded s := by
  have both : Kept run slots s ∧ Recalls run recorded s := by
    apply Runs.reachable_invariant _ _ reached
    · rintro _ rfl
      exact ⟨kept_start distinct slots recorded, recalls_start⟩
    · rintro _ _ _ ⟨kept, recalls⟩ taken
      exact ⟨kept_step distinct kept taken, recalls_step kept recalls taken⟩
  exact both.2

theorem isDone_iff (core : Core run slots s) (recalls : Recalls run recorded s) {t : RunTask}
    (task : t ∈ run.tasks) :
    s.isDone t.name = true ↔
      (recorded t.name).isStr "done" = true ∨ (t.name, .done) ∈ s.taken := by
  constructor
  · intro done
    by_cases started : t.name ∈ s.started
    · rcases mem_append.mp started with running | taken
      · rw [not_isDone_running core running] at done
        cases done
      · obtain ⟨⟨name, outcome⟩, member, rfl⟩ := mem_map.mp taken
        right
        rw [State.isDone, core.takenStatus _ member] at done
        change outcome.status.isStr "done" = true at done
        cases outcome with
        | done => exact member
        | _ => exact absurd done (by decide)
    · exact Or.inl ((recalls t task).mpr ⟨started, done⟩)
  · rintro (before | taken)
    · exact ((recalls t task).mp before).2
    · rw [State.isDone, core.takenStatus _ taken]
      rfl

theorem result_failed_iff : result run s = "failed" ↔
    ∃ t ∈ run.tasks, (s.statuses t.name).isStr "failed" = true := by
  have any : (run.tasks.map fun entry => s.statuses entry.name).any (·.isStr "failed") = true ↔
      ∃ t ∈ run.tasks, (s.statuses t.name).isStr "failed" = true := by
    simp [any_eq_true]
  rw [← any]
  unfold result
  dsimp only
  split
  next failed => simp [failed]
  next others =>
    split <;> simp [others]

theorem result_done_iff : result run s = "done" ↔
    ∀ t ∈ run.tasks, s.isDone t.name = true := by
  have all : (run.tasks.map fun entry => s.statuses entry.name).all (·.isStr "done") = true ↔
      ∀ t ∈ run.tasks, s.isDone t.name = true := by
    simp [all_eq_true, State.isDone]
  unfold result
  dsimp only
  split
  next failed =>
    -- A failed task is not done.
    simp only [String.reduceEq, false_iff]
    intro done
    obtain ⟨status, member, failed⟩ := any_eq_true.mp failed
    obtain ⟨t, task, rfl⟩ := mem_map.mp member
    rw [done_not_failed (done t task)] at failed
    cases failed
  next =>
    rw [← all]
    split
    next done => simp [done]
    next other => simp [other]

private theorem isSome_main (kept : Kept run slots s) (open_ : s.control ≠ .ended)
    (quiet : s.control ≠ .raised) (posted : ∀ t ∈ s.running, s.workers t.name = .posted) :
    (s.main slots).isSome = true := by
  obtain ⟨core, looping⟩ := kept
  unfold State.main
  split
  next => rfl
  next => split <;> rfl
  next waiting =>
    -- A running task that has posted is in the queue.
    rw [Looping, waiting] at looping
    obtain ⟨t, member⟩ := exists_mem_of_ne_nil _ looping.1
    have queued := core.posted t member (posted t member)
    cases finished : s.finished with
    | nil =>
      rw [finished] at queued
      cases queued
    | cons => rfl
  next ended => exact absurd ended open_
  next raised => exact absurd raised quiet

private theorem serial_running (core : Core run slots s)
    (labelled : ∀ entry ∈ run.tasks, entry.serialize ≠ some "") :
    s.running.Pairwise fun t u => t.serialize ≠ none → t.serialize ≠ u.serialize := by
  have apart := (pairwise_filterMap).mp core.serial
  apply List.Pairwise.imp_of_mem _ apart
  intro t u tMember uMember apart serialized same
  obtain ⟨name, named⟩ := Option.ne_none_iff_exists'.mp serialized
  have proper : name ≠ "" := fun empty =>
    labelled t (core.runningTasks t tMember) (empty ▸ named)
  exact apart name (serializeName_eq_some.mpr ⟨named, proper⟩) name
    (serializeName_eq_some.mpr ⟨same ▸ named, proper⟩) rfl

/-- For every accepted run, whatever state.json records, however many workers there are, and in
whatever order and with whatever outcomes the tasks end, the scheduler respects the run graph. -/
theorem scheduler_respects (accepted : run.Accepted) (reached : Reached run slots recorded s) :
    Respected run slots recorded s := by
  have distinct := accepted.distinct
  have kept := kept_reached distinct reached
  have recalls := recalls_reached distinct reached
  have ⟨core, looping⟩ := kept
  refine
    { starts := fun action next taken t member fresh => ?_
      serial := serial_running core accepted.labelled
      room := core.capacity
      doneKept := fun t task => (recalls t task).mp
      waits := fun waiting t may => ?_
      moves := isSome_main kept
      ends := fun actions last ran => (Nat.le_add_right _ _).trans (count_main_le distinct kept ran)
      returnsDone := fun _ => ?_
      returnsFailed := fun _ => result_failed_iff.trans (failed_iff core) }
  · rcases step_starts kept taken with calm | ⟨entry, rest, pending, startable, rfl⟩
    · exact absurd (calm.running member) fresh
    · have same : t = entry := by
        rcases mem_append.mp member with old | new
        · exact absurd old fresh
        · exact mem_singleton.mp new
      subst same
      exact mayStart_of_startable core pending startable
        (accepted.labelled t (core.pendingTasks t pending))
  · rw [Looping, waiting] at looping
    obtain ⟨pending, startable⟩ := startable_of_mayStart core may
    exact looping.2 t pending startable
  · rw [result_done_iff]
    exact forall₂_congr fun t task => isDone_iff core recalls task

def factsThenVerify : Run :=
  ⟨[{ name := "facts", serialize := some "repo" }, { name := "verify", inputs := [("rows", "facts/rows")] }]⟩

/-- The steps of a run with one worker until the first task is done and the second one starts. -/
def factsDone : List Action :=
  [.main, .main, .main, .look "facts", .begin "facts", .apply "facts", .conclude "facts",
    .post "facts" .done, .main, .main]

theorem scheduler_respects_facts :
    Respected factsThenVerify 1 (fun _ => .null)
      ((Runs.run (step 1) factsDone (start factsThenVerify fun _ => .null)).getD
        (start factsThenVerify fun _ => .null)) :=
  scheduler_respects
    { tasks := by decide, named := by decide, labelled := by decide, graph := by decide +kernel }
    ⟨_, factsDone, rfl, rfl⟩

end OpenUltraSast.Plane.Scheduler
