import OpenUltraSast.Plane.RunCycles
import OpenUltraSast.Plane.RunOrder

/-!
# Interrupted attempts

Start-up records every task that is not done as pending, before its worker looks whether an attempt
was interrupted.
-/

namespace OpenUltraSast.Plane.Scheduler

open Values List Option

variable {run : Run} {slots : Nat} {recorded : String → Json} {s : State}

/-- Every started task waits for its worker or ended well. -/
structure Smooth (s : State) : Prop where
  created : ∀ t ∈ s.running, s.workers t.name = .created
  empty : s.finished = []
  applied : ∀ c ∈ s.taken, c.2 = .done ∧ .applied c.1 ∈ s.calls

theorem Smooth.enter (smooth : Smooth s) : Smooth s.enter := by
  unfold State.enter
  split <;> exact { smooth with }

def concludes (task : String) : List Action :=
  [.look task, .begin task, .apply task, .conclude task, .post task .done, .main]

theorem run_concludes (slots : Nat) {task : String} (waiting : s.control = .waiting) (empty : s.finished = [])
    (created : s.workers task = .created) :
    ∃ statuses calls workers,
      Runs.run (step slots) (concludes task) s =
        some (({ s with statuses, calls, workers, finished := [] }.take task .done).enter) ∧
      .applied task ∈ calls ∧ s.calls ⊆ calls ∧
      ∀ other, other ≠ task → workers other = s.workers other := by
  let looked := if interrupted (s.statuses task) then s.calls ++ [.deleted task] else s.calls
  let phases : List Phase := [.looked, .executing, .applied, .over false, .posted]
  refine ⟨setAt s.statuses task (.str "running"), looked ++ [.applied task] ++ [.deleted task],
    phases.foldl (fun workers phase => setAt workers task phase) s.workers, ?_, by simp, ?_, ?_⟩
  · simp only [concludes, Runs.run, step, created, if_true, bind_some, setAt_self, true_or,
      State.main, waiting, empty, nil_append]
    rfl
  · intro call member
    have kept : call ∈ looked := by
      unfold looked
      split
      · exact mem_append_left _ member
      · exact member
    simp [kept]
  · intro other apart
    simp [phases, setAt_of_ne _ _ apart]

/-- From a smooth state the main loop can take a turn and stay smooth. -/
theorem smooth_next (kept : Kept run slots s) (smooth : Smooth s) (open_ : s.control ≠ .ended)
    (quiet : s.control ≠ .raised) :
    ∃ actions next, Runs.run (step slots) actions s = some next ∧ .main ∈ actions ∧
      Smooth next ∧ next.control ≠ .raised := by
  have ⟨core, looping⟩ := kept
  have single {next : State} (taken : s.main slots = some next) :
      Runs.run (step slots) [.main] s = some next := by
    simp only [Runs.run, step, taken, bind_some]
  cases control : s.control with
  | scanning rest =>
    cases rest with
    | nil =>
      refine ⟨[.main], { s with control := if s.running = [] then .ended else .waiting },
        single ?_, mem_singleton_self _, { smooth with }, ?_⟩
      · unfold State.main
        rw [control]
        dsimp only
        split <;> rfl
      · dsimp only
        split <;> simp
    | cons entry rest =>
      refine ⟨[.main], s.consider slots entry rest, single ?_, mem_singleton_self _, ?_, ?_⟩
      · unfold State.main
        rw [control]
      · rw [consider_eq]
        split
        · exact { smooth with }
        · refine { smooth with created := fun t member => ?_ }
          change setAt s.workers entry.name .created t.name = .created
          by_cases here : t.name = entry.name
          · rw [here, setAt_self]
          · rw [setAt_of_ne _ _ here]
            rcases mem_append.mp member with old | new
            · exact smooth.created t old
            · exact absurd (congrArg _ (mem_singleton.mp new)) here
      · rw [consider_eq]
        split <;> simp [State.begun]
  | waiting =>
    -- A running task goes through its thread.
    rw [Looping, control] at looping
    obtain ⟨t, member⟩ := exists_mem_of_ne_nil _ looping.1
    obtain ⟨statuses, calls, workers, ran, applied, grows, others⟩ :=
      run_concludes slots control smooth.empty (smooth.created t member)
    refine ⟨concludes t.name, _, ran, by simp [concludes], Smooth.enter ?_, ?_⟩
    · refine ⟨fun u among => ?_, rfl, fun c among => ?_⟩
      · obtain ⟨running, other⟩ := mem_filter.mp among
        exact (others u.name (by simpa using other)).trans (smooth.created u running)
      · rcases mem_append.mp among with old | new
        · exact ⟨(smooth.applied c old).1, grows (smooth.applied c old).2⟩
        · rw [mem_singleton.mp new]
          exact ⟨rfl, applied⟩
    · unfold State.enter
      split <;> simp
  | ended => exact absurd control open_
  | raised => exact absurd control quiet

private theorem exists_smooth_end (distinct : run.names.Nodup) (kept : Kept run slots s)
    (smooth : Smooth s) (quiet : s.control ≠ .raised) :
    ∃ actions last, Runs.run (step slots) actions s = some last ∧ last.control = .ended ∧
      Smooth last := by
  induction bound : rank run s using Nat.strong_induction_on generalizing s with
  | _ n ih =>
  by_cases ended : s.control = .ended
  · exact ⟨[], s, rfl, ended, smooth⟩
  · obtain ⟨first, next, ran, main, smooth, quiet⟩ := smooth_next kept smooth ended quiet
    have lower := count_main_le distinct kept ran
    have some := count_pos_iff.mpr main
    obtain ⟨later, last, finished, ended, smooth⟩ :=
      ih (rank run next) (by omega) (kept_run distinct kept ran) smooth quiet rfl
    refine ⟨first ++ later, last, ?_, ended, smooth⟩
    rw [Runs.run_append, ran]
    exact finished

private theorem all_done (accepted : run.Accepted) (kept : Kept run slots s) (smooth : Smooth s)
    (ended : s.control = .ended) {t : RunTask} (task : t ∈ run.tasks) : s.isDone t.name = true := by
  obtain ⟨core, looping⟩ := kept
  rw [Looping, ended] at looping
  have going : s.halted = false := by
    rw [← Bool.not_eq_true, core.halted]
    rintro ⟨c, member, failed⟩
    rw [(smooth.applied c member).1] at failed
    cases failed
  obtain ⟨order, ordered, all⟩ := accepted.exists_ordered
  -- The producers of a task come first.
  have each : ∀ name ∈ order, ∀ t ∈ run.tasks, t.name = name → s.isDone t.name = true := by
    clear all
    induction ordered with
    | nil => simp
    | @snoc order name before producers ih =>
      intro other member t task named
      rcases mem_append.mp member with old | new
      · exact ih other old t task named
      · rw [mem_singleton.mp new] at named
        have produced : ∀ producer ∈ t.producers, s.isDone producer = true := by
          intro producer produces
          obtain ⟨u, other, rfl⟩ := mem_map.mp (accepted.known task produces)
          apply ih u.name _ u other rfl
          apply producers
          rw [← named, Run.producersOf_name accepted.distinct task]
          exact produces
        by_cases started : t.name ∈ s.started
        · rw [State.started, looping.1, map_nil, nil_append] at started
          obtain ⟨c, taken, same⟩ := mem_map.mp started
          rw [State.isDone, ← same, core.takenStatus c taken, (smooth.applied c taken).1]
          rfl
        · rcases core.dropped t task started with done | pending | ⟨c, taken, unfinished, -⟩
          · exact done
          · refine absurd ⟨going, ?_, ?_, produced⟩ (looping.2 t pending)
            · rw [looping.1]
              exact Nat.lt_of_lt_of_le Nat.zero_lt_one (Nat.le_max_right _ _)
            · rw [looping.1]
              exact fun _ _ => not_mem_nil
          · rw [(smooth.applied c taken).1] at unfinished
            cases unfinished
  exact each t.name (all t task) t task rfl

theorem exists_completed (accepted : run.Accepted) (slots : Nat) (recorded : String → Json) :
    ∃ last, Reached run slots recorded last ∧ Smooth last ∧
      ∀ t ∈ run.tasks, last.isDone t.name = true := by
  have kept := kept_start accepted.distinct slots recorded
  have smooth : Smooth (start run recorded) := Smooth.enter ⟨by simp, rfl, by simp⟩
  have quiet : (start run recorded).control ≠ .raised := by
    unfold start State.enter
    dsimp only
    split <;> simp
  obtain ⟨actions, last, ran, ended, smooth⟩ :=
    exists_smooth_end accepted.distinct kept smooth quiet
  exact ⟨last, ⟨_, actions, rfl, ran⟩, smooth, fun t task =>
    all_done accepted (kept_run accepted.distinct kept ran) smooth ended task⟩

/-- The phases before a worker calls ax. -/
def Phase.isEarly : Phase → Bool
  | absent => true
  | created => true
  | looked => true
  | executing => true
  | _ => false

structure Unswept (s : State) : Prop where
  unmarked : ∀ task, s.workers task = .created → s.statuses task = .str "pending"
  untouched : ∀ task, (s.workers task).isEarly = true → .deleted task ∉ s.calls
  ordered : s.calls.Pairwise fun earlier later =>
    ∀ task, earlier = .deleted task → later ≠ .applied task
  started : ∀ task, s.workers task ≠ .absent → task ∈ s.started

theorem Unswept.enter (unswept : Unswept s) : Unswept s.enter := by
  unfold State.enter
  split <;> exact { unswept with }

theorem unswept_advance (unswept : Unswept s) {task : String} {phase : Phase}
    {statuses : String → Json} {calls : List AxCall} (present : s.workers task ≠ .absent)
    (later : phase ≠ .created) (others : ∀ other, other ≠ task → statuses other = s.statuses other)
    (same : ∀ other, other ≠ task → .deleted other ∈ calls → .deleted other ∈ s.calls)
    (clean : phase.isEarly = false ∨ .deleted task ∉ calls)
    (ordered : calls.Pairwise fun earlier later =>
      ∀ task, earlier = .deleted task → later ≠ .applied task) :
    Unswept { s with statuses, calls, workers := setAt s.workers task phase } := by
  refine ⟨fun other created => ?_, fun other early => ?_, ordered, fun other phased => ?_⟩
  · change setAt s.workers task phase other = .created at created
    by_cases here : other = task
    · rw [here, setAt_self] at created
      exact absurd created later
    · rw [setAt_of_ne _ _ here] at created
      exact (others other here).trans (unswept.unmarked other created)
  · change (setAt s.workers task phase other).isEarly = true at early
    by_cases here : other = task
    · rw [here, setAt_self] at early
      exact here ▸ clean.resolve_left (by simp [early])
    · rw [setAt_of_ne _ _ here] at early
      exact fun member => unswept.untouched other early (same other here member)
  · change setAt s.workers task phase other ≠ .absent at phased
    by_cases here : other = task
    · exact here ▸ unswept.started task present
    · rw [setAt_of_ne _ _ here] at phased
      exact unswept.started other phased

private theorem unswept_begun (core : Core run slots s) (unswept : Unswept s) {entry : RunTask}
    (pending : entry ∈ s.pending) (rest : List RunTask) : Unswept (s.begun entry rest) := by
  have absent : s.workers entry.name = .absent := by
    by_contra present
    exact core.apart entry pending (unswept.started entry.name present)
  refine ⟨fun task created => ?_, fun task early => ?_, unswept.ordered, fun task present => ?_⟩
  · change setAt s.workers entry.name .created task = .created at created
    by_cases here : task = entry.name
    · exact here ▸ core.pendingStatus entry pending
    · rw [setAt_of_ne _ _ here] at created
      exact unswept.unmarked task created
  · change (setAt s.workers entry.name .created task).isEarly = true at early
    by_cases here : task = entry.name
    · rw [here]
      exact unswept.untouched entry.name (by rw [absent]; rfl)
    · rw [setAt_of_ne _ _ here] at early
      exact unswept.untouched task early
  · rw [mem_started_begun]
    change setAt s.workers entry.name .created task ≠ .absent at present
    by_cases here : task = entry.name
    · exact Or.inr here
    · rw [setAt_of_ne _ _ here] at present
      exact Or.inl (unswept.started task present)

private theorem unswept_take (core : Core run slots s) (unswept : Unswept s) {name : String}
    {outcome : Outcome} {later : List (String × Outcome)}
    (head : s.finished = (name, outcome) :: later) :
    Unswept ({ s with finished := later }.take name outcome) := by
  obtain ⟨busy, posted⟩ := core.queued (name, outcome) (by rw [head]; exact mem_cons_self)
  refine ⟨fun task created => ?_, unswept.untouched, unswept.ordered, fun task present => ?_⟩
  · have other : task ≠ name := by
      rintro rfl
      rw [show s.workers task = .created from created] at posted
      cases posted
    exact (setAt_of_ne _ _ other).trans (unswept.unmarked task created)
  · exact (mem_started_take busy later outcome task).mpr (unswept.started task present)

/-- No step applies a task that was deleted. -/
theorem unswept_step (kept : Kept run slots s) (unswept : Unswept s) {action : Action}
    {next : State} (taken : step slots action s = some next) : Unswept next := by
  obtain ⟨core, looping⟩ := kept
  -- A call of ax for a task comes after those there are.
  have appended {call : AxCall} (undeleted : ∀ task, call = .applied task → .deleted task ∉ s.calls) :
      (s.calls ++ [call]).Pairwise fun earlier later =>
        ∀ task, earlier = .deleted task → later ≠ .applied task := by
    rw [pairwise_append]
    refine ⟨unswept.ordered, pairwise_singleton _ _, ?_⟩
    rintro earlier member later single task rfl applied
    exact undeleted task ((mem_singleton.mp single) ▸ applied) member
  have foreign {other task : String} {call : AxCall} (apart : other ≠ task)
      (own : call = .applied task ∨ call = .deleted task)
      (member : .deleted other ∈ s.calls ++ [call]) : .deleted other ∈ s.calls := by
    rcases mem_append.mp member with old | new
    · exact old
    · rcases own with rfl | rfl <;> simp [apart] at new
  cases action with
  | main =>
    cases turn_of_main taken with
    | @considers entry rest scanning =>
      rw [Looping, scanning] at looping
      rw [consider_eq]
      split
      · exact { unswept with }
      · exact unswept_begun core unswept (looping.2.1 mem_cons_self) rest
    | ends | waits => exact { unswept with }
    | takes head => exact (unswept_take core unswept head).enter
  | raise =>
    rw [step, ite_none_right_eq_some] at taken
    obtain ⟨-, ⟨⟩⟩ := taken
    exact { unswept with }
  | look task =>
    rw [step, ite_none_right_eq_some] at taken
    obtain ⟨phase, ⟨⟩⟩ := taken
    -- Start-up recorded the task as pending.
    have pending := unswept.unmarked task phase
    have calls : (if interrupted (s.statuses task) then s.calls ++ [.deleted task] else s.calls) =
        s.calls := by
      rw [pending]
      rfl
    rw [calls]
    exact unswept_advance unswept (by rw [phase]; decide) (by decide) (fun _ _ => rfl)
      (fun _ _ member => member) (Or.inr (unswept.untouched task (by rw [phase]; rfl)))
      unswept.ordered
  | begin task =>
    rw [step, ite_none_right_eq_some] at taken
    obtain ⟨phase, ⟨⟩⟩ := taken
    exact unswept_advance unswept (by rw [phase]; decide) (by decide)
      (fun _ other => setAt_of_ne _ _ other) (fun _ _ member => member)
      (Or.inr (unswept.untouched task (by rw [phase]; rfl))) unswept.ordered
  | apply task =>
    rw [step, ite_none_right_eq_some] at taken
    obtain ⟨phase, ⟨⟩⟩ := taken
    refine unswept_advance unswept (by rw [phase]; decide) (by decide) (fun _ _ => rfl)
      (fun _ apart => foreign apart (Or.inl rfl)) (Or.inl rfl) (appended ?_)
    rintro _ ⟨⟩
    exact unswept.untouched task (by rw [phase]; rfl)
  | refuse task =>
    rw [step, ite_none_right_eq_some] at taken
    obtain ⟨phase, ⟨⟩⟩ := taken
    exact unswept_advance unswept (by rw [phase]; decide) (by decide) (fun _ _ => rfl)
      (fun _ apart => foreign apart (Or.inr rfl)) (Or.inl rfl) (appended (by simp))
  | conclude task =>
    rw [step, ite_none_right_eq_some] at taken
    obtain ⟨phase, ⟨⟩⟩ := taken
    exact unswept_advance unswept (by rw [phase]; decide) (by decide) (fun _ _ => rfl)
      (fun _ apart => foreign apart (Or.inr rfl)) (Or.inl rfl) (appended (by simp))
  | post task outcome =>
    rw [step, ite_none_right_eq_some] at taken
    obtain ⟨phase, ⟨⟩⟩ := taken
    have present : s.workers task ≠ .absent := by
      rcases phase with phase | ⟨phase | phase, -⟩ <;> rw [phase] <;> decide
    have advanced : Unswept { s with workers := setAt s.workers task .posted } :=
      unswept_advance unswept present (by decide) (fun _ _ => rfl) (fun _ _ member => member)
        (Or.inl rfl)
        unswept.ordered
    exact { advanced with }

theorem unswept_reached (accepted : run.Accepted) (reached : Reached run slots recorded s) :
    Unswept s := by
  have both : Kept run slots s ∧ Unswept s := by
    apply Runs.reachable_invariant _ _ reached
    · rintro _ rfl
      refine ⟨kept_start accepted.distinct slots recorded, Unswept.enter ?_⟩
      exact ⟨by simp, fun _ _ => not_mem_nil, List.Pairwise.nil, fun _ absurd => (absurd rfl).elim⟩
    · rintro _ _ _ ⟨kept, unswept⟩ taken
      exact ⟨kept_step accepted.distinct kept taken, unswept_step kept unswept taken⟩
  exact both.2

/-- The new manifest of every task that was recorded as interrupted follows a deletion of it. -/
def DeletesInterrupted (run : Run) (recorded : String → Json) (s : State) : Prop :=
  ∀ t ∈ run.tasks, interrupted (recorded t.name) = true →
    ∀ before after, s.calls = before ++ .applied t.name :: after → .deleted t.name ∈ before

private theorem not_done_of_interrupted {status : Json} (stopped : interrupted status = true) :
    status.isStr "done" = false := by
  cases status with
  | str value =>
    simp only [interrupted, Json.isStr, Bool.or_eq_true, decide_eq_true_eq] at stopped
    rcases stopped with rfl | rfl <;> decide
  | _ => cases stopped

/-- A resumed run deletes what it finds interrupted, however its tasks go, exactly where it finds
nothing interrupted. -/
theorem deletes_interrupted_iff (accepted : run.Accepted) :
    (∀ s, Reached run slots recorded s → DeletesInterrupted run recorded s) ↔
      ∀ t ∈ run.tasks, interrupted (recorded t.name) = false := by
  constructor
  · intro deletes t task
    by_contra stopped
    rw [Bool.not_eq_false] at stopped
    -- The task goes through in a run that does.
    obtain ⟨s, reached, smooth, done⟩ := exists_completed accepted slots recorded
    have unswept := unswept_reached accepted reached
    have recalls := recalls_reached accepted.distinct reached
    have core := (kept_reached accepted.distinct reached).core
    rcases (isDone_iff core recalls task).mp (done t task) with before | taken
    · rw [not_done_of_interrupted stopped] at before
      cases before
    · obtain ⟨before, after, split⟩ := append_of_mem (smooth.applied _ taken).2
      have deleted := deletes s reached t task stopped before after split
      have ordered := unswept.ordered
      rw [split, pairwise_append] at ordered
      exact ordered.2.2 _ deleted _ mem_cons_self t.name rfl rfl
  · intro none s _ t task stopped
    rw [none t task] at stopped
    cases stopped

/-- state.json of a run whose first task was interrupted, and of one whose first task is done. -/
def factsRecorded (status task : String) : Json := if task = "facts" then .str status else .str "pending"

theorem deletes_interrupted_facts :
    (¬ ∀ s, Reached factsThenVerify 1 (factsRecorded "running") s →
        DeletesInterrupted factsThenVerify (factsRecorded "running") s) ∧
      ∀ s, Reached factsThenVerify 1 (factsRecorded "done") s →
        DeletesInterrupted factsThenVerify (factsRecorded "done") s := by
  have accepted : factsThenVerify.Accepted :=
    { tasks := by decide, named := by decide, labelled := by decide, graph := by decide +kernel }
  constructor
  · intro deletes
    have calm := (deletes_interrupted_iff accepted).mp deletes _ mem_cons_self
    exact absurd calm (by decide)
  · exact (deletes_interrupted_iff accepted).mpr (by decide)

/-- A task that state.json records as running is applied again, and nothing was deleted. -/
theorem running_not_deleted :
    ∃ s, Reached factsThenVerify 1 (factsRecorded "running") s ∧ s.calls = [.applied "facts"] ∧
      ¬ DeletesInterrupted factsThenVerify (factsRecorded "running") s := by
  let actions : List Action := [.main, .look "facts", .begin "facts", .apply "facts"]
  let first := start factsThenVerify (factsRecorded "running")
  refine ⟨(Runs.run (step 1) actions first).getD first, ⟨first, actions, rfl, rfl⟩, rfl, ?_⟩
  intro deletes
  have deleted := deletes _ mem_cons_self rfl [] [] rfl
  cases deleted

end OpenUltraSast.Plane.Scheduler
