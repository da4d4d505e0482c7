import Mathlib.Data.List.Perm.Subperm
import OpenUltraSast.Library.Runs
import OpenUltraSast.Plane.Scheduler

/-!
# The loop of the scheduler

In every state that the loop and its threads reach, the loop has passed over exactly the pending
entries that the rules hold back.
-/

namespace OpenUltraSast.Plane.Scheduler

open Values List Option

variable {run : Run} {slots : Nat} {s : State}

def Looping (slots : Nat) (s : State) : Prop :=
  match s.control with
  | .scanning rest =>
    rest.Nodup ∧ rest ⊆ s.pending ∧ BlocksRunning s ∧
      ∀ t ∈ s.pending, t ∈ rest ∨ ¬ Startable slots s t
  | .waiting => s.running ≠ [] ∧ ∀ t ∈ s.pending, ¬ Startable slots s t
  | .ended => s.running = [] ∧ ∀ t ∈ s.pending, ¬ Startable slots s t
  | .raised => True

structure Kept (run : Run) (slots : Nat) (s : State) : Prop where
  core : Core run slots s
  looping : Looping slots s

theorem kept_enter (core : Core run slots s) : Kept run slots s.enter := by
  unfold State.enter
  split
  next idle => exact ⟨{ core with }, idle.2, by simp [idle.1]⟩
  next =>
    refine ⟨{ core with }, core.distinctPending, List.Subset.refl _, ?_, fun t member => Or.inl member⟩
    exact fun _ _ => Iff.rfl

variable {next : State}

theorem looping_of_same {s : State} (looping : Looping slots s) (pending : next.pending = s.pending)
    (running : next.running = s.running) (blocked : next.blocked = s.blocked)
    (halted : next.halted = s.halted) (control : next.control = s.control)
    (done : next.isDone = s.isDone) : Looping slots next := by
  have startable (t : RunTask) : Startable slots next t ↔ Startable slots s t := by
    constructor
    · rintro ⟨going, room, alone, ready⟩
      rw [halted] at going
      rw [running] at room alone
      rw [done] at ready
      exact ⟨going, room, alone, ready⟩
    · rintro ⟨going, room, alone, ready⟩
      rw [← halted] at going
      rw [← running] at room alone
      rw [← done] at ready
      exact ⟨going, room, alone, ready⟩
  unfold Looping at looping ⊢
  simp only [BlocksRunning, control, pending, running, blocked, startable] at looping ⊢
  exact looping

variable {rest : List RunTask}

private theorem not_startable_begun {entry t : RunTask}
    (held : ¬ Startable slots s t) : ¬ Startable slots (s.begun entry rest) t := by
  rintro ⟨going, room, alone, ready⟩
  apply held
  refine ⟨going, ?_, fun name named among => ?_, ready⟩
  · change (s.running ++ [entry]).length < _ at room
    rw [length_append] at room
    omega
  · apply alone name named
    change name ∈ (s.running ++ [entry]).filterMap serializeName
    rw [filterMap_append]
    exact mem_append_left _ among

theorem blocksRunning_begun (blocks : BlocksRunning s) (entry : RunTask) (rest : List RunTask) :
    BlocksRunning (s.begun entry rest) := by
  intro name proper
  change name ∈ s.blocked ++ [entry.serialize.getD ""] ↔
    name ∈ (s.running ++ [entry]).filterMap serializeName
  rw [filterMap_append, mem_append, mem_append, blocks name proper]
  apply or_congr_right
  rw [mem_singleton, mem_filterMap]
  constructor
  · intro same
    refine ⟨entry, mem_singleton_self _, serializeName_eq_some.mpr ⟨?_, proper⟩⟩
    cases serialized : entry.serialize with
    | none =>
      rw [serialized] at same
      exact absurd same proper
    | some other =>
      rw [serialized] at same
      rw [same]
      rfl
  · rintro ⟨t, among, named⟩
    rw [mem_singleton.mp among] at named
    rw [(serializeName_eq_some.mp named).1]
    rfl

theorem kept_consider (distinct : run.names.Nodup) (kept : Kept run slots s) {entry : RunTask}
    (scanning : s.control = .scanning (entry :: rest)) :
    Kept run slots (s.consider slots entry rest) := by
  obtain ⟨core, looping⟩ := kept
  rw [Looping, scanning] at looping
  obtain ⟨distinctRest, among, blocks, considered⟩ := looping
  rw [nodup_cons] at distinctRest
  have member := among mem_cons_self
  have later : rest ⊆ s.pending := fun t inRest => among (mem_cons_of_mem _ inRest)
  rw [consider_eq]
  -- the entry is passed over, and then it could not start
  by_cases passes : s.passesOver slots entry = true
  · rw [if_pos passes]
    refine ⟨{ core with }, distinctRest.2, later, blocks, fun t pending => ?_⟩
    rcases considered t pending with head | held
    · rcases mem_cons.mp head with rfl | inRest
      · right
        intro startable
        have goes := (passesOver_iff blocks t).mpr ⟨startable.going, startable.room,
          startable.alone, startable.ready⟩
        rw [goes] at passes
        cases passes
      · exact Or.inl inRest
    · exact Or.inr fun startable => held ⟨startable.going, startable.room, startable.alone,
        startable.ready⟩
  · rw [if_neg passes]
    -- or it begins, and leaves the pending tasks
    have startable := (passesOver_iff blocks entry).mp (by simpa using passes)
    refine ⟨core_begun distinct core member startable rest, distinctRest.2, fun t inRest => ?_,
      blocksRunning_begun blocks entry rest, fun t pending => ?_⟩
    · have other : t ≠ entry := fun same => distinctRest.1 (same ▸ inRest)
      exact (mem_erase_of_ne other).mpr (later inRest)
    · rcases considered t (mem_of_mem_erase pending) with head | held
      · rcases mem_cons.mp head with rfl | inRest
        · exact absurd pending core.distinctPending.not_mem_erase
        · exact Or.inl inRest
      · exact Or.inr (not_startable_begun held)

private theorem kept_main (distinct : run.names.Nodup) (kept : Kept run slots s)
    (taken : s.main slots = some next) : Kept run slots next := by
  have held (scanning : s.control = .scanning []) (t : RunTask) (pending : t ∈ s.pending) :
      ¬ Startable slots s t := by
    have looping := kept.2
    rw [Looping, scanning] at looping
    exact (looping.2.2.2 t pending).resolve_left not_mem_nil
  cases turn_of_main taken with
  | considers scanning => exact kept_consider distinct kept scanning
  | ends scanning idle =>
    exact ⟨{ kept.core with }, idle,
      fun t pending startable => held scanning t pending { startable with }⟩
  | waits scanning busy =>
    exact ⟨{ kept.core with }, busy,
      fun t pending startable => held scanning t pending { startable with }⟩
  | takes head => exact kept_enter (core_take kept.core head)

theorem kept_advance (kept : Kept run slots s) {task : String} {phase : Phase}
    {statuses : String → Json} (calls : List AxCall)
    (open_ : s.workers task ≠ .absent ∧ s.workers task ≠ .posted)
    (later : phase ≠ .absent ∧ phase ≠ .posted)
    (others : ∀ other, other ≠ task → statuses other = s.statuses other)
    (own : statuses task = s.statuses task ∨ statuses task = .str "running") :
    Kept run slots { s with statuses, calls, workers := setAt s.workers task phase } := by
  obtain ⟨core, looping⟩ := kept
  refine ⟨core_advance core calls open_.1 open_.2 later others own,
    looping_of_same looping rfl rfl rfl rfl rfl ?_⟩
  -- A running task is not done, before and after.
  funext other
  change (statuses other).isStr "done" = s.isDone other
  by_cases here : other = task
  · subst here
    rcases own with same | marked
    · rw [same]
      rfl
    · rw [marked, not_isDone_running core (running_of_worker core open_.1 open_.2)]
      decide
  · rw [others other here]
    rfl

/-- Each step keeps the invariant of the scheduler. -/
theorem kept_step (distinct : run.names.Nodup) (kept : Kept run slots s) {action : Action}
    (taken : step slots action s = some next) : Kept run slots next := by
  cases action with
  | main => exact kept_main distinct kept taken
  | begin task =>
    rw [step, ite_none_right_eq_some] at taken
    obtain ⟨phase, ⟨⟩⟩ := taken
    exact kept_advance kept s.calls (by rw [phase]; decide) (by decide)
      (fun _ other => setAt_of_ne _ _ other) (Or.inr (setAt_self _ _ _))
  | raise =>
    rw [step, ite_none_right_eq_some] at taken
    obtain ⟨-, ⟨⟩⟩ := taken
    exact ⟨{ kept.core with }, trivial⟩
  | post task outcome =>
    rw [step, ite_none_right_eq_some] at taken
    obtain ⟨phase, ⟨⟩⟩ := taken
    have open_ : s.workers task ≠ .absent ∧ s.workers task ≠ .posted := by
      rcases phase with phase | ⟨phase | phase, -⟩ <;> rw [phase] <;> decide
    exact ⟨core_post kept.core outcome open_.1 open_.2,
      looping_of_same kept.looping rfl rfl rfl rfl rfl rfl⟩
  -- The other steps change a phase and the calls.
  | _ task =>
    rw [step, ite_none_right_eq_some] at taken
    obtain ⟨phase, ⟨⟩⟩ := taken
    exact kept_advance kept _ (by rw [phase]; decide) (by decide)
      (fun _ _ => rfl) (Or.inl rfl)

theorem kept_start (distinct : run.names.Nodup) (slots : Nat) (recorded : String → Json) :
    Kept run slots (start run recorded) := by
  apply kept_enter
  have tasks : run.tasks.Nodup := distinct.of_map _
  have named {t : RunTask} (task : t ∈ run.tasks) {u : RunTask} (other : u ∈ run.tasks)
      (same : t.name = u.name) : t = u := inj_on_of_nodup_map distinct task other same
  -- A task is pending, or recorded as done and then left as it is.
  have either : ∀ t ∈ run.tasks, (recorded t.name).isStr "done" = true ∧
      t.name ∉ (run.tasks.filter fun entry =>
        !(recorded entry.name).isStr "done").map (·.name) ∨
      t ∈ run.tasks.filter fun entry => !(recorded entry.name).isStr "done" := by
    intro t task
    by_cases done : (recorded t.name).isStr "done" = true
    · refine Or.inl ⟨done, fun member => ?_⟩
      obtain ⟨u, pending, same⟩ := mem_map.mp member
      obtain ⟨other, open_⟩ := mem_filter.mp pending
      rw [named other task same, done] at open_
      cases open_
    · exact Or.inr (mem_filter.mpr ⟨task, by simpa using done⟩)
  refine
    { pendingTasks := fun t member => mem_of_mem_filter member
      runningTasks := nofun
      takenTasks := nofun
      distinctPending := tasks.filter _
      distinctStarted := nodup_nil
      apart := fun _ _ => not_mem_nil
      pendingStatus := fun t member => if_pos (mem_map_of_mem member)
      runningStatus := nofun
      takenStatus := nofun
      otherStatus := ?_
      capacity := Nat.zero_le _
      serial := nodup_nil
      halted := by simp
      queued := nofun
      distinctQueued := nodup_nil
      posted := nofun
      working := nofun
      resting := fun _ _ => Or.inl rfl
      dropped := ?_ }
  · intro t task _
    rcases either t task with ⟨done, absent⟩ | pending
    · exact Or.inr ((congrArg (Json.isStr "done") (if_neg absent)).trans done)
    · exact Or.inl (if_pos (mem_map_of_mem pending))
  · intro t task _
    rcases either t task with ⟨done, absent⟩ | pending
    · exact Or.inl ((congrArg (Json.isStr "done") (if_neg absent)).trans done)
    · exact Or.inr (Or.inl pending)

def Reached (run : Run) (slots : Nat) (recorded : String → Json) (s : State) : Prop :=
  Runs.Reachable (step slots) (· = start run recorded) s

theorem kept_reached (distinct : run.names.Nodup) {recorded : String → Json}
    (reached : Reached run slots recorded s) : Kept run slots s := by
  apply Runs.reachable_invariant _ _ reached
  · rintro _ rfl
    exact kept_start distinct slots recorded
  · exact fun _ _ _ kept taken => kept_step distinct kept taken

def Control.rank : Control → Nat
  | scanning rest => rest.length + 2
  | waiting => 1
  | ended => 0
  | raised => 0

/-- What is left of the loop. -/
def rank (run : Run) (s : State) : Nat :=
  (s.pending.length + s.running.length) * (run.tasks.length + 3) + s.control.rank

private theorem rank_enter_le (s : State) :
    s.enter.control.rank ≤ s.pending.length + 2 ∧ s.enter.pending = s.pending ∧
      s.enter.running = s.running := by
  unfold State.enter
  split
  · exact ⟨Nat.zero_le _, rfl, rfl⟩
  · exact ⟨le_refl _, rfl, rfl⟩

private theorem rank_consider {entry : RunTask}
    (scanning : s.control = .scanning (entry :: rest)) (member : entry ∈ s.pending) :
    rank run (s.consider slots entry rest) < rank run s := by
  rw [consider_eq]
  split
  · simp only [rank, scanning, Control.rank, length_cons]
    omega
  · have positive := length_pos_of_mem member
    have moved : (s.pending.erase entry).length + (s.running ++ [entry]).length =
        s.pending.length + s.running.length := by
      rw [length_erase_of_mem member, length_append, length_singleton]
      omega
    simp only [rank, State.begun, moved, scanning, Control.rank, length_cons]
    omega

private theorem rank_take (core : Core run slots s) {name : String} {outcome : Outcome}
    {later : List (String × Outcome)} (head : s.finished = (name, outcome) :: later) :
    rank run ({ s with finished := later }.take name outcome).enter < rank run s := by
  obtain ⟨control, pending, running⟩ :=
    rank_enter_le ({ s with finished := later }.take name outcome)
  have after := core_take core head
  have few : ({ s with finished := later }.take name outcome).pending.length ≤
      run.tasks.length :=
    (after.distinctPending.subperm after.pendingTasks).length_le
  have fewer : ({ s with finished := later }.take name outcome).running.length <
      s.running.length := by
    obtain ⟨busy, -⟩ := core.queued (name, outcome) (by rw [head]; exact mem_cons_self)
    obtain ⟨entry, member, named⟩ := mem_map.mp busy
    apply length_filter_lt_length_iff_exists.mpr
    exact ⟨entry, member, by simpa using named⟩
  have kept : ({ s with finished := later }.take name outcome).pending.length ≤
      s.pending.length := by
    simp only [State.take]
    split
    · exact length_filter_le _ _
    · exact le_refl _
  unfold rank
  rw [pending, running]
  generalize ({ s with finished := later }.take name outcome).pending.length = a at *
  generalize ({ s with finished := later }.take name outcome).running.length = b at *
  -- One task less outweighs a whole scan.
  calc (a + b) * (run.tasks.length + 3) + _
      ≤ (a + b) * (run.tasks.length + 3) + (a + 2) := by omega
    _ < (a + b) * (run.tasks.length + 3) + (run.tasks.length + 3) := by omega
    _ = (a + b + 1) * (run.tasks.length + 3) := by rw [Nat.succ_mul]
    _ ≤ (s.pending.length + s.running.length) * (run.tasks.length + 3) :=
        Nat.mul_le_mul_right _ (by omega)
    _ ≤ _ := Nat.le_add_right _ _

private theorem rank_main (kept : Kept run slots s) (taken : s.main slots = some next) :
    rank run next < rank run s := by
  obtain ⟨core, looping⟩ := kept
  cases turn_of_main taken with
  | considers scanning =>
    rw [Looping, scanning] at looping
    exact rank_consider scanning (looping.2.1 mem_cons_self)
  | ends scanning | waits scanning => simp [rank, scanning, Control.rank]
  | takes head => exact rank_take core head

theorem rank_other {action : Action} (other : action ≠ .main) (taken : step slots action s = some next) :
    rank run next ≤ rank run s := by
  cases action with
  | main => exact absurd rfl other
  | raise =>
    rw [step, ite_none_right_eq_some] at taken
    obtain ⟨-, ⟨⟩⟩ := taken
    exact Nat.add_le_add_left (Nat.zero_le _) _
  | _ =>
    rw [step, ite_none_right_eq_some] at taken
    obtain ⟨-, ⟨⟩⟩ := taken
    exact le_refl _

variable {actions : List Action}

theorem kept_run (distinct : run.names.Nodup) (kept : Kept run slots s)
    {last : State} (ran : Runs.run (step slots) actions s = some last) : Kept run slots last := by
  induction actions generalizing s with
  | nil =>
    cases ran
    exact kept
  | cons action rest ih =>
    obtain ⟨next, taken, ran⟩ := bind_eq_some_iff.mp ran
    exact ih (kept_step distinct kept taken) ran

theorem count_main_le (distinct : run.names.Nodup) (kept : Kept run slots s)
    {last : State}
    (ran : Runs.run (step slots) actions s = some last) :
    actions.count .main + rank run last ≤ rank run s := by
  induction actions generalizing s with
  | nil =>
    cases ran
    simp
  | cons action rest ih =>
    obtain ⟨next, taken, ran⟩ := bind_eq_some_iff.mp ran
    have later := ih (kept_step distinct kept taken) ran
    rw [count_cons]
    by_cases main : action = .main
    · subst main
      have lower := rank_main kept taken
      simp only [beq_self_eq_true, if_true]
      omega
    · have same : rank run next ≤ rank run s := rank_other main taken
      simp only [beq_eq_false_iff_ne.mpr main, Bool.false_eq_true, if_false]
      omega

end OpenUltraSast.Plane.Scheduler
