import OpenUltraSast.Plane.RunCycles
import OpenUltraSast.Plane.RunOrder

/-!
# Histories of a run

Reconcilers of one run follow one another. Each may be stopped at any point, and the next one starts
from the state.json that it left.
-/

namespace OpenUltraSast.Plane.Scheduler

open Relation Values List

variable {run : Run} {slots : Nat} {recorded : String → Json} {s next : State}

/-- The tasks whose results the loop took as done, in that order. -/
def State.completed (s : State) : List String := (s.taken.filter (·.2 = .done)).map (·.1)

/-- state.json once the first `n` entries were set up. -/
def startUp (run : Run) (recorded : String → Json) (n : Nat) (task : String) : Json :=
  if task ∈ ((run.tasks.take n).filter fun entry => !(recorded entry.name).isStr "done").map (·.name)
  then .str "pending" else recorded task

/-- What reconcilers leave in state.json, and what they completed. -/
inductive History (run : Run) : (String → Json) → List String → Prop
  | fresh : History run (fun _ => .null) []
  | halfway {recorded : String → Json} {completed : List String}
      (earlier : History run recorded completed) (n : Nat) :
      History run (startUp run recorded n) completed
  | stopped {recorded : String → Json} {completed : List String} {slots : Nat} {s : State}
      (earlier : History run recorded completed) (reached : Reached run slots recorded s) :
      History run s.statuses (completed ++ s.completed)

/-! ### One reconciler -/

variable {completed : List String}

theorem mem_completed {name : String} : name ∈ s.completed ↔ (name, .done) ∈ s.taken := by
  simp [State.completed]

/-- A step takes no outcome, or that of one task that was started. -/
theorem taken_step (core : Core run slots s) {action : Action} (taken : step slots action s = some next) :
    next.taken = s.taken ∨
      ∃ name outcome, name ∈ s.started ∧ next.taken = s.taken ++ [(name, outcome)] := by
  cases action with
  | main =>
    cases turn_of_main taken with
    | considers =>
      left
      rw [consider_eq]
      split <;> rfl
    | ends | waits => exact .inl rfl
    | @takes name outcome later head =>
      obtain ⟨busy, -⟩ := core.queued (name, outcome) (by rw [head]; exact mem_cons_self)
      refine .inr ⟨name, outcome, mem_append_left _ busy, ?_⟩
      unfold State.enter
      split <;> rfl
  | _ =>
    rw [step, Option.ite_none_right_eq_some] at taken
    obtain ⟨-, ⟨⟩⟩ := taken
    exact .inl rfl

/-- What a reconciler keeps that starts where `completed` were done. -/
structure Continues (run : Run) (completed : List String) (s : State) : Prop where
  ordered : Run.Ordered run (completed ++ s.completed)
  ready : ∀ t ∈ run.tasks, t.name ∈ s.started → ∀ producer ∈ t.producers,
    producer ∈ completed ++ s.completed

theorem isDone_iff_mem (core : Core run slots s) (recalls : Recalls run recorded s)
    (before : ∀ t ∈ run.tasks, (recorded t.name).isStr "done" = true ↔ t.name ∈ completed)
    {t : RunTask} (task : t ∈ run.tasks) :
    s.isDone t.name = true ↔ t.name ∈ completed ++ s.completed := by
  rw [isDone_iff core recalls task, before t task, mem_append, mem_completed]

/-- Each step keeps the completed tasks in order, producers first. -/
theorem Continues.step (accepted : run.Accepted) (kept : Kept run slots s)
    (recalls : Recalls run recorded s)
    (before : ∀ t ∈ run.tasks, (recorded t.name).isStr "done" = true ↔ t.name ∈ completed)
    (continues : Continues run completed s) {action : Action}
    (taken : step slots action s = some next) : Continues run completed next := by
  have ⟨core, _⟩ := kept
  rcases step_starts kept taken with calm | ⟨entry, rest, pending, startable, rfl⟩
  · have started : ∀ t ∈ run.tasks, t.name ∈ next.started → ∀ producer ∈ t.producers,
        producer ∈ completed ++ s.completed := fun t task begun =>
      continues.ready t task ((calm.started t.name).mp begun)
    rcases taken_step core taken with same | ⟨name, outcome, begun, grown⟩
    · have kept : next.completed = s.completed := by rw [State.completed, same]; rfl
      exact ⟨kept ▸ continues.ordered, kept ▸ started⟩
    · by_cases done : outcome = .done
      · have more : next.completed = s.completed ++ [name] := by
          simp [State.completed, grown, done]
        refine ⟨?_, fun t task busy producer produces => ?_⟩
        · -- a task that completes was started, and was ready then
          rw [more, ← append_assoc]
          refine .snoc continues.ordered fun producer produces => ?_
          obtain ⟨t, task, rfl, produced⟩ := Run.exists_task_of_producersOf produces
          exact continues.ready t task begun producer produced
        · rw [more, ← append_assoc]
          exact mem_append_left _ (started t task busy producer produces)
      · have kept : next.completed = s.completed := by simp [State.completed, grown, done]
        exact ⟨kept ▸ continues.ordered, kept ▸ started⟩
  · refine ⟨continues.ordered, fun t task begun producer produces => ?_⟩
    rcases (mem_started_begun entry rest t.name).mp begun with old | new
    · exact continues.ready t task old producer produces
    · have same := inj_on_of_nodup_map accepted.distinct task (core.pendingTasks entry pending) new
      obtain ⟨u, other, rfl⟩ := mem_map.mp (accepted.known task produces)
      exact (isDone_iff_mem core recalls before other).mp (startable.ready u.name (same ▸ produces))

theorem continues_reached (accepted : run.Accepted)
    (before : ∀ t ∈ run.tasks, (recorded t.name).isStr "done" = true ↔ t.name ∈ completed)
    (ordered : Run.Ordered run completed) (reached : Reached run slots recorded s) :
    Continues run completed s := by
  have all : Kept run slots s ∧ Recalls run recorded s ∧ Continues run completed s := by
    apply Runs.reachable_invariant _ _ reached
    · rintro _ rfl
      have nothing : (start run recorded).completed = [] ∧ (start run recorded).started = [] := by
        unfold start State.enter
        dsimp only
        split <;> exact ⟨rfl, rfl⟩
      refine ⟨kept_start accepted.distinct slots recorded, recalls_start, ?_, ?_⟩
      · rwa [nothing.1, append_nil]
      · simp [nothing.2]
    · rintro _ _ _ ⟨kept, recalls, continues⟩ taken
      exact ⟨kept_step accepted.distinct kept taken, recalls_step kept recalls taken,
        continues.step accepted kept recalls before taken⟩
  exact all.2.2

/-! ### All reconcilers -/

structure Complete (run : Run) (recorded : String → Json) (completed : List String) : Prop where
  ordered : Run.Ordered run completed
  once : completed.Nodup
  names : completed ⊆ run.names
  done_iff : ∀ t ∈ run.tasks, (recorded t.name).isStr "done" = true ↔ t.name ∈ completed

private theorem isStr_startUp (n : Nat) (task : String) :
    (startUp run recorded n task).isStr "done" = (recorded task).isStr "done" := by
  unfold startUp
  split
  next pending =>
    obtain ⟨entry, member, rfl⟩ := mem_map.mp pending
    have undone := (mem_filter.mp member).2
    simp only [Bool.not_eq_true'] at undone
    rw [undone]
    decide
  next => rfl

/-- A reconciler continues the list of those before it. -/
theorem Complete.continued (accepted : run.Accepted) (complete : Complete run recorded completed)
    (reached : Reached run slots recorded s) : Complete run s.statuses (completed ++ s.completed) := by
  have ⟨core, _⟩ := kept_reached accepted.distinct reached
  have recalls := recalls_reached accepted.distinct reached
  refine ⟨(continues_reached accepted complete.done_iff complete.ordered reached).ordered, ?_, ?_,
    fun t => isDone_iff_mem core recalls complete.done_iff⟩
  · have own : s.completed.Nodup :=
      ((nodup_append.mp core.distinctStarted).2.1).sublist (filter_sublist.map _)
    refine complete.once.append own fun name old new => ?_
    -- what was done from the start is not started
    obtain ⟨t, task, rfl⟩ := mem_map.mp (complete.names old)
    refine ((recalls t task).mp ((complete.done_iff t task).mpr old)).1 ?_
    exact mem_append_right _ (mem_map_of_mem (mem_completed.mp new))
  · refine append_subset.mpr ⟨complete.names, fun name new => ?_⟩
    exact core.takenTasks _ (mem_completed.mp new)

theorem History.complete (accepted : run.Accepted) (history : History run recorded completed) :
    Complete run recorded completed := by
  induction history with
  | fresh => exact ⟨.nil, nodup_nil, nil_subset _, fun t _ => by simp [Json.isStr]⟩
  | halfway _ n ih => exact { ih with done_iff := fun t task => by rw [isStr_startUp, ih.done_iff t task] }
  | stopped _ reached ih => exact ih.continued accepted reached

/-- However the reconcilers of a run are stopped, no task completes twice, each completes behind its
producers, state.json has exactly the completed tasks as done, and the status is done exactly if every
task has completed. -/
theorem complete_of_history (accepted : run.Accepted) (history : History run recorded completed)
    (reached : Reached run slots recorded s) :
    Complete run s.statuses (completed ++ s.completed) ∧
      (result run s = "done" ↔ (completed ++ s.completed).Perm run.names) := by
  have complete := (history.complete accepted).continued accepted reached
  refine ⟨complete, ?_⟩
  rw [result_done_iff, perm_ext_iff_of_nodup complete.once accepted.distinct]
  constructor
  · refine fun done name => ⟨fun member => complete.names member, fun member => ?_⟩
    obtain ⟨t, task, rfl⟩ := mem_map.mp member
    exact (complete.done_iff t task).mp (done t task)
  · exact fun all t task => (complete.done_iff t task).mpr ((all _).mpr (mem_map_of_mem task))

theorem facts_accepted : factsThenVerify.Accepted where
  tasks := by decide
  named := by decide
  labelled := by decide
  graph := by decide +kernel

/-- The steps of a reconciler with `slots` workers on what it finds recorded. -/
def factsAfter (slots : Nat) (recorded : String → Json) (actions : List Action) : State :=
  (Runs.run (step slots) actions (start factsThenVerify recorded)).getD (start factsThenVerify recorded)

/-- The first reconciler, killed while the first task runs. -/
def killedInFacts : State := factsAfter 1 (fun _ => .null) [.main, .main, .look "facts", .begin "facts"]

/-- What the second one leaves, killed after it has set up the first task. -/
def halfSetUp : String → Json := startUp factsThenVerify killedInFacts.statuses 1

/-- The third one, killed while the second task runs. -/
def killedInVerify : State := factsAfter 1 halfSetUp (factsDone ++ [.look "verify", .begin "verify"])

def verifyDone : List Action :=
  [.main, .main, .look "verify", .begin "verify", .apply "verify", .conclude "verify",
    .post "verify" .done, .main]

/-- The fourth reconciler finishes what three stopped ones left. -/
theorem complete_of_restarts :
    let s := factsAfter 2 killedInVerify.statuses verifyDone
    killedInFacts.statuses "facts" = .str "running" ∧ halfSetUp "facts" = .str "pending" ∧
      killedInVerify.completed = ["facts"] ∧ killedInVerify.statuses "verify" = .str "running" ∧
      Complete factsThenVerify s.statuses ["facts", "verify"] ∧ result factsThenVerify s = "done" := by
  intro s
  have first : Reached factsThenVerify 1 (fun _ => .null) killedInFacts :=
    ⟨_, [.main, .main, .look "facts", .begin "facts"], rfl, rfl⟩
  have third : Reached factsThenVerify 1 halfSetUp killedInVerify :=
    ⟨_, factsDone ++ [.look "verify", .begin "verify"], rfl, rfl⟩
  have fourth : Reached factsThenVerify 2 killedInVerify.statuses s := ⟨_, verifyDone, rfl, rfl⟩
  obtain ⟨complete, all⟩ := complete_of_history facts_accepted
    (.stopped (.halfway (.stopped .fresh first) 1) third) fourth
  exact ⟨rfl, rfl, rfl, rfl, complete, all.mpr (by decide +kernel)⟩

/-! ### What is left undone -/

theorem mem_of_ordered (ordered : Run.Ordered run completed) {name producer : String}
    (member : name ∈ completed) (produces : producer ∈ run.producersOf name) : producer ∈ completed := by
  induction ordered with
  | nil => cases member
  | snoc _ producers ih =>
    rcases mem_append.mp member with old | new
    · exact mem_append_left _ (ih old)
    · exact mem_append_left _ (producers producer (mem_singleton.mp new ▸ produces))

/-- Whether a task gets the artifacts of another one, directly or not. -/
def Feeds (run : Run) : String → String → Prop :=
  ReflTransGen fun producer name => producer ∈ run.producersOf name

theorem Feeds.mem {name last : String} (feeds : Feeds run name last)
    (ordered : Run.Ordered run completed) (member : last ∈ completed) : name ∈ completed := by
  induction feeds with
  | refl => exact member
  | tail _ produces ih => exact ih (mem_of_ordered ordered member produces)

/-- A reconciler that ends without a failure leaves exactly the unfinished tasks undone, and what they
produce for, directly or not. -/
theorem undone_iff (accepted : run.Accepted) (history : History run recorded completed)
    (reached : Reached run slots recorded s) (ended : s.control = .ended)
    (unfailed : result run s ≠ "failed") {t : RunTask} (task : t ∈ run.tasks) :
    s.isDone t.name = false ↔ ∃ name, (name, .unfinished) ∈ s.taken ∧ Feeds run name t.name := by
  have complete := (history.complete accepted).continued accepted reached
  have ⟨core, looping⟩ := kept_reached accepted.distinct reached
  rw [Looping, ended] at looping
  have going : s.halted = false := by
    rw [← Bool.not_eq_true, core.halted, ← failed_iff core, ← result_failed_iff]
    exact unfailed
  constructor
  · -- by induction over the tasks in an order that puts producers first
    obtain ⟨order, ordered, all⟩ := accepted.exists_ordered
    have each : ∀ name ∈ order, ∀ t ∈ run.tasks, t.name = name → s.isDone t.name = false →
        ∃ name, (name, .unfinished) ∈ s.taken ∧ Feeds run name t.name := by
      clear all
      induction ordered with
      | nil => simp
      | @snoc order name _ producers ih =>
        intro other member t task named undone
        rcases mem_append.mp member with old | new
        · exact ih other old t task named undone
        · rw [mem_singleton.mp new] at named
          have own := Run.producersOf_name accepted.distinct task
          by_cases started : t.name ∈ s.started
          · rw [State.started, looping.1, map_nil, nil_append] at started
            obtain ⟨⟨_, outcome⟩, taken, rfl⟩ := mem_map.mp started
            cases outcome with
            | unfinished => exact ⟨t.name, taken, .refl⟩
            | done =>
              rw [State.isDone, core.takenStatus _ taken] at undone
              cases undone
            | failed => exact absurd (core.halted.mpr ⟨_, taken, rfl⟩) (by simp [going])
          · rcases core.dropped t task started with done | pending | ⟨c, taken, unfinished, produces⟩
            · rw [undone] at done
              cases done
            · -- a task that waited to the end waited for a producer
              have unready : ¬ ∀ producer ∈ t.producers, s.isDone producer = true := by
                refine fun ready => looping.2 t pending ⟨going, ?_, ?_, ready⟩
                · rw [looping.1]
                  exact Nat.lt_of_lt_of_le Nat.zero_lt_one (Nat.le_max_right _ _)
                · rw [looping.1]
                  exact fun _ _ => not_mem_nil
              push Not at unready
              obtain ⟨producer, produces, late⟩ := unready
              obtain ⟨u, uTask, rfl⟩ := mem_map.mp (accepted.known task produces)
              rw [← own] at produces
              obtain ⟨name, taken, feeds⟩ :=
                ih u.name (producers _ (named ▸ produces)) u uTask rfl (by simpa using late)
              exact ⟨name, taken, feeds.tail produces⟩
            · refine ⟨c.1, ?_, .single (own.symm ▸ produces)⟩
              rw [← unfinished]
              exact taken
    exact each t.name (all t task) t task rfl
  · rintro ⟨name, taken, feeds⟩
    rw [← Bool.not_eq_true, State.isDone, complete.done_iff t task]
    intro done
    have inside := feeds.mem complete.ordered done
    obtain ⟨u, uTask, rfl⟩ := mem_map.mp (complete.names inside)
    have undone := (complete.done_iff u uTask).mpr inside
    rw [core.takenStatus _ taken] at undone
    cases undone

def factsUnfinished : List Action :=
  [.main, .main, .main, .look "facts", .begin "facts", .apply "facts", .conclude "facts",
    .post "facts" .unfinished, .main]

/-- After a killed reconciler: the next one ends with its producer unfinished. -/
theorem facts_undone_iff :
    let s := factsAfter 1 killedInFacts.statuses factsUnfinished
    killedInFacts.statuses "facts" = .str "running" ∧
      (s.isDone "verify" = false ↔
        ∃ name, (name, .unfinished) ∈ s.taken ∧ Feeds factsThenVerify name "verify") := by
  intro s
  have first : Reached factsThenVerify 1 (fun _ => .null) killedInFacts :=
    ⟨_, [.main, .main, .look "facts", .begin "facts"], rfl, rfl⟩
  have second : Reached factsThenVerify 1 killedInFacts.statuses s := ⟨_, factsUnfinished, rfl, rfl⟩
  have failed : result factsThenVerify s ≠ "failed" := by decide +kernel
  exact ⟨rfl, undone_iff facts_accepted (.stopped .fresh first) second rfl failed
    (mem_cons_of_mem _ mem_cons_self)⟩

end OpenUltraSast.Plane.Scheduler
