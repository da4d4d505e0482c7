import OpenUltraSast.Library.Json
import OpenUltraSast.Plane.Manifests

/-!
# The scheduler of a run

`reconciler.run` after its start-up: the main loop, a thread for each task that it starts, the
recorded statuses and the queue of what has finished.
-/

namespace OpenUltraSast.Plane.Scheduler

open Values

inductive Outcome where
  | done
  | unfinished
  | failed
deriving DecidableEq

def Outcome.status : Outcome → Json
  | done => .str "done"
  | unfinished => .str "unfinished"
  | failed => .str "failed"

/-- Where a worker thread is; a thread whose task was refused can only fail. -/
inductive Phase where
  | absent
  | created
  | looked
  | executing
  | applied
  | over (refused : Bool)
  | posted
deriving DecidableEq

/-- Where the main loop is: in its scan of the pending tasks, at `finished.get()`, at its end, or
left by an exception. -/
inductive Control where
  | scanning (rest : List RunTask)
  | waiting
  | ended
  | raised
deriving DecidableEq

inductive AxCall where
  | applied (task : String)
  | deleted (task : String)
deriving DecidableEq

/-- The loop, its threads and what they have done: the calls of ax and the results that the loop
took from the queue. -/
structure State where
  statuses : String → Json
  pending : List RunTask
  running : List RunTask := []
  blocked : List String := []
  halted : Bool := false
  control : Control
  workers : String → Phase := fun _ => .absent
  finished : List (String × Outcome) := []
  calls : List AxCall := []
  taken : List (String × Outcome) := []

/-- `state.status(task) == "done"`. -/
def State.isDone (s : State) (task : String) : Bool := (s.statuses task).isStr "done"

def serializeName (entry : RunTask) : Option String := entry.serialize.filter (· ≠ "")

def setAt {α : Type} (f : String → α) (task : String) (value : α) : String → α :=
  fun other => if other = task then value else f other

/-- The head of `while pending or running`. -/
def State.enter (s : State) : State :=
  if s.pending = [] ∧ s.running = [] then { s with control := .ended }
  else { s with blocked := s.running.filterMap serializeName, control := .scanning s.pending }

def start (run : Run) (recorded : String → Json) : State :=
  let pending := run.tasks.filter fun entry => !(recorded entry.name).isStr "done"
  State.enter
    { statuses := fun task =>
        if task ∈ pending.map (·.name) then .str "pending" else recorded task
      pending
      control := .waiting }

section Loop
variable (slots : Nat)

def State.passesOver (s : State) (entry : RunTask) : Bool :=
  s.halted || decide (max slots 1 ≤ s.running.length) ||
    (serializeName entry).any (decide <| · ∈ s.blocked) ||
    !(entry.producers.all s.isDone)

def State.consider (s : State) (entry : RunTask) (rest : List RunTask) : State :=
  if s.passesOver slots entry then { s with control := .scanning rest }
  else { s with
    pending := s.pending.erase entry
    running := s.running ++ [entry]
    blocked := s.blocked ++ [entry.serialize.getD ""]
    workers := setAt s.workers entry.name .created
    control := .scanning rest }

/-- What the loop does with a result. -/
def State.take (s : State) (name : String) (outcome : Outcome) : State :=
  { s with
    running := s.running.filter (·.name ≠ name)
    statuses := setAt s.statuses name outcome.status
    halted := s.halted || outcome = .failed
    pending :=
      if outcome = .unfinished then s.pending.filter fun entry => name ∉ entry.producers
      else s.pending
    taken := s.taken ++ [(name, outcome)] }

def State.main (s : State) : Option State :=
  match s.control with
  | .scanning (entry :: rest) => some (s.consider slots entry rest)
  | .scanning [] =>
    if s.running = [] then some { s with control := .ended } else some { s with control := .waiting }
  | .waiting =>
    match s.finished with
    | [] => none
    | (name, outcome) :: later => some (({ s with finished := later }.take name outcome).enter)
  | .ended => none
  | .raised => none

inductive Action where
  | main
  | raise
  | look (task : String)
  | begin (task : String)
  | apply (task : String)
  | refuse (task : String)
  | conclude (task : String)
  | post (task : String) (outcome : Outcome)
deriving DecidableEq

def interrupted (status : Json) : Bool := status.isStr "running" || status.isStr "suspended"

def step (action : Action) (s : State) : Option State :=
  match action with
  | .main => s.main slots
  -- The summary.json of the task whose result is taken is no object: it has no `get`.
  | .raise =>
    if s.control = .waiting ∧ s.finished ≠ [] then some { s with control := .raised } else none
  | .look task =>
    if s.workers task = .created then
      some { s with
        calls := if interrupted (s.statuses task) then s.calls ++ [.deleted task] else s.calls
        workers := setAt s.workers task .looked }
    else none
  | .begin task =>
    if s.workers task = .looked then
      some { s with
        statuses := setAt s.statuses task (.str "running")
        workers := setAt s.workers task .executing }
    else none
  | .apply task =>
    if s.workers task = .executing then
      some { s with
        calls := s.calls ++ [.applied task]
        workers := setAt s.workers task .applied }
    else none
  -- A credential, a policy or `ax apply` fails: the task is deleted and fails.
  | .refuse task =>
    if s.workers task = .executing then
      some { s with
        calls := s.calls ++ [.deleted task]
        workers := setAt s.workers task (.over true) }
    else none
  | .conclude task =>
    if s.workers task = .applied then
      some { s with
        calls := s.calls ++ [.deleted task]
        workers := setAt s.workers task (.over false) }
    else none
  -- An exception before the manifest is applied is a failure as well.
  | .post task outcome =>
    if s.workers task = .over false ∨
        (s.workers task = .over true ∨ s.workers task = .executing) ∧ outcome = .failed then
      some { s with
        finished := s.finished ++ [(task, outcome)]
        workers := setAt s.workers task .posted }
    else none

end Loop

/-- The status that `run` returns. -/
def result (run : Run) (s : State) : String :=
  let statuses := run.tasks.map fun entry => s.statuses entry.name
  if statuses.any (·.isStr "failed") then "failed"
  else if statuses.all (·.isStr "done") then "done"
  else "unfinished"

end OpenUltraSast.Plane.Scheduler

/-!
## What the scheduler keeps

The tasks of a run are pending, running, taken, dropped or done from the start, and the recorded
statuses, the queue and the threads agree with that.
-/

namespace OpenUltraSast.Plane.Scheduler

open Values List

def State.started (s : State) : List String := s.running.map (·.name) ++ s.taken.map (·.1)

/-- The bookkeeping, wherever the loop is. -/
structure Core (run : Run) (slots : Nat) (s : State) : Prop where
  pendingTasks : ∀ t ∈ s.pending, t ∈ run.tasks
  runningTasks : ∀ t ∈ s.running, t ∈ run.tasks
  takenTasks : ∀ c ∈ s.taken, c.1 ∈ run.names
  distinctPending : s.pending.Nodup
  distinctStarted : s.started.Nodup
  apart : ∀ t ∈ s.pending, t.name ∉ s.started
  pendingStatus : ∀ t ∈ s.pending, s.statuses t.name = .str "pending"
  runningStatus : ∀ t ∈ s.running,
    s.statuses t.name = .str "pending" ∨ s.statuses t.name = .str "running"
  takenStatus : ∀ c ∈ s.taken, s.statuses c.1 = c.2.status
  otherStatus : ∀ t ∈ run.tasks, t.name ∉ s.started →
    s.statuses t.name = .str "pending" ∨ s.isDone t.name = true
  capacity : s.running.length ≤ max slots 1
  serial : (s.running.filterMap serializeName).Nodup
  halted : s.halted = true ↔ ∃ c ∈ s.taken, c.2 = .failed
  queued : ∀ c ∈ s.finished, c.1 ∈ s.running.map (·.name) ∧ s.workers c.1 = .posted
  distinctQueued : (s.finished.map (·.1)).Nodup
  posted : ∀ t ∈ s.running, s.workers t.name = .posted → t.name ∈ s.finished.map (·.1)
  working : ∀ t ∈ s.running, s.workers t.name ≠ .absent
  resting : ∀ task, task ∉ s.running.map (·.name) →
    s.workers task = .absent ∨ s.workers task = .posted
  dropped : ∀ t ∈ run.tasks, t.name ∉ s.started → s.isDone t.name = true ∨ t ∈ s.pending ∨
    ∃ c ∈ s.taken, c.2 = .unfinished ∧ c.1 ∈ t.producers

variable {run : Run} {slots : Nat} {s : State}

@[simp] theorem setAt_self {α : Type} (f : String → α) (task : String) (value : α) :
    setAt f task value task = value := if_pos rfl

variable {task : String}

theorem setAt_of_ne {α : Type} (f : String → α) {other : String} (value : α) (apart : other ≠ task) :
    setAt f task value other = f other := if_neg apart

section
variable (core : Core run slots s)
include core

theorem not_isDone_running (busy : task ∈ s.running.map (·.name)) :
    s.isDone task = false := by
  obtain ⟨t, member, rfl⟩ := mem_map.mp busy
  unfold State.isDone
  rcases core.runningStatus t member with status | status <;> rw [status] <;> decide

theorem running_of_worker (present : s.workers task ≠ .absent)
    (open_ : s.workers task ≠ .posted) : task ∈ s.running.map (·.name) := by
  by_contra idle
  rcases core.resting task idle with absent | posted
  · exact present absent
  · exact open_ posted

/-- A worker that goes on keeps the core. -/
theorem core_advance {phase : Phase} {statuses : String → Json}
    (calls : List AxCall) (present : s.workers task ≠ .absent) (open_ : s.workers task ≠ .posted)
    (later : phase ≠ .absent ∧ phase ≠ .posted)
    (others : ∀ other, other ≠ task → statuses other = s.statuses other)
    (own : statuses task = s.statuses task ∨ statuses task = .str "running") :
    Core run slots
      { s with statuses, calls, workers := setAt s.workers task phase } := by
  -- the task has a worker that has not posted, so it is running
  have busy := running_of_worker core present open_
  have started : task ∈ s.started := mem_append_left _ busy
  refine { core with
    pendingStatus := ?_, runningStatus := ?_, takenStatus := ?_, otherStatus := ?_, queued := ?_
    posted := ?_, working := ?_, resting := ?_, dropped := ?_ }
  · intro t member
    -- a pending task has not been started
    have other : t.name ≠ task := fun same => core.apart t member (same ▸ started)
    exact (others t.name other).trans (core.pendingStatus t member)
  · intro t member
    change statuses t.name = _ ∨ statuses t.name = _
    by_cases here : t.name = task
    · rcases own with same | marked
      · rw [here, same, ← here]
        exact core.runningStatus t member
      · exact Or.inr (here ▸ marked)
    · rw [others t.name here]
      exact core.runningStatus t member
  · intro c member
    -- a task that was taken from the queue runs no more
    have other : c.1 ≠ task := by
      intro same
      have disjoint := (nodup_append.mp core.distinctStarted).2.2
      exact disjoint task busy c.1 (mem_map_of_mem member) same.symm
    exact (others c.1 other).trans (core.takenStatus c member)
  · intro t member idle
    have other : t.name ≠ task := fun same => idle (same ▸ started)
    have unchanged := others t.name other
    rcases core.otherStatus t member idle with pending | done
    · exact Or.inl (unchanged.trans pending)
    · exact Or.inr ((congrArg (Json.isStr "done") unchanged).trans done)
  · intro c member
    obtain ⟨among, posted⟩ := core.queued c member
    -- a queued completion is of a worker that has posted
    have other : c.1 ≠ task := fun same => open_ (same ▸ posted)
    exact ⟨among, (setAt_of_ne _ _ other).trans posted⟩
  · intro t member posted
    change setAt s.workers task phase t.name = .posted at posted
    by_cases here : t.name = task
    · rw [here, setAt_self] at posted
      exact absurd posted later.2
    · rw [setAt_of_ne _ _ here] at posted
      exact core.posted t member posted
  · intro t member
    change setAt s.workers task phase t.name ≠ .absent
    by_cases here : t.name = task
    · rw [here, setAt_self]
      exact later.1
    · rw [setAt_of_ne _ _ here]
      exact core.working t member
  · intro other idle
    have apart : other ≠ task := fun same => idle (same ▸ busy)
    change setAt s.workers task phase other = _ ∨ setAt s.workers task phase other = _
    rw [setAt_of_ne _ _ apart]
    exact core.resting other idle
  · intro t member idle
    have unchanged := others t.name fun same => idle (same ▸ started)
    rcases core.dropped t member idle with done | later
    · exact Or.inl ((congrArg (Json.isStr "done") unchanged).trans done)
    · exact Or.inr later

/-- So does one that posts its outcome. -/
theorem core_post (outcome : Outcome) (present : s.workers task ≠ .absent)
    (open_ : s.workers task ≠ .posted) :
    Core run slots
      { s with
        finished := s.finished ++ [(task, outcome)]
        workers := setAt s.workers task .posted } := by
  have busy := running_of_worker core present open_
  -- a task is queued once: the queued ones have posted, and this one has not
  have fresh : task ∉ s.finished.map (·.1) := by
    intro member
    obtain ⟨c, queued, rfl⟩ := mem_map.mp member
    exact open_ (core.queued c queued).2
  refine { core with
    queued := ?_, distinctQueued := ?_, posted := ?_, working := ?_, resting := ?_ }
  · intro c member
    rcases mem_append.mp member with old | new
    · obtain ⟨among, posted⟩ := core.queued c old
      have other : c.1 ≠ task := fun same => open_ (same ▸ posted)
      exact ⟨among, (setAt_of_ne _ _ other).trans posted⟩
    · rw [mem_singleton.mp new]
      exact ⟨busy, setAt_self _ _ _⟩
  · simp only [map_append, map_cons, map_nil]
    rw [nodup_append]
    refine ⟨core.distinctQueued, nodup_singleton _, ?_⟩
    rintro name member other single rfl
    exact fresh (mem_singleton.mp single ▸ member)
  · intro t member posted
    rw [map_append, mem_append]
    by_cases here : t.name = task
    · exact Or.inr (by simp [here])
    · change setAt s.workers task .posted t.name = .posted at posted
      rw [setAt_of_ne _ _ here] at posted
      exact Or.inl (core.posted t member posted)
  · intro t member
    change setAt s.workers task .posted t.name ≠ .absent
    by_cases here : t.name = task
    · rw [here, setAt_self]
      exact nofun
    · rw [setAt_of_ne _ _ here]
      exact core.working t member
  · intro other idle
    have apart : other ≠ task := fun same => idle (same ▸ busy)
    change setAt s.workers task .posted other = _ ∨ setAt s.workers task .posted other = _
    rw [setAt_of_ne _ _ apart]
    exact core.resting other idle

end

/-- What the rules of the scan ask of an entry. -/
structure Startable (slots : Nat) (s : State) (entry : RunTask) : Prop where
  going : s.halted = false
  room : s.running.length < max slots 1
  alone : ∀ name, serializeName entry = some name → name ∉ s.running.filterMap serializeName
  ready : ∀ producer ∈ entry.producers, s.isDone producer = true

def BlocksRunning (s : State) : Prop :=
  ∀ name, name ≠ "" → (name ∈ s.blocked ↔ name ∈ s.running.filterMap serializeName)

variable {name : String}

theorem serializeName_eq_some {entry : RunTask} :
    serializeName entry = some name ↔ entry.serialize = some name ∧ name ≠ "" := by
  unfold serializeName
  rw [Option.filter_eq_some_iff]
  simp

theorem passesOver_iff (blocks : BlocksRunning s) (entry : RunTask) :
    s.passesOver slots entry = false ↔ Startable slots s entry := by
  unfold State.passesOver
  simp only [Bool.or_eq_false_iff, decide_eq_false_iff_not, not_le, Bool.not_eq_false',
    all_eq_true]
  have names : ((serializeName entry).any (decide <| · ∈ s.blocked)) = false ↔
      ∀ name, serializeName entry = some name → name ∉ s.running.filterMap serializeName := by
    cases named : serializeName entry with
    | none => simp
    | some name =>
      have proper := (serializeName_eq_some.mp named).2
      simp [blocks name proper]
  rw [names]
  constructor
  · rintro ⟨⟨⟨going, room⟩, alone⟩, ready⟩
    exact ⟨going, room, alone, ready⟩
  · rintro ⟨going, room, alone, ready⟩
    exact ⟨⟨⟨going, room⟩, alone⟩, ready⟩

def State.begun (s : State) (entry : RunTask) (rest : List RunTask) : State :=
  { s with
    pending := s.pending.erase entry
    running := s.running ++ [entry]
    blocked := s.blocked ++ [entry.serialize.getD ""]
    workers := setAt s.workers entry.name .created
    control := .scanning rest }

theorem consider_eq (entry : RunTask) (rest : List RunTask) :
    s.consider slots entry rest =
      if s.passesOver slots entry then { s with control := .scanning rest }
      else s.begun entry rest := rfl

theorem mem_started_begun (entry : RunTask) (rest : List RunTask) (name : String) :
    name ∈ (s.begun entry rest).started ↔ name ∈ s.started ∨ name = entry.name := by
  simp only [State.started, State.begun, map_append, mem_append, map_cons,
    map_nil, mem_singleton]
  tauto

/-- So does the start of a task. -/
theorem core_begun (distinct : run.names.Nodup) (core : Core run slots s) {entry : RunTask}
    (member : entry ∈ s.pending) (startable : Startable slots s entry) (rest : List RunTask) :
    Core run slots (s.begun entry rest) := by
  have fresh := core.apart entry member
  have idle : entry.name ∉ s.running.map (·.name) := fun busy =>
    fresh (mem_append_left _ busy)
  have started := mem_started_begun (s := s) entry rest
  refine
    { pendingTasks := fun t kept => core.pendingTasks t (mem_of_mem_erase kept)
      runningTasks := ?_
      takenTasks := core.takenTasks
      distinctPending := core.distinctPending.erase entry
      distinctStarted := ?_
      apart := ?_
      pendingStatus := fun t kept => core.pendingStatus t (mem_of_mem_erase kept)
      runningStatus := ?_
      takenStatus := core.takenStatus
      otherStatus := ?_
      capacity := ?_
      serial := ?_
      halted := core.halted
      queued := ?_
      distinctQueued := core.distinctQueued
      posted := ?_
      working := ?_
      resting := ?_
      dropped := ?_ }
  · intro t among
    rcases mem_append.mp among with old | new
    · exact core.runningTasks t old
    · rw [mem_singleton.mp new]
      exact core.pendingTasks entry member
  · simp only [State.started, State.begun, map_append, map_cons, map_nil,
      append_assoc, singleton_append]
    exact nodup_middle.mpr (nodup_cons.mpr ⟨fresh, core.distinctStarted⟩)
  · intro t kept among
    rcases (started t.name).mp among with old | same
    · exact core.apart t (mem_of_mem_erase kept) old
    · -- Another pending entry has another name.
      have tasks := inj_on_of_nodup_map distinct
      have equal := tasks (core.pendingTasks t (mem_of_mem_erase kept))
        (core.pendingTasks entry member) same
      rw [equal] at kept
      exact (core.distinctPending.not_mem_erase) kept
  · intro t among
    rcases mem_append.mp among with old | new
    · exact core.runningStatus t old
    · rw [mem_singleton.mp new]
      exact Or.inl (core.pendingStatus entry member)
  · intro t task absent
    rw [started, not_or] at absent
    exact core.otherStatus t task absent.1
  · change (s.running ++ [entry]).length ≤ _
    rw [length_append, length_singleton]
    exact startable.room
  · change ((s.running ++ [entry]).filterMap serializeName).Nodup
    rw [filterMap_append, nodup_append]
    refine ⟨core.serial, ?_, ?_⟩
    · cases named : serializeName entry <;> simp [named]
    · rintro name among other single rfl
      have named : serializeName entry = some name := by simpa using single
      exact startable.alone name named among
  · intro c among
    obtain ⟨busy, posted⟩ := core.queued c among
    have other : c.1 ≠ entry.name := fun same => idle (same ▸ busy)
    refine ⟨?_, (setAt_of_ne _ _ other).trans posted⟩
    change c.1 ∈ (s.running ++ [entry]).map (·.name)
    rw [map_append]
    exact mem_append_left _ busy
  · intro t among posted
    change setAt s.workers entry.name .created t.name = .posted at posted
    by_cases here : t.name = entry.name
    · rw [here, setAt_self] at posted
      cases posted
    · rw [setAt_of_ne _ _ here] at posted
      rcases mem_append.mp among with old | new
      · exact core.posted t old posted
      · exact absurd (congrArg _ (mem_singleton.mp new)) here
  · intro t among
    change setAt s.workers entry.name .created t.name ≠ .absent
    by_cases here : t.name = entry.name
    · rw [here, setAt_self]
      exact nofun
    · rw [setAt_of_ne _ _ here]
      rcases mem_append.mp among with old | new
      · exact core.working t old
      · exact absurd (congrArg _ (mem_singleton.mp new)) here
  · intro other absent
    change other ∉ (s.running ++ [entry]).map (·.name) at absent
    rw [map_append, mem_append, not_or] at absent
    have apart : other ≠ entry.name := fun same => absent.2 (by simp [same])
    change setAt s.workers entry.name .created other = _ ∨
      setAt s.workers entry.name .created other = _
    rw [setAt_of_ne _ _ apart]
    exact core.resting other absent.1
  · intro t task absent
    rw [started, not_or] at absent
    rcases core.dropped t task absent.1 with done | pending | later
    · exact Or.inl done
    · have other : t ≠ entry := fun same => absent.2 (congrArg _ same)
      exact Or.inr (Or.inl ((mem_erase_of_ne other).mpr pending))
    · exact Or.inr (Or.inr later)

theorem mem_started_take (busy : name ∈ s.running.map (·.name))
    (later : List (String × Outcome)) (outcome : Outcome) (other : String) :
    other ∈ ({ s with finished := later }.take name outcome).started ↔ other ∈ s.started := by
  simp only [State.started, State.take, map_append, mem_append, map_cons,
    map_nil, mem_singleton, mem_map, mem_filter]
  obtain ⟨entry, member, rfl⟩ := mem_map.mp busy
  constructor
  · rintro (⟨t, ⟨among, -⟩, rfl⟩ | taken | rfl)
    · exact Or.inl ⟨t, among, rfl⟩
    · exact Or.inr taken
    · exact Or.inl ⟨entry, member, rfl⟩
  · rintro (⟨t, among, rfl⟩ | taken)
    · by_cases here : t.name = entry.name
      · exact Or.inr (Or.inr here)
      · exact Or.inl ⟨t, ⟨among, by simpa using here⟩, rfl⟩
    · exact Or.inr (Or.inl taken)

inductive Turn (slots : Nat) (s : State) : State → Prop where
  | considers {entry : RunTask} {rest : List RunTask} (scanning : s.control = .scanning (entry :: rest)) :
      Turn slots s (s.consider slots entry rest)
  | ends (scanning : s.control = .scanning []) (idle : s.running = []) :
      Turn slots s { s with control := .ended }
  | waits (scanning : s.control = .scanning []) (busy : s.running ≠ []) :
      Turn slots s { s with control := .waiting }
  | takes {name : String} {outcome : Outcome} {later : List (String × Outcome)}
      (head : s.finished = (name, outcome) :: later) :
      Turn slots s ({ s with finished := later }.take name outcome).enter

theorem turn_of_main {slots : Nat} {s next : State} (taken : s.main slots = some next) :
    Turn slots s next := by
  unfold State.main at taken
  split at taken
  next entry rest scanning => exact Option.some.inj taken ▸ .considers scanning
  next scanning =>
    split at taken
    next idle => exact Option.some.inj taken ▸ .ends scanning idle
    next busy => exact Option.some.inj taken ▸ .waits scanning busy
  next =>
    split at taken
    next => cases taken
    next name outcome later head => exact Option.some.inj taken ▸ .takes head
  next => cases taken
  next => cases taken

variable {outcome : Outcome} {later : List (String × Outcome)}

section
variable (core : Core run slots s)
include core

private theorem nodup_started_take (busy : name ∈ s.running.map (·.name)) :
    ({ s with finished := later }.take name outcome).started.Nodup := by
  have disjoint := (nodup_append.mp core.distinctStarted).2.2
  obtain ⟨running, taken, -⟩ := nodup_append.mp core.distinctStarted
  have absent : name ∉ s.taken.map (·.1) := fun member => disjoint name busy name member rfl
  simp only [State.started, State.take, map_append, map_cons, map_nil]
  rw [nodup_append]
  refine ⟨running.sublist (filter_sublist.map _), ?_, ?_⟩
  · exact (perm_append_singleton _ _).nodup_iff.mpr (nodup_cons.mpr ⟨absent, taken⟩)
  · rintro first member second later rfl
    obtain ⟨t, among, rfl⟩ := mem_map.mp member
    rcases mem_append.mp later with old | new
    · exact disjoint t.name (mem_map_of_mem (mem_of_mem_filter among)) t.name old rfl
    · exact of_decide_eq_true (mem_filter.mp among).2 (mem_singleton.mp new)

private theorem status_take (busy : name ∈ s.running.map (·.name)) :
    ∀ c ∈ s.taken ++ [(name, outcome)],
      ({ s with finished := later }.take name outcome).statuses c.1 = c.2.status := by
  have disjoint := (nodup_append.mp core.distinctStarted).2.2
  intro c member
  change setAt s.statuses name outcome.status c.1 = _
  rcases mem_append.mp member with old | new
  · have other : c.1 ≠ name := fun same =>
      disjoint name busy c.1 (mem_map_of_mem old) same.symm
    rw [setAt_of_ne _ _ other]
    exact core.takenStatus c old
  · rw [mem_singleton.mp new]
    exact setAt_self _ _ _

private theorem halted_take :
    ({ s with finished := later }.take name outcome).halted = true ↔
      ∃ c ∈ s.taken ++ [(name, outcome)], c.2 = .failed := by
  simp only [State.take, Bool.or_eq_true, decide_eq_true_eq, core.halted, mem_append,
    mem_singleton]
  constructor
  · rintro (⟨c, member, failed⟩ | failed)
    · exact ⟨c, Or.inl member, failed⟩
    · exact ⟨(name, outcome), Or.inr rfl, failed⟩
  · rintro ⟨c, member | rfl, failed⟩
    · exact Or.inl ⟨c, member, failed⟩
    · exact Or.inr failed

private theorem dropped_take (busy : name ∈ s.running.map (·.name)) {t : RunTask}
    (task : t ∈ run.tasks) (absent : t.name ∉ s.started) :
    let next := { s with finished := later }.take name outcome
    next.isDone t.name = true ∨ t ∈ next.pending ∨
      ∃ c ∈ next.taken, c.2 = .unfinished ∧ c.1 ∈ t.producers := by
  have other : t.name ≠ name := fun same => absent (same ▸ mem_append_left _ busy)
  have unchanged : setAt s.statuses name outcome.status t.name = s.statuses t.name :=
    setAt_of_ne _ _ other
  rcases core.dropped t task absent with done | pending | ⟨c, member, rest⟩
  · exact Or.inl ((congrArg (Json.isStr "done") unchanged).trans done)
  · -- A consumer of an unfinished task leaves the pending ones here.
    right
    simp only [State.take]
    by_cases unfinished : outcome = .unfinished
    · rw [if_pos unfinished]
      by_cases consumes : name ∈ t.producers
      · exact Or.inr ⟨(name, outcome), mem_append_right _ (mem_singleton_self _),
          unfinished, consumes⟩
      · exact Or.inl (mem_filter.mpr ⟨pending, by simpa using consumes⟩)
    · rw [if_neg unfinished]
      exact Or.inl pending
  · exact Or.inr (Or.inr ⟨c, mem_append_left _ member, rest⟩)

/-- So does the taking of an outcome. -/
theorem core_take (head : s.finished = (name, outcome) :: later) :
    Core run slots ({ s with finished := later }.take name outcome) := by
  obtain ⟨busy, posted⟩ := core.queued (name, outcome) (by rw [head]; exact mem_cons_self)
  have disjoint := (nodup_append.mp core.distinctStarted).2.2
  have others : ∀ t ∈ s.running.filter (·.name ≠ name), t ∈ s.running ∧ t.name ≠ name := by
    intro t member
    simpa using mem_filter.mp member
  have started := mem_started_take busy later outcome
  have pendingKept : ∀ t ∈ ({ s with finished := later }.take name outcome).pending,
      t ∈ s.pending := by
    intro t member
    simp only [State.take] at member
    split at member
    · exact mem_of_mem_filter member
    · exact member
  have notFresh : name ∈ s.started := mem_append_left _ busy
  have queue := core.distinctQueued
  rw [head, map_cons, nodup_cons] at queue
  refine
    { pendingTasks := fun t member => core.pendingTasks t (pendingKept t member)
      runningTasks := fun t member => core.runningTasks t (others t member).1
      takenTasks := ?_
      distinctPending := ?_
      distinctStarted := nodup_started_take core busy
      apart := fun t member among => core.apart t (pendingKept t member) ((started _).mp among)
      pendingStatus := ?_
      runningStatus := ?_
      takenStatus := (status_take core busy :)
      otherStatus := ?_
      capacity := (length_filter_le _ _).trans core.capacity
      serial := core.serial.sublist (filter_sublist.filterMap _)
      halted := halted_take core
      queued := ?_
      distinctQueued := queue.2
      posted := ?_
      working := fun t member => core.working t (others t member).1
      resting := ?_
      dropped := fun t task absent => dropped_take core busy task (mt (started _).mpr absent) }
  · intro c member
    rcases mem_append.mp member with old | new
    · exact core.takenTasks c old
    · rw [mem_singleton.mp new]
      obtain ⟨entry, among, rfl⟩ := mem_map.mp busy
      exact mem_map_of_mem (core.runningTasks entry among)
  · simp only [State.take]
    split
    · exact core.distinctPending.filter _
    · exact core.distinctPending
  · intro t member
    have other : t.name ≠ name := fun same =>
      core.apart t (pendingKept t member) (same ▸ notFresh)
    exact (setAt_of_ne _ _ other).trans (core.pendingStatus t (pendingKept t member))
  · intro t member
    obtain ⟨among, other⟩ := others t member
    change setAt s.statuses name outcome.status t.name = _ ∨
      setAt s.statuses name outcome.status t.name = _
    rw [setAt_of_ne _ _ other]
    exact core.runningStatus t among
  · intro t task absent
    rw [started] at absent
    have other : t.name ≠ name := fun same => absent (same ▸ notFresh)
    have unchanged : setAt s.statuses name outcome.status t.name = s.statuses t.name :=
      setAt_of_ne _ _ other
    rcases core.otherStatus t task absent with pending | done
    · exact Or.inl (unchanged.trans pending)
    · exact Or.inr ((congrArg (Json.isStr "done") unchanged).trans done)
  · intro c member
    obtain ⟨among, posted⟩ := core.queued c (by rw [head]; exact mem_cons_of_mem _ member)
    have waiting : c.1 ∈ later.map (·.1) := mem_map.mpr ⟨c, member, rfl⟩
    have other : c.1 ≠ name := fun same => queue.1 (same ▸ waiting)
    obtain ⟨t, running, same⟩ := mem_map.mp among
    refine ⟨mem_map.mpr ⟨t, mem_filter.mpr ⟨running, ?_⟩, same⟩, posted⟩
    simpa [same] using other
  · intro t member posted
    obtain ⟨among, other⟩ := others t member
    have queued := core.posted t among posted
    rw [head, map_cons, mem_cons] at queued
    exact queued.resolve_left other
  · intro other absent
    by_cases here : other = name
    · exact Or.inr (here ▸ posted)
    · apply core.resting other
      intro among
      obtain ⟨t, running, rfl⟩ := mem_map.mp among
      exact absent (mem_map.mpr
        ⟨t, mem_filter.mpr ⟨running, by simpa using here⟩, rfl⟩)

end

end OpenUltraSast.Plane.Scheduler
