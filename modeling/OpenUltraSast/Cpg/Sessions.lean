import OpenUltraSast.Library.Runs

/-!
# Engine sessions

A backend with the session transport on. `build` and `load_graph` work on a copy of the backend
that is bound to the caller's budget, and the copy's first query starts an interpreter; the
closures of the result keep the copy. A build closes the session of its copy when it ends.
-/

namespace OpenUltraSast.Cpg.Sessions

open Option

/-- An `EngineSession`: its process until it is closed, and whether a failure poisoned it. -/
structure EngineSession where
  process : Option Nat
  failed : Bool
deriving DecidableEq

/-- How `start` ends: without a process (no budget for one, or the launch failed), with one that
gave no answer in time, with one that answered, or with an error that it does not catch once the
process is there. A session that could not start is closed, and its process group is reaped or
outlives the allowance. -/
inductive Start where
  | refused
  | timedOut (reaped : Bool)
  | answered
  | raised
deriving DecidableEq

inductive Ending where
  | returned
  | refused
  | raised
deriving DecidableEq

/-- Where the call that made a copy, or the result of the call, is. -/
inductive Phase where
  | unused
  | building
  | refused
  | raised
  | returned
  | cleaned
  | reused
deriving DecidableEq

structure Backend where
  budgeted : Bool
  session : Option EngineSession
  phase : Phase
deriving DecidableEq

/-- A running process group, with the copy that it was started for. -/
structure Process where
  pid : Nat
  owner : Nat
deriving DecidableEq

structure State where
  made : Nat
  backend : Nat → Backend
  processes : List Process
  nextPid : Nat

inductive Action where
  | build (budgeted : Bool)
  | load (budgeted loaded : Bool)
  | query (o : Nat) (start : Start)
  | poison (o : Nat)
  | finish (o : Nat) (ending : Ending) (reaped : Bool)
  | cleanup (o : Nat)
  | die (pid : Nat)

namespace State

variable (s : State)

def setBackend (o : Nat) (new : Backend) : State :=
  { s with backend := fun other => if other = o then new else s.backend other }

def copy (budgeted : Bool) (phase : Phase) : State :=
  { s.setBackend s.made ⟨budgeted, none, phase⟩ with made := s.made + 1 }

def launch (o : Nat) : State :=
  { s with processes := s.processes ++ [⟨s.nextPid, o⟩], nextPid := s.nextPid + 1 }

def kill (pid : Nat) : State :=
  { s with processes := s.processes.filter fun process => process.pid ≠ pid }

def setSession (o : Nat) (session : Option EngineSession) : State :=
  s.setBackend o { s.backend o with session := session }

def setPhase (o : Nat) (phase : Phase) : State :=
  s.setBackend o { s.backend o with phase := phase }

/-- `_session_for`: a session that is there is kept, dead or alive. -/
def sessionFor (o : Nat) (start : Start) : State :=
  if (s.backend o).budgeted && (s.backend o).session.isNone then
    match start with
    | .refused => s.setSession o (some ⟨none, true⟩)
    | .timedOut reaped =>
      if reaped then { s with nextPid := s.nextPid + 1 }.setSession o (some ⟨none, true⟩)
      else (s.launch o).setSession o (some ⟨none, true⟩)
    | .answered => (s.launch o).setSession o (some ⟨some s.nextPid, false⟩)
    -- The error passes through, and nothing keeps the session.
    | .raised => s.launch o
  else s

/-- Whether `_session_for` starts a session and the error of `start` passes through. -/
def raises (o : Nat) (start : Start) : Bool :=
  (s.backend o).budgeted && (s.backend o).session.isNone && start = .raised

/-- `EngineSession.close`: the process group is killed and, unless it outlives the allowance,
reaped. -/
def reap (o : Nat) (reaped : Bool) : State :=
  match (s.backend o).session with
  | some ⟨some pid, _⟩ => if reaped then s.kill pid else s
  | _ => s

def closeSession (o : Nat) (reaped : Bool) : State := (s.reap o reaped).setSession o none

end State

def Ending.phase : Ending → Phase
  | returned => .returned
  | refused => .refused
  | raised => .raised

def Phase.afterCall : Phase → Phase
  | cleaned => reused
  | phase => phase

def step : Action → State → Option State
  | .build budgeted, s => some (s.copy budgeted .building)
  | .load budgeted loaded, s => some (s.copy budgeted (if loaded then .returned else .refused))
  | .query o start, s =>
    match (s.backend o).phase with
    | .building =>
      -- An error of the start ends the build, whose `finally` finds no session to close.
      if s.raises o start then some ((s.sessionFor o start).setPhase o .raised)
      else some (s.sessionFor o start)
    | .returned | .cleaned | .reused =>
      some ((s.sessionFor o start).setPhase o (s.backend o).phase.afterCall)
    | _ => none
  | .poison o, s =>
    match (s.backend o).session with
    | some session =>
      if (s.backend o).phase = .unused then none
      else some (s.setSession o (some { session with failed := true }))
    | none => none
  | .finish o ending reaped, s =>
    if (s.backend o).phase = .building then
      some ((s.closeSession o reaped).setPhase o ending.phase)
    else none
  | .cleanup o, s =>
    if (s.backend o).phase = .returned then some (s.setPhase o .cleaned) else none
  | .die pid, s => some (s.kill pid)

/-- No call was made yet. -/
def init : State := ⟨0, fun _ => ⟨false, none, .unused⟩, [], 0⟩

/-- Nothing runs for a build that returned None, or for a result whose cleanup was its last
call. -/
def Closed (s : State) : Prop :=
  ∀ o, (s.backend o).phase = .refused ∨ (s.backend o).phase = .cleaned →
    ∀ process ∈ s.processes, process.owner ≠ o

def Start.leaves : Start → Bool
  | answered | raised | timedOut false => true
  | _ => false

/-- No query on a result that was returned starts a process, and each close reaps its own. -/
def Orderly (s : State) : Action → Prop
  | .query o start =>
    if (s.backend o).phase = .building then start ≠ .timedOut false
    else start.leaves = true → (s.backend o).budgeted = true → (s.backend o).session ≠ none
  | .finish _ _ reaped => reaped = true
  | _ => True

structure Owned (s : State) : Prop where
  known : ∀ o, (s.backend o).phase ≠ .unused → o < s.made
  made : ∀ process ∈ s.processes, process.owner < s.made
  held : ∀ process ∈ s.processes, (s.backend process.owner).phase = .building →
    ∃ session, (s.backend process.owner).session = some session ∧
      session.process = some process.pid
  phase : ∀ process ∈ s.processes, (s.backend process.owner).phase = .building ∨
    (s.backend process.owner).phase = .raised

private theorem closed_of_owned {s : State} (owned : Owned s) : Closed s := by
  rintro o ended process member rfl
  rcases owned.phase process member with is | is <;> rw [is] at ended <;> simp at ended

@[simp] theorem setBackend_self (s : State) (o : Nat) (new : Backend) :
    (s.setBackend o new).backend o = new := if_pos rfl

variable {o : Nat}

theorem setBackend_of_ne (s : State) {other : Nat} (new : Backend) (apart : other ≠ o) :
    (s.setBackend o new).backend other = s.backend other := if_neg apart

theorem owned_setBackend {s : State} (owned : Owned s) {new : Backend} (known : o < s.made)
    (own : ∀ process ∈ s.processes, process.owner = o →
      (new.phase = .building → ∃ session, new.session = some session ∧
        session.process = some process.pid) ∧
      (new.phase = .building ∨ new.phase = .raised)) : Owned (s.setBackend o new) := by
  constructor
  case known =>
    intro other used
    by_cases here : other = o
    · exact here ▸ known
    · rw [setBackend_of_ne s new here] at used
      exact owned.known other used
  case made => exact owned.made
  case held =>
    intro process member building
    by_cases here : process.owner = o
    · rw [here, setBackend_self] at building ⊢
      exact (own process member here).1 building
    · rw [setBackend_of_ne s new here] at building ⊢
      exact owned.held process member building
  case phase =>
    intro process member
    by_cases here : process.owner = o
    · rw [here, setBackend_self]
      exact (own process member here).2
    · rw [setBackend_of_ne s new here]
      exact owned.phase process member

theorem owned_of_idle {s : State} (owned : Owned s) (known : o < s.made)
    (idle : ∀ process ∈ s.processes, process.owner ≠ o) (new : Backend) : Owned (s.setBackend o new) :=
  owned_setBackend owned known fun process member here => absurd here (idle process member)

theorem owned_kill {s : State} (owned : Owned s) (pid : Nat) : Owned (s.kill pid) := by
  have sub {process : Process} (member : process ∈ (s.kill pid).processes) :
      process ∈ s.processes := List.mem_of_mem_filter member
  constructor
  · exact owned.known
  · exact fun process member => owned.made process (sub member)
  · exact fun process member => owned.held process (sub member)
  · exact fun process member => owned.phase process (sub member)

theorem idle_of_phase {s : State} (owned : Owned s) (building : (s.backend o).phase ≠ .building)
    (raised : (s.backend o).phase ≠ .raised) : ∀ process ∈ s.processes, process.owner ≠ o := by
  rintro process member rfl
  exact (owned.phase process member).elim building raised

theorem idle_of_session {s : State} (owned : Owned s) (building : (s.backend o).phase = .building)
    (none : (s.backend o).session = none) : ∀ process ∈ s.processes, process.owner ≠ o := by
  rintro process member rfl
  obtain ⟨session, is, -⟩ := owned.held process member building
  rw [none] at is
  cases is

theorem idle_reap {s : State} (owned : Owned s) (building : (s.backend o).phase = .building) :
    ∀ process ∈ (s.reap o true).processes, process.owner ≠ o := by
  intro process member here
  unfold State.reap at member
  split at member
  next pid failed is =>
    obtain ⟨there, apart⟩ := List.mem_filter.mp member
    obtain ⟨session, own, pid'⟩ := owned.held process there (here ▸ building)
    rw [here, is] at own
    cases own
    cases pid'
    simp at apart
  next other =>
    obtain ⟨⟨pid, failed⟩, own, pid'⟩ := owned.held process member (here ▸ building)
    cases pid'
    exact other _ _ (here ▸ own)

private theorem owned_reap {s : State} (owned : Owned s) (o : Nat) (reaped : Bool) :
    Owned (s.reap o reaped) := by
  unfold State.reap
  split
  · split
    · exact owned_kill owned _
    · exact owned
  · exact owned

theorem made_reap (s : State) (o : Nat) (reaped : Bool) : (s.reap o reaped).made = s.made := by
  unfold State.reap
  split
  · split <;> rfl
  · rfl

theorem owned_finish {s : State} (owned : Owned s) (building : (s.backend o).phase = .building)
    (phase : Phase) : Owned ((s.closeSession o true).setPhase o phase) := by
  have known : o < s.made := owned.known o (by rw [building]; decide)
  have idle := idle_reap owned building
  have closed : Owned (s.closeSession o true) :=
    owned_of_idle (owned_reap owned o true) (made_reap s o true ▸ known) idle _
  exact owned_of_idle closed (made_reap s o true ▸ known) idle _

theorem owned_launch {s : State} (owned : Owned s) (known : o < s.made)
    (idle : ∀ process ∈ s.processes, process.owner ≠ o) {new : Backend}
    (own : new.phase = .building → new.session = some ⟨some s.nextPid, false⟩)
    (phase : new.phase = .building ∨ new.phase = .raised) : Owned ((s.launch o).setBackend o new) := by
  -- a process was there before, and then of another owner, or is the launched one
  have cases_ {process : Process} (member : process ∈ (s.launch o).processes) :
      process ∈ s.processes ∧ process.owner ≠ o ∨ process = ⟨s.nextPid, o⟩ := by
    rcases List.mem_append.mp member with old | fresh
    · exact .inl ⟨old, idle process old⟩
    · exact .inr (List.mem_singleton.mp fresh)
  constructor
  case known =>
    intro other used
    by_cases here : other = o
    · exact here ▸ known
    · rw [setBackend_of_ne _ new here] at used
      exact owned.known other used
  case made =>
    intro process member
    rcases cases_ member with ⟨old, -⟩ | rfl
    · exact owned.made process old
    · exact known
  case held =>
    intro process member building
    rcases cases_ member with ⟨old, apart⟩ | rfl
    · rw [setBackend_of_ne _ new apart] at building ⊢
      exact owned.held process old building
    · rw [setBackend_self] at building ⊢
      exact ⟨_, own building, rfl⟩
  case phase =>
    intro process member
    rcases cases_ member with ⟨old, apart⟩ | rfl
    · rw [setBackend_of_ne _ new apart]
      exact owned.phase process old
    · rw [setBackend_self]
      exact phase

theorem owned_quiet {s : State} (owned : Owned s) (known : o < s.made) {start : Start}
    (idle : (s.backend o).session = none → ∀ process ∈ s.processes, process.owner ≠ o)
    (quiet : start.leaves = true → (s.backend o).budgeted = true → (s.backend o).session ≠ none) :
    Owned (s.sessionFor o start) ∧ (s.sessionFor o start).processes = s.processes ∧
      (s.sessionFor o start).made = s.made := by
  unfold State.sessionFor
  split
  next starts =>
    rw [Bool.and_eq_true, isNone_iff_eq_none] at starts
    obtain ⟨budgeted, none⟩ := starts
    have stays : start.leaves ≠ true := fun leaves => quiet leaves budgeted none
    cases start with
    | refused => exact ⟨owned_of_idle owned known (idle none) _, rfl, rfl⟩
    | timedOut reaped =>
      cases reaped with
      | true =>
        have same : Owned { s with nextPid := s.nextPid + 1 } :=
          ⟨owned.known, owned.made, owned.held, owned.phase⟩
        exact ⟨owned_of_idle same known (idle none) _, rfl, rfl⟩
      | false => exact absurd rfl stays
    | answered => exact absurd rfl stays
    | raised => exact absurd rfl stays
  next => exact ⟨owned, rfl, rfl⟩

theorem owned_building {s : State} (owned : Owned s) (known : o < s.made) {start : Start}
    (building : (s.backend o).phase = .building) (reaped : start ≠ .timedOut false) :
    Owned (if s.raises o start then (s.sessionFor o start).setPhase o .raised
      else s.sessionFor o start) := by
  by_cases starts : (s.backend o).budgeted = true ∧ (s.backend o).session = none
  · obtain ⟨budgeted, none⟩ := starts
    have idle := idle_of_session owned building none
    have opens : (s.backend o).budgeted && (s.backend o).session.isNone := by
      rw [budgeted, none]
      rfl
    cases start with
    | answered =>
      rw [State.raises, opens, if_neg (by decide), State.sessionFor, if_pos opens]
      exact owned_launch owned known idle (fun _ => rfl) (.inl building)
    | raised =>
      rw [State.raises, opens, if_pos (by decide), State.sessionFor, if_pos opens]
      exact owned_launch owned known idle nofun (.inr rfl)
    | refused =>
      rw [State.raises, opens, if_neg (by decide)]
      exact (owned_quiet owned known (fun _ => idle) fun leaves => absurd leaves (by decide)).1
    | timedOut reaped' =>
      cases reaped' with
      | true =>
        rw [State.raises, opens, if_neg (by decide)]
        exact (owned_quiet owned known (fun _ => idle) fun leaves => absurd leaves (by decide)).1
      | false => exact absurd rfl reaped
  · have still : ¬ ((s.backend o).budgeted && (s.backend o).session.isNone) = true := by
      rwa [Bool.and_eq_true, isNone_iff_eq_none]
    have stays : s.sessionFor o start = s := if_neg still
    rw [State.raises, Bool.eq_false_iff.mpr still, stays]
    exact owned

theorem owned_copy {s : State} (owned : Owned s) (budgeted : Bool) (phase : Phase) :
    Owned (s.copy budgeted phase) := by
  have apart {process : Process} (member : process ∈ s.processes) : process.owner ≠ s.made :=
    Nat.ne_of_lt (owned.made process member)
  have same {process : Process} (member : process ∈ s.processes) :
      (s.copy budgeted phase).backend process.owner = s.backend process.owner :=
    setBackend_of_ne s _ (apart member)
  constructor
  case known =>
    intro other used
    by_cases here : other = s.made
    · rw [here]
      exact Nat.lt_succ_self _
    · have before : (s.copy budgeted phase).backend other = s.backend other :=
        setBackend_of_ne s _ here
      rw [before] at used
      exact Nat.lt_succ_of_lt (owned.known other used)
  case made => exact fun process member => Nat.lt_succ_of_lt (owned.made process member)
  case held =>
    intro process member
    rw [same member]
    exact owned.held process member
  case phase =>
    intro process member
    rw [same member]
    exact owned.phase process member

private theorem owned_poison {s : State} (owned : Owned s) {session : EngineSession}
    (is : (s.backend o).session = some session) (used : (s.backend o).phase ≠ .unused) :
    Owned (s.setSession o (some { session with failed := true })) := by
  apply owned_setBackend owned (owned.known o used)
  rintro process member rfl
  refine ⟨fun building => ?_, owned.phase process member⟩
  obtain ⟨own, same, pid⟩ := owned.held process member building
  rw [is] at same
  cases same
  exact ⟨_, rfl, pid⟩

/-- Each orderly step keeps every process with a backend that has not ended. -/
theorem owned_step {s next : State} {action : Action} (owned : Owned s) (orderly : Orderly s action)
    (taken : step action s = some next) : Owned next := by
  cases action with
  | build budgeted =>
    cases taken
    exact owned_copy owned budgeted _
  | load budgeted loaded =>
    cases taken
    exact owned_copy owned budgeted _
  | query o start =>
    rw [step] at taken
    rw [Orderly] at orderly
    have called (building : (s.backend o).phase ≠ .building) (raised : (s.backend o).phase ≠ .raised)
        (used : (s.backend o).phase ≠ .unused) (phase : Phase) :
        Owned ((s.sessionFor o start).setPhase o phase) := by
      -- Nothing runs for the result, and the query starts nothing that stays.
      rw [if_neg building] at orderly
      have idle := idle_of_phase owned building raised
      obtain ⟨quiet, processes, made⟩ :=
        owned_quiet owned (owned.known o used) (fun _ => idle) orderly
      exact owned_of_idle quiet (made ▸ owned.known o used) (processes ▸ idle) _
    split at taken
    next building =>
      rw [if_pos building] at orderly
      have kept := owned_building owned (owned.known o (by rw [building]; decide)) building orderly
      split at taken <;> cases taken
      next raises => rwa [if_pos raises] at kept
      next raises => rwa [if_neg raises] at kept
    next phase =>
      cases taken
      exact called (by rw [phase]; decide) (by rw [phase]; decide) (by rw [phase]; decide) _
    next phase =>
      cases taken
      exact called (by rw [phase]; decide) (by rw [phase]; decide) (by rw [phase]; decide) _
    next phase =>
      cases taken
      exact called (by rw [phase]; decide) (by rw [phase]; decide) (by rw [phase]; decide) _
    next => cases taken
  | poison o =>
    rw [step] at taken
    split at taken
    next session is =>
      rw [ite_none_left_eq_some, Option.some.injEq] at taken
      obtain ⟨used, rfl⟩ := taken
      exact owned_poison owned is used
    next => cases taken
  | finish o ending reaped =>
    rw [step, ite_none_right_eq_some, Option.some.injEq] at taken
    obtain ⟨building, rfl⟩ := taken
    cases (orderly : reaped = true)
    exact owned_finish owned building ending.phase
  | cleanup o =>
    rw [step, ite_none_right_eq_some, Option.some.injEq] at taken
    obtain ⟨returned, rfl⟩ := taken
    apply owned_of_idle owned (owned.known o (by rw [returned]; decide))
    exact idle_of_phase owned (by rw [returned]; decide) (by rw [returned]; decide)
  | die pid =>
    cases taken
    exact owned_kill owned pid

private theorem owned_init : Owned init := ⟨fun _ used => absurd rfl used, nofun, nofun, nofun⟩

/-- A result is queried after its build, and its cleanup leaves the interpreter running. -/
theorem queried_result_leaks :
    ¬ ∀ actions s, Runs.run step actions init = some s → Closed s := by
  intro closed
  have run : ∃ s, Runs.run step
      [.build true, .finish 0 .returned true, .query 0 .answered, .cleanup 0] init = some s ∧
      (s.backend 0).phase = .cleaned ∧ (⟨0, 0⟩ : Process) ∈ s.processes :=
    ⟨_, rfl, rfl, by decide⟩
  obtain ⟨s, ran, cleaned, member⟩ := run
  exact closed _ s ran 0 (.inr cleaned) _ member rfl

/-- When no query on a returned result starts a process that stays and each close reaps its own,
nothing runs for a build that returned None or for a result after its cleanup. -/
theorem sessions_closed {actions : List Action} {s : State}
    (orderly : Runs.Meets step Orderly actions init) (ran : Runs.run step actions init = some s) :
    Closed s :=
  closed_of_owned (Runs.run_invariant (fun _ _ _ owned => owned_step owned) owned_init orderly ran)

def quietRun : List Action :=
  [.build true, .query 0 .answered, .finish 0 .returned true, .query 0 .refused, .cleanup 0]

theorem quietRun_closed : ∃ s, Runs.run step quietRun init = some s ∧ Closed s := by
  have orderly : Runs.Meets step Orderly quietRun init := by
    refine ⟨trivial, fun _ built => ?_⟩
    cases built
    refine ⟨(by decide : Start.answered ≠ .timedOut false), fun _ asked => ?_⟩
    cases asked
    refine ⟨rfl, fun _ finished => ?_⟩
    cases finished
    refine ⟨fun leaves => absurd leaves (by decide), fun _ questioned => ?_⟩
    cases questioned
    exact ⟨trivial, fun _ _ => trivial⟩
  exact ⟨_, rfl, sessions_closed orderly rfl⟩

end OpenUltraSast.Cpg.Sessions
