import OpenUltraSast.Library.Json
import OpenUltraSast.Library.Runs

/-!
# The run lock

Processes that acquire and release the lock file of a run. `_acquire_lock` reads the file, tests
the pid that it finds and writes its own, each a step of its own; `run` and `mark_done` unlink
the file when they are done.
-/

namespace OpenUltraSast.Plane.RunLock

open Values Option

/-- Where a process is. Until it writes, another process may write the file first. -/
inductive Phase where
  | idle
  | seen (pid : Int) (overtaken : Bool)
  | cleared (overtaken : Bool)
  | holding
deriving DecidableEq

/-- How `os.kill(pid, 0)` ends: it succeeds, a permission error refuses it, or there is no such
process. -/
inductive Answer where
  | succeeded
  | refused
  | noProcess
deriving DecidableEq

/-- The lock file as `_read_json` reads it, the live processes and where each of them is. -/
structure State where
  lock : Option Json
  alive : Int → Bool
  phase : Int → Phase

inductive Action where
  | read (p : Int)
  | test (p : Int) (answer : Answer)
  | write (p : Int)
  | unlink (p : Int)
  | leave (p : Int)
  | crash (p : Int)
  | spawn (p : Int)

/-- `isinstance(pid, int)`, with the number that a truth value is. -/
def recordedPid : Option Json → Option Int
  | some (.int pid) => some pid
  | some (.bool value) => some (if value then 1 else 0)
  | _ => none

def Phase.overtake : Phase → Phase
  | seen pid _ => seen pid true
  | cleared _ => cleared true
  | phase => phase

def setPhase (phase : Int → Phase) (p : Int) (new : Phase) : Int → Phase :=
  fun q => if q = p then new else phase q

def afterRead (lock : Option Json) (p : Int) : Phase :=
  match recordedPid lock with
  | some pid => if pid = p then .cleared false else .seen pid false
  | none => .cleared false

def Answer.fits (alive : Bool) : Answer → Bool
  | succeeded | refused => alive
  | noProcess => !alive

def step : Action → State → Option State
  | .read p, s =>
    if s.alive p ∧ s.phase p = .idle then
      some { s with phase := setPhase s.phase p (afterRead s.lock p) }
    else none
  | .test p answer, s =>
    match s.phase p with
    | .seen pid overtaken =>
      if answer.fits (s.alive pid) then
        -- Every `OSError` is suppressed, so a refused test goes on like one of a dead process.
        some { s with
          phase := setPhase s.phase p (if answer = .succeeded then .idle else .cleared overtaken) }
      else none
    | _ => none
  | .write p, s =>
    match s.phase p with
    | .cleared _ =>
      some { s with
        lock := some (.int p)
        phase := setPhase (fun q => (s.phase q).overtake) p .holding }
    | _ => none
  | .unlink p, s =>
    if s.phase p = .holding then some { s with lock := none, phase := setPhase s.phase p .idle }
    else none
  -- An exception between `_acquire_lock` and the `try` of `run`.
  | .leave p, s =>
    if s.phase p = .holding then some { s with phase := setPhase s.phase p .idle } else none
  | .crash p, s =>
    if s.alive p then
      some { s with
        alive := fun q => if q = p then false else s.alive q
        phase := setPhase s.phase p .idle }
    else none
  | .spawn p, s =>
    if s.alive p then none
    else some { s with alive := fun q => if q = p then true else s.alive q }

/-- No process is in `_acquire_lock` yet; the file may be there. -/
def Start (s : State) : Prop := ∀ p, s.phase p = .idle

/-- At most one process is between `_acquire_lock` and its unlink. -/
def Excludes (s : State) : Prop := ∀ p q, s.phase p = .holding → s.phase q = .holding → p = q

/-- No process writes the file when another one wrote it since it read it, and no test of a
process that holds the lock is refused. -/
def Orderly (s : State) : Action → Prop
  | .write p => s.phase p ≠ .cleared true
  | .test p .refused => ∀ pid overtaken, s.phase p = .seen pid overtaken → s.phase pid ≠ .holding
  | _ => True

/-- What orderly steps keep. -/
structure Guarded (s : State) : Prop where
  named : ∀ q, s.phase q = .holding → s.lock = some (.int q)
  seen : ∀ p pid, s.phase p = .seen pid false → ∀ q, q ≠ p → s.phase q = .holding → q = pid
  cleared : ∀ p, s.phase p = .cleared false → ∀ q, q ≠ p → s.phase q ≠ .holding
  alive : ∀ p, s.phase p ≠ .idle → s.alive p = true

theorem setPhase_self (phase : Int → Phase) (p : Int) (new : Phase) :
    setPhase phase p new p = new := if_pos rfl

theorem setPhase_of_ne (phase : Int → Phase) {p q : Int} (new : Phase) (other : q ≠ p) :
    setPhase phase p new q = phase q := if_neg other

variable {s : State}

theorem excludes_of_guarded (guarded : Guarded s) : Excludes s := by
  intro p q first second
  have same := (guarded.named p first).symm.trans (guarded.named q second)
  exact Json.int.inj (some.inj same)

private theorem guarded_of_start (start : Start s) : Guarded s := by
  constructor
  · intro q holds
    exact absurd holds (by rw [start q]; decide)
  · intro p pid sees
    exact absurd sees (by rw [start p]; exact nofun)
  · intro p clear
    exact absurd clear (by rw [start p]; exact nofun)
  · intro p busy
    exact absurd (start p) busy

variable {p : Int}

/-- A process that comes to rest or goes on without the lock changes nothing for the others. -/
theorem guarded_setPhase (guarded : Guarded s) {new : Phase} (notHolding : new ≠ .holding)
    (alive : new ≠ .idle → s.alive p = true)
    (seen : ∀ pid, new = .seen pid false → ∀ q, q ≠ p → s.phase q = .holding → q = pid)
    (cleared : new = .cleared false → ∀ q, q ≠ p → s.phase q ≠ .holding) :
    Guarded { s with phase := setPhase s.phase p new } := by
  -- `p` itself does not hold, so a holder is another process, in its old phase
  have holder : ∀ q, setPhase s.phase p new q = .holding → q ≠ p ∧ s.phase q = .holding := by
    intro q holds
    by_cases here : q = p
    · rw [here, setPhase_self] at holds
      exact absurd holds notHolding
    · exact ⟨here, (setPhase_of_ne s.phase new here).symm.trans holds⟩
  constructor
  · exact fun q holds => guarded.named q (holder q holds).2
  · intro other pid sees q apart holds
    have held := (holder q holds).2
    change setPhase s.phase p new other = .seen pid false at sees
    -- `p` itself: the hypotheses about the new phase
    by_cases here : other = p
    · subst here
      rw [setPhase_self] at sees
      exact seen pid sees q apart held
    · rw [setPhase_of_ne s.phase new here] at sees
      exact guarded.seen other pid sees q apart held
  · intro other clear q apart holds
    have held := (holder q holds).2
    change setPhase s.phase p new other = .cleared false at clear
    by_cases here : other = p
    · subst here
      rw [setPhase_self] at clear
      exact cleared clear q apart held
    · rw [setPhase_of_ne s.phase new here] at clear
      exact guarded.cleared other clear q apart held
  · intro other busy
    change setPhase s.phase p new other ≠ .idle at busy
    by_cases here : other = p
    · subst here
      rw [setPhase_self] at busy
      exact alive busy
    · rw [setPhase_of_ne s.phase new here] at busy
      exact guarded.alive other busy

private theorem guarded_read (guarded : Guarded s) (live : s.alive p = true) :
    Guarded { s with phase := setPhase s.phase p (afterRead s.lock p) } := by
  have recorded : ∀ q, s.phase q = .holding → recordedPid s.lock = some q := by
    intro q holds
    rw [guarded.named q holds]
    rfl
  apply guarded_setPhase guarded
  · unfold afterRead
    split
    · split <;> exact nofun
    · exact nofun
  · exact fun _ => live
  · intro pid sees q _ holds
    unfold afterRead at sees
    rw [recorded q holds] at sees
    simp only at sees
    split at sees
    · cases sees
    · exact (Phase.seen.inj sees).1
  · intro clear q apart holds
    -- A holder's own pid is in the file, so the reader would have seen it.
    unfold afterRead at clear
    rw [recorded q holds] at clear
    simp only at clear
    split at clear
    next same => exact apart same
    next => cases clear

theorem guarded_test (guarded : Guarded s) {p pid : Int} {overtaken : Bool} {answer : Answer}
    (sees : s.phase p = .seen pid overtaken) (fits : answer.fits (s.alive pid) = true)
    (orderly : answer = .refused → s.phase pid ≠ .holding) :
    Guarded { s with
      phase := setPhase s.phase p (if answer = .succeeded then .idle else .cleared overtaken) } := by
  have live : s.alive p = true := guarded.alive p (by rw [sees]; exact nofun)
  apply guarded_setPhase guarded
  · split <;> exact nofun
  · exact fun _ => live
  · intro other sees
    split at sees <;> cases sees
  · intro clear q apart holds
    split at clear
    next => cases clear
    next refusedOrGone =>
      cases clear
      have same := guarded.seen p pid sees q apart holds
      subst same
      cases answer with
      | succeeded => exact refusedOrGone rfl
      | refused => exact orderly rfl holds
      | noProcess =>
        -- A holder is alive.
        have dead := guarded.alive q (by rw [holds]; exact nofun)
        rw [Answer.fits, dead] at fits
        cases fits

private theorem guarded_write (guarded : Guarded s) (clear : s.phase p = .cleared false) :
    Guarded { s with
      lock := some (.int p)
      phase := setPhase (fun q => (s.phase q).overtake) p .holding } := by
  have only : ∀ q, setPhase (fun q => (s.phase q).overtake) p .holding q = .holding → q = p := by
    intro q holds
    by_contra other
    rw [setPhase_of_ne _ _ other] at holds
    have before : s.phase q = .holding := by
      cases phase : s.phase q <;> simp [phase, Phase.overtake] at holds ⊢
    exact guarded.cleared p clear q other before
  -- Whoever is on its way to the file is overtaken now.
  have late : ∀ q, setPhase (fun q => (s.phase q).overtake) p .holding q ≠ .cleared false ∧
      ∀ pid, setPhase (fun q => (s.phase q).overtake) p .holding q ≠ .seen pid false := by
    intro q
    by_cases here : q = p
    · rw [here, setPhase_self]
      exact ⟨nofun, fun _ => nofun⟩
    · rw [setPhase_of_ne _ _ here]
      cases s.phase q <;> exact ⟨nofun, fun _ => nofun⟩
  constructor
  · exact fun q holds => congrArg (some ∘ Json.int) (only q holds).symm
  · exact fun q pid sees => absurd sees ((late q).2 pid)
  · exact fun q sees => absurd sees (late q).1
  · intro q busy
    change setPhase (fun q => (s.phase q).overtake) p .holding q ≠ .idle at busy
    by_cases here : q = p
    · rw [here]
      exact guarded.alive p (by rw [clear]; exact nofun)
    · rw [setPhase_of_ne _ _ here] at busy
      apply guarded.alive q
      intro idle
      rw [idle] at busy
      exact busy rfl

theorem guarded_idle (guarded : Guarded s) (p : Int) :
    Guarded { s with phase := setPhase s.phase p .idle } :=
  guarded_setPhase guarded nofun (fun idle => absurd rfl idle) (fun _ sees => nomatch sees)
    fun clear => nomatch clear

theorem guarded_release (guarded : Guarded s) (lock : Option Json)
    (holds : s.phase p = .holding) :
    Guarded { s with lock := lock, phase := setPhase s.phase p .idle } := by
  have rest := guarded_idle guarded p
  have nobody : ∀ q, setPhase s.phase p .idle q ≠ .holding := by
    intro q other
    by_cases here : q = p
    · rw [here, setPhase_self] at other
      cases other
    · rw [setPhase_of_ne _ _ here] at other
      exact here (excludes_of_guarded guarded q p other holds)
  exact ⟨fun q other => absurd other (nobody q), rest.seen, rest.cleared, rest.alive⟩

/-- Each orderly step keeps every holder named in the lock. -/
theorem guarded_step {next : State} {action : Action} (guarded : Guarded s) (orderly : Orderly s action)
    (taken : step action s = some next) : Guarded next := by
  -- orderly tests and writes are of locks that were not overtaken; the rest keep the guard
  cases action with
  | read p =>
    rw [step, ite_none_right_eq_some] at taken
    obtain ⟨⟨live, -⟩, ⟨⟩⟩ := taken
    exact guarded_read guarded live
  | test p answer =>
    cases phase : s.phase p with
    | seen pid overtaken =>
      rw [step, phase] at taken
      simp only [ite_none_right_eq_some] at taken
      obtain ⟨fits, ⟨⟩⟩ := taken
      apply guarded_test guarded phase fits
      rintro rfl
      exact orderly pid overtaken phase
    | _ => rw [step, phase] at taken; cases taken
  | write p =>
    cases phase : s.phase p with
    | cleared overtaken =>
      rw [step, phase] at taken
      cases taken
      cases overtaken with
      | false => exact guarded_write guarded phase
      | true => exact absurd phase orderly
    | _ => rw [step, phase] at taken; cases taken
  | unlink p =>
    rw [step, ite_none_right_eq_some] at taken
    obtain ⟨holds, ⟨⟩⟩ := taken
    exact guarded_release guarded none holds
  | leave p =>
    rw [step, ite_none_right_eq_some] at taken
    obtain ⟨holds, ⟨⟩⟩ := taken
    exact guarded_release guarded s.lock holds
  | crash p =>
    rw [step, ite_none_right_eq_some] at taken
    obtain ⟨live, ⟨⟩⟩ := taken
    have rest := guarded_idle guarded p
    refine ⟨rest.named, rest.seen, rest.cleared, fun q busy => ?_⟩
    -- a crash leaves the phases of the other processes, and the lock as it was
    have other : q ≠ p := fun here => busy (by rw [here]; exact setPhase_self _ _ _)
    simp only [if_neg other]
    exact rest.alive q busy
  | spawn p =>
    rw [step, ite_none_left_eq_some] at taken
    obtain ⟨-, ⟨⟩⟩ := taken
    refine ⟨guarded.named, guarded.seen, guarded.cleared, fun q busy => ?_⟩
    simp only
    split
    · rfl
    · exact guarded.alive q busy

/-- In every orderly run the lock excludes. -/
theorem lock_excludes {actions : List Action} {first last : State} (start : Start first)
    (orderly : Runs.Meets step Orderly actions first)
    (ran : Runs.run step actions first = some last) : Excludes last := by
  apply excludes_of_guarded
  exact Runs.run_invariant (fun _ _ _ => guarded_step) (guarded_of_start start) orderly ran

def twoProcesses : State :=
  { lock := none, alive := fun p => p = 1 || p = 2, phase := fun _ => .idle }

def turns : List Action := [.read 1, .write 1, .read 2, .test 2 .succeeded]

/-- The second process reads after the first one wrote, and is turned away. -/
theorem lock_excludes_turns :
    ∃ last, Runs.run step turns twoProcesses = some last ∧ Excludes last := by
  obtain ⟨last, ran⟩ : ∃ last, Runs.run step turns twoProcesses = some last := ⟨_, rfl⟩
  have orderly : Runs.Meets step Orderly turns twoProcesses := by
    refine ⟨trivial, fun _ taken => ?_⟩
    cases taken
    refine ⟨nofun, fun _ taken => ?_⟩
    cases taken
    exact ⟨trivial, fun _ _ => ⟨trivial, fun _ _ => trivial⟩⟩
  exact ⟨last, ran, lock_excludes (fun _ => rfl) orderly ran⟩

/-- Both processes read before one of them writes, and both hold the lock. -/
theorem both_hold :
    ∃ last, Runs.run step [.read 1, .read 2, .write 1, .write 2] twoProcesses = some last ∧
      ¬ Excludes last := by
  refine ⟨_, rfl, fun excludes => ?_⟩
  have same : (1 : Int) = 2 := excludes 1 2 rfl rfl
  exact absurd same (by decide)

end OpenUltraSast.Plane.RunLock
