import OpenUltraSast.Library.Dicts
import OpenUltraSast.Library.Runs

/-!
# Background engine runs

Hook processes that start one detached replay for a head and show the results of earlier ones, for
one artifact directory.
-/

namespace OpenUltraSast.Push.Background

abbrev Head := String

inductive File where
  | writing
  | complete (artifact : Nat)
deriving DecidableEq

/-- Where a hook process is. In `start`, a reading is stale once the lock that was read did not
name the newest replay or another hook has spawned since. In `previous`, a call knows the artifacts
that it listed, the heads that are left and what it is going to return. -/
inductive Phase where
  | idle
  | seen (head : Head) (pid : Option Nat) (stale : Bool)
  | cleared (head : Head) (stale : Bool)
  | spawned (pid : Nat)
  | opened (pid : Nat)
  | scanning (listed : List Nat) (left : List Head) (shown : List Nat)
  | unmarked (head : Head) (listed : List Nat) (left : List Head) (shown : List Nat)
  | gathered (head : Head) (listed : List Nat) (left : List Head) (shown : List Nat)
deriving DecidableEq

/-- A background replay that is alive, and whether it has written its artifact. -/
structure Replay where
  pid : Nat
  head : Head
  done : Bool := false
deriving DecidableEq

/-- The lock file is absent, truncated, or names a pid. -/
abbrev Lock := Option (Option Nat)

structure State where
  lock : Lock := none
  files : List (Head × File) := []
  markers : List Head := []
  alive : Nat → Bool := fun _ => false
  replays : List Replay := []
  newest : Option Nat := none
  written : Nat := 0
  phase : Nat → Phase := fun _ => .idle
  /-- What calls of `previous` have returned, and what those calls had listed. -/
  returned : List Nat := []
  due : List Nat := []

inductive Action where
  | readLock (p : Nat) (head : Head)
  | test (p : Nat)
  | spawn (p : Nat) (pid : Nat)
  | truncate (p : Nat)
  | writeLock (p : Nat)
  | begin_ (pid : Nat)
  | finish (pid : Nat)
  | fork (pid : Nat)
  | die (pid : Nat)
  | list (p : Nat) (order : List Head)
  | check (p : Nat)
  | read (p : Nat) (ok : Bool)
  | touch (p : Nat) (ok : Bool)
  | give (p : Nat)
  | leave (p : Nat)

def setPhase (phase : Nat → Phase) (p : Nat) (new : Phase) : Nat → Phase :=
  fun q => if q = p then new else phase q

/-- A reading that another hook's spawn makes stale. -/
def Phase.overtake : Phase → Phase
  | seen head pid _ => seen head pid true
  | cleared head _ => cleared head true
  | phase => phase

/-- What a call of `previous` is going to return. -/
def Phase.shown : Phase → List Nat
  | scanning _ _ shown | unmarked _ _ _ shown | gathered _ _ _ shown => shown
  | _ => []

/-- The head that a call found without a marker and has not marked yet. -/
def Phase.on : Phase → Option Head
  | unmarked head _ _ _ | gathered head _ _ _ => some head
  | _ => none

namespace State

variable (s : State)

def go (p : Nat) (new : Phase) : State := { s with phase := setPhase s.phase p new }

/-- `_alive(running.get("pid"))`. -/
def aliveAt (pid : Option Nat) : Bool := pid.any fun pid => 0 < pid && s.alive pid

def artifacts : List Nat :=
  s.files.filterMap fun entry =>
    match entry.2 with
    | .complete artifact => some artifact
    | .writing => none

def namesNewest : Bool := s.newest.isNone || s.lock = some s.newest

def replayOf (pid : Nat) : Option Replay :=
  s.replays.find? fun replay => replay.pid = pid && !replay.done

/-- A new replay; the readings of all other hooks are stale now. -/
def launch (p pid : Nat) (head : Head) : State :=
  { s with
    replays := s.replays ++ [{ pid := pid, head := head }]
    newest := some pid
    alive := fun other => other = pid || s.alive other
    phase := setPhase (fun q => (s.phase q).overtake) p (.spawned pid) }

end State

def step : Action → State → Option State
  | .readLock p head, s =>
    if s.phase p = .idle then some (s.go p (.seen head s.lock.join !s.namesNewest)) else none
  | .test p, s =>
    match s.phase p with
    | .seen head pid stale =>
      some (s.go p (if s.aliveAt pid then .idle else .cleared head stale))
    | _ => none
  | .spawn p pid, s =>
    match s.phase p with
    | .cleared head _ =>
      if 0 < pid ∧ s.alive pid = false then some (s.launch p pid head) else none
    | _ => none
  | .truncate p, s =>
    match s.phase p with
    | .spawned pid => some { s.go p (.opened pid) with lock := some none }
    | _ => none
  | .writeLock p, s =>
    match s.phase p with
    | .opened pid => some { s.go p .idle with lock := some (some pid) }
    | _ => none
  | .begin_ pid, s =>
    (s.replayOf pid).map fun replay => { s with files := Dicts.set s.files replay.head .writing }
  | .finish pid, s =>
    (s.replayOf pid).map fun replay =>
      { s with
        files := Dicts.set s.files replay.head (.complete s.written)
        written := s.written + 1
        replays := s.replays.map fun other =>
          if other.pid = pid then { other with done := true } else other }
  | .fork pid, s =>
    if s.alive pid then none
    else some { s with alive := fun other => other = pid || s.alive other }
  | .die pid, s =>
    some { s with
      alive := fun other => other ≠ pid && s.alive other
      replays := s.replays.filter fun replay => replay.pid ≠ pid }
  | .list p order, s =>
    if s.phase p = .idle ∧ order.Perm (Dicts.keys s.files) then
      some (s.go p (.scanning s.artifacts order []))
    else none
  | .check p, s =>
    match s.phase p with
    | .scanning listed (head :: left) shown =>
      some (s.go p (if head ∈ s.markers then .scanning listed left shown
        else .unmarked head listed left shown))
    | _ => none
  -- A file that is still being written does not parse.
  | .read p ok, s =>
    match s.phase p with
    | .unmarked head listed left shown =>
      match ok, s.files.lookup head with
      | true, some (.complete artifact) =>
        some (s.go p (.gathered head listed left (shown ++ [artifact])))
      | _, _ => some (s.go p (.scanning listed left shown))
    | _ => none
  -- An error of the marker is suppressed.
  | .touch p ok, s =>
    match s.phase p with
    | .gathered head listed left shown =>
      some { s.go p (.scanning listed left shown) with
        markers := if ok then head :: s.markers else s.markers }
    | _ => none
  | .give p, s =>
    match s.phase p with
    | .scanning listed [] shown =>
      some { s.go p .idle with returned := s.returned ++ shown, due := s.due ++ listed }
    | _ => none
  -- The hook dies, or an error ends its call.
  | .leave p, s => if s.phase p = .idle then none else some (s.go p .idle)

/-- Nothing happened in the directory yet. -/
def init : State := {}

/-- At most one background replay is alive. -/
def Exclusive (s : State) : Prop := s.replays.length ≤ 1

/-- No artifact is returned twice, and one that a finished call of `previous` had listed is
returned, or a call under way is going to return it. -/
def ShownOnce (s : State) : Prop :=
  s.returned.Nodup ∧
    ∀ artifact ∈ s.due, artifact ∈ s.returned ∨ ∃ p, artifact ∈ (s.phase p).shown

/-- No hook spawns on a stale reading of the lock. A replay writes its artifact where there is
neither a marker nor an artifact. Two calls of `previous` are not at one unmarked head together, a
complete artifact is read, a marker is set, and no hook leaves with results it has not returned. -/
def Orderly (s : State) : Action → Prop
  | .spawn p _ => ∀ head, s.phase p ≠ .cleared head true
  | .begin_ pid | .finish pid => ∀ replay, s.replayOf pid = some replay →
    replay.head ∉ s.markers ∧ ∀ artifact, s.files.lookup replay.head ≠ some (.complete artifact)
  | .check p => ∀ listed head left shown, s.phase p = .scanning listed (head :: left) shown →
    head ∉ s.markers → ∀ q, (s.phase q).on ≠ some head
  | .read _ ok | .touch _ ok => ok = true
  | .leave p => (s.phase p).shown = []
  | _ => True

end OpenUltraSast.Push.Background
