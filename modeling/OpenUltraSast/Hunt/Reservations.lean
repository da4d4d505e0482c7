import OpenUltraSast.Library.Runs

/-!
# The pilot ledger

Processes that reserve programs for the held-out pilot. A call of `_reserve` locks the ledger, reads
it whole, makes the measurement directory and appends a line; a crash may come between any two
steps, and may leave a part of the line.
-/

namespace OpenUltraSast.Hunt.Report

/-- A call of `_reserve`, on the day that it starts. -/
structure Call where
  programId : String
  date : String
deriving DecidableEq

/-- `f"{date}-hunt-gain-{program_id[:12]}"`. -/
def Call.directory (call : Call) : String :=
  call.date ++ "-hunt-gain-" ++ String.ofList (call.programId.toList.take 12)

def Call.isHexadecimal (call : Call) : Bool :=
  call.programId ≠ "" && call.programId.toList.all ("0123456789abcdef".toList.contains ·)

/-- What the ledger says of a call. -/
structure Row where
  programId : String
  date : String
  measurementDirectory : String

def Call.row (root : String) (call : Call) : Row :=
  ⟨call.programId, call.date, root ++ "/" ++ call.directory⟩

/-- How much of a line is in the file: some characters of its object, the object, or the object and
the line's end. -/
inductive Kept where
  | part
  | object
  | line
deriving DecidableEq

/-- The text of the ledger, as what is left of each line that was appended. -/
abbrev Ledger := List (Row × Kept)

def linesOf : Ledger → List Ledger
  | [] => []
  | (row, .line) :: rest => [(row, .line)] :: linesOf rest
  | entry :: rest =>
    match linesOf rest with
    | [] => [[entry]]
    | first :: others => (entry :: first) :: others

/-- `json.loads(line)["program_id"]`: a line that is not one whole object is no JSON. -/
def loadsId : Ledger → Option String
  | [(_, .part)] => none
  | [(row, _)] => some row.programId
  | _ => none

inductive ReserveError where
  | notHexadecimal
  | alreadyRun
  | unreadable
  | directoryExists
deriving DecidableEq

/-- Whether a line names the program, which ends the reading. -/
def findRun (programId : String) : List Ledger → Except ReserveError Unit
  | [] => .ok ()
  | line :: rest =>
    match loadsId line with
    | none => .error .unreadable
    | some other => if other = programId then .error .alreadyRun else findRun programId rest

inductive Phase where
  | idle
  | opened (call : Call)
  | locked (call : Call)
  | checked (call : Call)
  | made (call : Call)
  | written (call : Call)
  | flushed (call : Call)
  | synced (call : Call)

def Phase.call? : Phase → Option Call
  | idle => none
  | opened call | locked call | checked call | made call | written call | flushed call
  | synced call => some call

inductive Outcome where
  | returned (call : Call)
  | raised (call : Call) (error : ReserveError)
deriving DecidableEq

def Outcome.call : Outcome → Call
  | returned call | raised call _ => call

/-- The root directory, the lock of the ledger, and the processes. The file holds what is on the disk
and what is flushed and not yet synced. -/
structure State where
  directories : List String := []
  ledger : Ledger := []
  cache : Ledger := []
  holder : Option Nat := none
  phase : Nat → Phase := fun _ => .idle
  started : List Call := []
  outcomes : List Outcome := []

inductive Action where
  | start (p : Nat) (call : Call)
  | advance (p : Nat)
  | crash (p : Nat) (kept : Option Kept)

def State.goto (s : State) (p : Nat) (next : Phase) : State :=
  { s with phase := fun q => if q = p then next else s.phase q }

def State.release (s : State) (p : Nat) : State :=
  { s.goto p .idle with holder := if s.holder = some p then none else s.holder }

def State.finish (s : State) (p : Nat) (outcome : Outcome) : State :=
  { s.release p with outcomes := s.outcomes ++ [outcome] }

section Root
variable (root : String)

/-- The next step of a call. -/
def advance (p : Nat) (s : State) : Option State :=
  match s.phase p with
  | .idle => none
  | .opened call =>
    if s.holder = none then some ({ s with holder := some p }.goto p (.locked call)) else none
  | .locked call =>
    match findRun call.programId (linesOf (s.ledger ++ s.cache)) with
    | .ok () => some (s.goto p (.checked call))
    | .error error => some (s.finish p (.raised call error))
  | .checked call =>
    if call.directory ∈ s.directories then some (s.finish p (.raised call .directoryExists))
    else some ({ s with directories := call.directory :: s.directories }.goto p (.made call))
  | .made call => some (s.goto p (.written call))
  | .written call => some ({ s with cache := [(call.row root, .line)] }.goto p (.flushed call))
  | .flushed call =>
    some ({ s with ledger := s.ledger ++ s.cache, cache := [] }.goto p (.synced call))
  | .synced call => some (s.finish p (.returned call))

def leaves (s : State) (call : Call) (kept : Option Kept) : State :=
  { s with ledger := s.ledger ++ (kept.map (call.row root, ·)).toList, cache := [] }

def step : Action → State → Option State
  | .start p call, s =>
    match s.phase p with
    | .idle =>
      let s := { s with started := s.started ++ [call] }
      if call.isHexadecimal then some (s.goto p (.opened call))
      else some (s.finish p (.raised call .notHexadecimal))
    | _ => none
  | .advance p, s => advance root p s
  | .crash p kept, s =>
    match s.phase p with
    | .idle => none
    -- Some of the buffer may be in the file, or on the disk.
    | .written call | .flushed call => some ((leaves root s call kept).release p)
    | _ => some (s.release p)

end Root

def State.returned (s : State) : List Call :=
  s.outcomes.filterMap fun
    | .returned call => some call
    | .raised _ _ => none

/-- No program is reserved twice, and no two reservations have one directory. -/
def SpentOnce (s : State) : Prop :=
  (s.returned.map (·.programId)).Nodup ∧ (s.returned.map (·.directory)).Nodup

def State.Lists (s : State) (programId : String) : Prop :=
  ∃ entry ∈ s.ledger, entry.1.programId = programId

/-- A call of a hexadecimal id that raised has its id in the ledger. -/
def BlocksNobody (s : State) : Prop :=
  ∀ call error, .raised call error ∈ s.outcomes → call.isHexadecimal → s.Lists call.programId

/-- Every call under way can run to its end, where it returns or its id is in the ledger. -/
def Completes (root : String) (s : State) : Prop :=
  ∀ p, ∀ call, (s.phase p).call? = some call →
    ∃ (actions : List Nat) (after : State) (ends : List Outcome),
      Runs.run (step root) (actions.map .advance) s = some after ∧
        after.outcomes = s.outcomes ++ ends ∧ after.phase p = .idle ∧
        (.returned call ∈ ends ∨ ∃ error, .raised call error ∈ ends ∧ after.Lists call.programId)

/-- No call starts on a day on which one of another id with the same first 12 digits has started, and
no crash comes after a call has made its directory and before its line is complete. -/
def Orderly (s : State) : Action → Bool
  | .start _ call => s.started.all fun other =>
      other.directory ≠ call.directory || other.programId = call.programId
  | .crash p kept =>
    match s.phase p with
    | .made _ => false
    | .written _ | .flushed _ => kept = some .line
    | _ => true
  | .advance _ => true

end OpenUltraSast.Hunt.Report
