import Mathlib.Algebra.Order.BigOperators.Group.List
import OpenUltraSast.Library.Runs
import OpenUltraSast.Search.Checkpoints

/-!
# The executor mailbox

Commands and their results over two objects of a store: `ObjectStoreExecutor.submit` on one side,
`serve` with one `InProcessExecutor` on the other.
-/

namespace OpenUltraSast.Search.Mailbox

open Values Plane.Memory List
open Checkpoints (Fields Error dumps)

def maxDemoBytes : Nat := 5 * 1024 * 1024
def maxCommandBytes : Nat := maxDemoBytes + 65536
def maxResultBytes : Nat := 65536

structure Command where
  seq : Json
  name : Json
  args : Json
  timeoutSeconds : Json
  limits : Json

def commandNames : List String :=
  ["list_files", "read_file", "grep", "run", "stop", "prepare_verification"]

def limitNames : List String :=
  ["result_bytes", "memory_bytes", "disk_bytes", "task_wall_seconds", "max_call_usd"]

def sizeLimits : List String := ["result_bytes", "memory_bytes", "disk_bytes"]

def checkSeq : Json → Except Error Unit
  | .int seq => if seq < 1 ∨ seq > 100000 then .error (.value "invalid sequence") else .ok ()
  | _ => .error (.value "invalid sequence")

def checkName (name args : Json) : Except Error Unit :=
  if name.unhashable then .error .other
  else if (commandNames.any fun known => name.isStr known) && args matches .obj _ then .ok ()
  else .error (.value "invalid command")

/-- From here on `math.isfinite` of an integer is an `OverflowError`. -/
def floatEnd : Nat := 2 ^ 1024 - 2 ^ 970

def checkTimeout : Json → Except Error Unit
  | .int seconds =>
    if 0 < seconds ∧ seconds ≤ 300 then .ok ()
    else if floatEnd ≤ seconds.natAbs then .error .other
    else .error (.value "invalid timeout")
  | .float seconds => if 0 < seconds ∧ seconds ≤ 300 then .ok () else .error (.value "invalid timeout")
  | _ => .error (.value "invalid timeout")

def checkLimit (limits : Fields) (name : String) : Except Error Unit :=
  match limits.lookup name with
  | none => .ok ()
  | some (.int bytes) => if bytes < 512 then .error (.value "invalid resource limit") else .ok ()
  | some _ => .error (.value "invalid resource limit")

def checkLimits : Json → Except Error Unit
  | .obj limits =>
    if limits.any fun limit => limit.1 ∉ limitNames then .error (.value "invalid limits")
    else sizeLimits.forM (checkLimit limits)
  | _ => .error (.value "invalid limits")

namespace Command

def asdict (command : Command) : Fields :=
  [("seq", command.seq), ("name", command.name), ("args", command.args),
    ("timeout_seconds", command.timeoutSeconds), ("limits", command.limits)]

/-- `Command(**json.loads(raw))`. -/
def load : Json → Except Error Command
  | .obj fields =>
    if fields.any fun field =>
        field.1 ∉ ["seq", "name", "args", "timeout_seconds", "limits"] then .error .other
    else
      match fields.lookup "seq", fields.lookup "name", fields.lookup "args" with
      | some seq, some name, some args =>
        .ok { seq, name, args
              timeoutSeconds := (fields.lookup "timeout_seconds").getD (.int 30)
              limits := (fields.lookup "limits").getD (.obj []) }
      | _, _, _ => .error .other
  | _ => .error .other

section Sizes
variable (size : Json → Nat)

def checkSize (command : Command) (data : Json) : Except Error Json :=
  if size data > (if command.name.isStr "prepare_verification" then maxCommandBytes else 65536) then
    .error (.value "command too large")
  else .ok data

def validate (command : Command) : Except Error Json := do
  checkSeq command.seq
  checkName command.name command.args
  checkTimeout command.timeoutSeconds
  checkLimits command.limits
  command.checkSize size (← dumps command.asdict)

end Sizes

/-- The sequence number, which is an integer once `validate` has accepted the command. -/
def number (command : Command) : Int :=
  match command.seq with
  | .int seq => seq
  | _ => 0

/-- The command that its text says: objects have their keys in order. -/
def sorted (command : Command) : Command where
  seq := command.seq.sorted
  name := command.name.sorted
  args := command.args.sorted
  timeoutSeconds := command.timeoutSeconds.sorted
  limits := command.limits.sorted

end Command

def lengthOf (entry : String × Json) : Option Nat :=
  if entry.1 ∈ ["status", "error", "isolation_mode"] then none
  else
    match entry.2 with
    | .str text => some text.toList.length
    | .arr items => some items.length
    | _ => none

def larger (a b : Nat × String) : Nat × String :=
  if a.1 < b.1 ∨ (a.1 = b.1 ∧ a.2 < b.2) then b else a

/-- `max(fields)`, if there are any. -/
def longest (result : Fields) : Option (Nat × String) :=
  match result.filterMap fun entry => (lengthOf entry).map fun length => (length, entry.1) with
  | [] => none
  | first :: rest => some (rest.foldl larger first)

/-- The half that is kept: of `stderr` the end, of everything else the start. -/
def half {α : Type} (key : String) (items : List α) : List α :=
  if key = "stderr" ∧ items.length / 2 ≠ 0 then items.drop (items.length - items.length / 2)
  else items.take (items.length / 2)

def halved (key : String) (entry : String × Json) : String × Json :=
  if entry.1 ≠ key then entry
  else
    match entry.2 with
    | .str text => (key, .str (String.ofList (half key text.toList)))
    | .arr items => (key, .arr (half key items))
    | _ => entry

def halve (key : String) (result : Fields) : Fields := result.map (halved key)

/-- What could still be cut. -/
def cuttable (result : Fields) : Nat := (result.map fun entry => (lengthOf entry).getD 0).sum

private theorem length_half {α : Type} (key : String) (items : List α) :
    (half key items).length = items.length / 2 := by
  unfold half
  split
  · rw [length_drop]
    omega
  · rw [length_take]
    omega

theorem lengthOf_halved (key : String) (entry : String × Json) :
    lengthOf (halved key entry) =
      if entry.1 = key then (lengthOf entry).map (· / 2) else lengthOf entry := by
  obtain ⟨name, value⟩ := entry
  by_cases same : name = key
  · subst same
    cases value <;> simp only [halved, lengthOf, length_half, String.toList_ofList, ne_eq,
      not_true_eq_false, if_false, if_true] <;> split <;> rfl
  · simp only [halved, same, ne_eq, not_false_eq_true, if_true, if_false]

private theorem foldl_larger_mem (first : Nat × String) (rest : List (Nat × String)) :
    rest.foldl larger first ∈ first :: rest := by
  induction rest generalizing first with
  | nil => exact mem_singleton_self first
  | cons next rest ih =>
    rw [foldl_cons]
    have either : larger first next = first ∨ larger first next = next := by
      unfold larger
      split
      · exact Or.inr rfl
      · exact Or.inl rfl
    rcases mem_cons.mp (ih (larger first next)) with same | later
    · rw [same]
      rcases either with kept | taken
      · rw [kept]
        exact mem_cons_self
      · rw [taken]
        exact mem_cons_of_mem _ mem_cons_self
    · exact mem_cons_of_mem _ (mem_cons_of_mem _ later)

private theorem mem_of_longest {result : Fields} {length : Nat} {key : String}
    (chosen : longest result = some (length, key)) :
    ∃ value, (key, value) ∈ result ∧ lengthOf (key, value) = some length := by
  unfold longest at chosen
  split at chosen
  next => cases chosen
  next first rest listed =>
    have member := foldl_larger_mem first rest
    rw [← listed, Option.some.inj chosen] at member
    obtain ⟨⟨name, value⟩, there, measured⟩ := mem_filterMap.mp member
    obtain ⟨_, length, same⟩ := Option.map_eq_some_iff.mp measured
    cases same
    exact ⟨value, there, length⟩

private theorem cuttable_halved {result : Fields} {length : Nat} {key : String}
    (chosen : longest result = some (length, key)) (positive : length ≠ 0) :
    cuttable (halve key result) < cuttable result := by
  obtain ⟨value, there, measured⟩ := mem_of_longest chosen
  unfold cuttable halve
  rw [map_map]
  apply sum_lt_sum
  · intro entry _
    rw [Function.comp_apply, lengthOf_halved]
    split
    · cases lengthOf entry with
      | none => exact le_refl _
      | some n => exact Nat.div_le_self n 2
    · exact le_refl _
  · refine ⟨(key, value), there, ?_⟩
    rw [Function.comp_apply, lengthOf_halved, if_pos rfl, measured]
    exact Nat.div_lt_self (Nat.pos_of_ne_zero positive) (by decide)

section Sizes
variable (size : Json → Nat)

/-- The loop of `_bounded`. -/
def cut (maximum : Nat) (result : Fields) : Fields :=
  if size (.obj result) ≤ maximum then result
  else
    match chosen : longest result with
    | none =>
      [("seq", Json.field result "seq"), ("error", .str "result_limit"), ("truncated", .bool true)]
    | some (length, key) =>
      if empty : length = 0 then
        [("seq", Json.field result "seq"), ("error", .str "result_limit"),
          ("truncated", .bool true)]
      else
        have := cuttable_halved chosen empty
        cut maximum (halve key result)
termination_by cuttable result

def bounded (result : Fields) (maximum : Nat) : Fields :=
  if size (.obj result) ≤ maximum then result
  else cut size maximum (setField result "truncated" (.bool true))

end Sizes

/-- How the tool of a command ends. No tool returns a key `seq`. -/
inductive Work where
  | returns (result : Fields) (plain : "seq" ∉ result.map (·.1)) (stops : Bool)
  | scratchLimit (reason : String)
  | fails (kind reason phase : String) (timedOut stops : Bool)
  | escapes

structure Executor where
  seq : Int := 0
  stopped : Bool := false
  lastDigest : String := ""
  lastResult : Fields := []

/-- What `execute` does with a command before any tool runs. -/
inductive Plan where
  | repeats (result : Fields)
  | runs (digest : String)

/-- The result of a tool, and whether the executor stops. -/
def Work.outcome (name : Json) : Work → Option (Fields × Bool)
  | returns result _ stops =>
    some (if name.isStr "stop" then ([("stopped", .bool true)], true) else (result, stops))
  | scratchLimit reason =>
    some ([("status", .str "could_not_build"), ("reason", .str reason),
      ("phase", .str "scratch guard"), ("exit_code", .null), ("stderr", .str ""),
      ("stopped", .bool true)], true)
  | fails kind reason phase timedOut stops =>
    some ([("error", .str kind), ("reason", .str reason), ("phase", .str phase),
      ("exit_code", .null), ("stderr", .str ""), ("timed_out", .bool timedOut)], stops)
  | escapes => none

/-- `min(MAX_RESULT_BYTES, limits.get("result_bytes", MAX_RESULT_BYTES))`. -/
def resultBytes : Json → Nat
  | .obj limits =>
    match limits.lookup "result_bytes" with
    | some (.int bytes) => min maxResultBytes bytes.toNat
    | _ => maxResultBytes
  | _ => maxResultBytes

def isInt (number : Int) : Json → Bool
  | .int value => value = number
  | _ => false

section Parameters
variable (sha256 : Json → String) (size : Json → Nat)

def Executor.expects (executor : Executor) (command : Command) (digest : String) :
    Except Error Plan :=
  if isInt executor.seq command.seq then
    if digest = executor.lastDigest then .ok (.repeats executor.lastResult)
    else .error (.value "retry changed command")
  else if executor.stopped then .error (.value "executor stopped")
  else if isInt (executor.seq + 1) command.seq then .ok (.runs digest)
  else .error (.value "out of order sequence")

/-- `execute` up to the tool. -/
def Executor.plan (executor : Executor) (command : Command) : Except Error Plan := do
  let data ← command.validate size
  executor.expects command (sha256 data)

/-- The result that is stored: the tool's, after the sequence number and with the time. -/
def sealed (command : Command) (result : Fields) (wall : ℚ) : Fields :=
  bounded size (("seq", command.seq) :: setField result "wall_seconds" (.float wall))
    (resultBytes command.limits)

/-- `execute` from the tool on. -/
def Executor.store (executor : Executor) (command : Command) (digest : String) (result : Fields)
    (stops : Bool) : Executor where
  seq := command.number
  stopped := executor.stopped || stops
  lastDigest := digest
  lastResult := result

end Parameters

/-- A submit that is under way; `fresh` if no earlier command was pending when it was called. -/
structure Call where
  name : String
  args : Json
  fresh : Bool
  command : Command
  payload : Json
  uploaded : Bool

structure Client where
  seq : Int := 0
  pending : Option Command := none
  call : Option Call := none

inductive Phase where
  | polling
  | holding (command : Command)
  | uploading (result : Fields)
  | ended

structure Server where
  executor : Executor := {}
  phase : Phase := .polling

/-- The two objects and the texts that were put to each of them. The histories are the submits
that passed their checks, the commands whose tool was run, with what was stored, and the submits
that returned. -/
structure State where
  client : Client := {}
  server : Server := {}
  commandObject : Option Json := none
  resultObject : Option Json := none
  commands : List Json := []
  results : List Json := []
  submitted : List Call := []
  ran : List (Command × Option Fields) := []
  returned : List (Call × Fields) := []

def Client.fresh (client : Client) (name : String) (args timeoutSeconds limits : Json) : Command where
  seq := .int (client.seq + 1)
  name := .str name
  args := args
  timeoutSeconds := timeoutSeconds
  limits := if limits.truthy then limits else .obj []

/-- The command of a submit: one that is pending is sent again, if it equals the one asked for. -/
def Client.choose (client : Client) (fresh : Command) : Except Error Command :=
  match client.pending with
  | none => .ok fresh
  | some pending =>
    if fresh.name.same pending.name && fresh.args.same pending.args &&
        fresh.limits.same pending.limits then .ok pending
    else .error .other

/-- `submit` up to its loop. Every refusal leaves the client as it is. -/
def Client.submit (size : Json → Nat) (client : Client) (name : String)
    (args timeoutSeconds limits : Json) : Except Error Call := do
  let command ← client.choose (client.fresh name args timeoutSeconds limits)
  let payload ← command.validate size
  return { name, args, fresh := client.pending.isNone, command, payload, uploaded := false }

/-- What `submit` does with a result that it reads. -/
inductive Receipt where
  | refused (error : Error)
  | stale
  | answers (result : Fields)

/-- The checks of `submit` on a result. -/
def receive (size : Json → Nat) (seq : Int) (data : Json) : Receipt :=
  if size data > maxResultBytes then .refused (.value "result too large")
  else
    match data with
    | .obj result =>
      match Json.field result "seq" with
      | .int other =>
        if other > seq then .refused (.value "future result sequence")
        else if other = seq then .answers result
        else .stale
      | _ => .refused (.value "invalid result envelope")
    | _ => .refused (.value "invalid result envelope")

inductive Action where
  | submit (name : String) (args timeoutSeconds limits : Json)
  | sendCommand
  | commandSent
  | readResult
  | giveUp
  | readCommand
  | work (work : Work) (wall : ℚ)
  | sendResult
  | resultSent
  | endServe (reason : Option String)
  | landCommand (i : Nat)
  | landResult (i : Nat)

section Steps
variable (sha256 : Json → String) (size : Json → Nat)

/-- The command of a text that `serve` reads. -/
def readable (data : Json) : Except Error Command :=
  if size data > maxCommandBytes then .error (.value "command too large") else Command.load data

/-- `serve` after it has read the command object; any exception ends it. -/
def Server.read (server : Server) (data : Json) : Server :=
  match readable size data with
  | .error _ => { server with phase := .ended }
  | .ok command => { server with phase := .holding command }

/-- `execute` in `serve`, and the command with what is stored if the tool is run. -/
def Server.execute (server : Server) (command : Command) (work : Work) (wall : ℚ) :
    Server × List (Command × Option Fields) :=
  match server.executor.plan sha256 size command with
  | .error _ => ({ server with phase := .ended }, [])
  | .ok (.repeats result) => ({ server with phase := .uploading result }, [])
  | .ok (.runs digest) =>
    match work.outcome command.name with
    | none => ({ server with phase := .ended }, [(command, none)])
    | some (result, stops) =>
      let kept := sealed size command result wall
      ({ executor := server.executor.store command digest kept stops, phase := .uploading kept },
        [(command, some kept)])

/-- The reason of a failed transfer goes into the stored result before `serve` raises it. -/
def Server.fail (server : Server) (reason : Option String) : Server :=
  match reason with
  | none => { server with phase := .ended }
  | some text =>
    let last := server.executor.lastResult
    let marked := setField (setField last "result_upload_reason" (.str text))
      "result_upload_phase" (.str "result upload")
    { executor := { server.executor with lastResult := if last.isEmpty then last else marked }
      phase := .ended }

/-- `submit` after it has read the result object. -/
def State.read (s : State) (call : Call) (data : Json) : State :=
  match receive size call.command.number data with
  | .stale => s
  | .refused _ => { s with client := { s.client with call := none } }
  | .answers result =>
    { s with
      client := { seq := call.command.number, pending := none, call := none }
      returned := s.returned ++ [(call, result)] }

def step : Action → State → Option State
  | .submit name args timeoutSeconds limits, s =>
    if s.client.call.isSome then none
    else
      match s.client.submit size name args timeoutSeconds limits with
      | .error _ => some s
      | .ok call =>
        some { s with
          client := { s.client with pending := some call.command, call := some call }
          submitted := s.submitted ++ [call] }
  | .sendCommand, s =>
    match s.client.call with
    | some call =>
      if call.uploaded then none else some { s with commands := s.commands ++ [call.payload] }
    | none => none
  | .commandSent, s =>
    match s.client.call with
    | some call => some { s with client.call := some { call with uploaded := true } }
    | none => none
  | .readResult, s =>
    match s.client.call with
    | some call =>
      if call.uploaded then some (s.resultObject.elim s (s.read size call)) else none
    | none => none
  | .giveUp, s => if s.client.call.isSome then some { s with client.call := none } else none
  | .readCommand, s =>
    match s.server.phase with
    | .polling => some { s with server := s.commandObject.elim s.server (s.server.read size) }
    | _ => none
  | .work work wall, s =>
    match s.server.phase with
    | .holding command =>
      let done := s.server.execute sha256 size command work wall
      some { s with server := done.1, ran := s.ran ++ done.2 }
    | _ => none
  | .sendResult, s =>
    match s.server.phase with
    | .uploading result => some { s with results := s.results ++ [.obj result] }
    | _ => none
  | .resultSent, s =>
    match s.server.phase with
    | .uploading result =>
      some { s with
        server.phase := if (Json.field result "stopped").truthy then .ended else .polling }
    | _ => none
  | .endServe reason, s => some { s with server := s.server.fail reason }
  | .landCommand i, s => s.commands[i]?.map fun data => { s with commandObject := some data }
  | .landResult i, s => s.results[i]?.map fun data => { s with resultObject := some data }

end Steps

end OpenUltraSast.Search.Mailbox
