import OpenUltraSast.Plane.Rows
import OpenUltraSast.Search.Mailbox

/-!
# What the mailbox runs and returns

Each sequence number belongs to one command from the moment a submit has sent it, so a result
with its number is the result of that command, whichever puts come late or twice.
-/

namespace OpenUltraSast.Search.Mailbox

open Values Plane.Memory Collections List
open Checkpoints (Fields Error dumps)

variable {sha256 : Json → String} {size : Json → Nat} {s : State}

/-- The command is that of the submit: its arguments exactly, or equal to them where an earlier
command was pending. -/
def Call.Fits (call : Call) (command : Command) : Prop :=
  command.name = .str call.name ∧
    if call.fresh then command.args = call.args.sorted else call.args.same command.args = true

/-- No sequence number is run twice, what is run was submitted so, and what a submit returns was
stored for its command. -/
structure Exact (s : State) : Prop where
  once : (s.ran.map fun run => run.1.seq).Nodup
  submitted : ∀ run ∈ s.ran, ∃ call ∈ s.submitted,
    call.fresh = true ∧ call.command.sorted = run.1 ∧ call.Fits run.1
  answers : ∀ answer ∈ s.returned, ∃ command,
    (command, some answer.2) ∈ s.ran ∧ answer.1.Fits command

def Command.text (command : Command) : Json := (Json.obj command.asdict).sorted

variable {command : Command} {call : Call} {data : Json}

theorem validate_eq_ok (valid : command.validate size = .ok data) :
    data = command.text ∧ ∃ seq, command.seq = .int seq ∧ 1 ≤ seq := by
  obtain ⟨_, numbered, valid⟩ := bind_eq_ok_iff.mp valid
  obtain ⟨_, _, valid⟩ := bind_eq_ok_iff.mp valid
  obtain ⟨_, _, valid⟩ := bind_eq_ok_iff.mp valid
  obtain ⟨_, _, valid⟩ := bind_eq_ok_iff.mp valid
  obtain ⟨text, dumped, valid⟩ := bind_eq_ok_iff.mp valid
  constructor
  · have same : text = data := by
      unfold Command.checkSize at valid
      by_cases large : size text >
          if command.name.isStr "prepare_verification" then maxCommandBytes else 65536
      · rw [if_pos large] at valid
        cases valid
      · rw [if_neg large] at valid
        exact Except.ok.inj valid
    unfold dumps at dumped
    split at dumped
    · rw [← same, ← Except.ok.inj dumped]
      rfl
    · cases dumped
  · unfold checkSeq at numbered
    split at numbered
    next seq same =>
      split at numbered
      · cases numbered
      next within => exact ⟨seq, same, by omega⟩
    next => cases numbered

theorem load_text (command : Command) : Command.load command.text = .ok command.sorted := by
  unfold Command.text Json.sorted Command.load
  have known : ((inKeyOrder (Json.sortedValues command.asdict)).any fun field =>
      decide (field.1 ∉ ["seq", "name", "args", "timeout_seconds", "limits"])) = false := by
    rw [any_inKeyOrder, any_sortedValues _ fun key =>
      decide (key ∉ ["seq", "name", "args", "timeout_seconds", "limits"])]
    rfl
  simp only [known, lookup_inKeyOrder, lookup_sortedValues]
  rfl

private theorem read_text {read : Command} (done : readable size command.text = .ok read) :
    read = command.sorted := by
  unfold readable at done
  split at done
  · cases done
  · rw [load_text] at done
    exact (Except.ok.inj done).symm

theorem halved_fst (key : String) (entry : String × Json) : (halved key entry).1 = entry.1 := by
  obtain ⟨name, value⟩ := entry
  unfold halved
  by_cases same : name = key
  · subst same
    rw [if_neg (not_not_intro rfl)]
    cases value <;> rfl
  · rw [if_pos same]

private theorem halved_int (key name : String) (number : Int) :
    halved key (name, .int number) = (name, .int number) := by
  unfold halved
  exact ite_self _

variable {result : Fields} {client : Client} {seq : Int}

theorem lookup_halve {key name : String} (there : result.lookup name = some (.int seq)) :
    (halve key result).lookup name = some (.int seq) := by
  unfold halve
  induction result with
  | nil => cases there
  | cons entry result ih =>
    obtain ⟨first, value⟩ := entry
    rw [lookup_cons] at there
    rw [map_cons, lookup_cons, halved_fst]
    by_cases same : name = first
    · rw [beq_iff_eq.mpr same] at there ⊢
      cases there
      rw [halved_int]
    · rw [beq_eq_false_iff_ne.mpr same] at there ⊢
      exact ih there

private theorem seq_cut (maximum : Nat) (there : result.lookup "seq" = some (.int seq)) :
    (cut size maximum result).lookup "seq" = some (.int seq) := by
  fun_induction cut size maximum result with
  | case1 => exact there
  | case2 =>
    rw [Json.field, there]
    rfl
  | case3 =>
    rw [Json.field, there]
    rfl
  | case4 _ _ _ _ _ _ _ ih => exact ih (lookup_halve there)

private theorem seq_sealed (numbered : command.seq = .int seq) (result : Fields) (wall : ℚ) :
    Json.field (sealed size command result wall) "seq" = command.seq := by
  have there : (sealed size command result wall).lookup "seq" = some (.int seq) := by
    unfold sealed bounded
    split
    · rw [numbered]
      rfl
    · apply seq_cut
      rw [lookup_setField, if_neg (by decide), numbered]
      rfl
  rw [Json.field, there, numbered]
  rfl

theorem plan_seq {executor : Executor} {plan : Plan}
    (planned : executor.plan sha256 size command = .ok plan) :
    match plan with
    | .repeats result => command.seq = .int executor.seq ∧ 1 ≤ executor.seq ∧
        result = executor.lastResult
    | .runs _ => command.seq = .int (executor.seq + 1) := by
  obtain ⟨data, valid, planned⟩ := bind_eq_ok_iff.mp planned
  obtain ⟨-, seq, numbered, positive⟩ := validate_eq_ok valid
  have known (number : Int) (found : isInt number command.seq = true) : seq = number := by
    rw [numbered] at found
    exact of_decide_eq_true found
  unfold Executor.expects at planned
  split at planned
  next again =>
    split at planned
    · cases planned
      have same := known _ again
      exact ⟨same ▸ numbered, same ▸ positive, rfl⟩
    · cases planned
  next =>
    split at planned
    · cases planned
    · split at planned
      next following =>
        cases planned
        exact known _ following ▸ numbered
      next => cases planned

/-- A submit that no earlier command stood in the way of sent the command. -/
def SentBy (calls : List Call) (command : Command) : Prop :=
  ∃ call ∈ calls, call.fresh = true ∧ call.command = command ∧ call.Fits command.sorted

def StoredIn (ran : List (Command × Option Fields)) (result : Fields) : Prop :=
  ∃ command, (command, some result) ∈ ran

structure ClientSafe (client : Client) (calls : List Call) : Prop where
  numbered : ∀ command, SentBy calls command → ∃ seq, command.seq = .int seq ∧
    seq ≤ client.seq + 1 ∧ (seq = client.seq + 1 → client.pending = some command)
  single : ∀ one other, SentBy calls one → SentBy calls other → one.seq = other.seq → one = other
  pending : ∀ command, client.pending = some command →
    SentBy calls command ∧ command.seq = .int (client.seq + 1)
  call : ∀ call, client.call = some call → client.pending = some call.command ∧
    call.payload = call.command.text ∧ call.Fits call.command.sorted

structure Carries (commands : List Json) (object : Option Json) (calls : List Call) : Prop where
  puts : ∀ data ∈ commands, ∃ command, SentBy calls command ∧ data = command.text
  object : ∀ data, object = some data → ∃ command, SentBy calls command ∧ data = command.text

structure ServerSafe (server : Server) (calls : List Call) (ran : List (Command × Option Fields)) :
    Prop where
  once : (ran.map fun run => run.1.seq).Nodup
  sent : ∀ run ∈ ran, ∃ command, SentBy calls command ∧ command.sorted = run.1
  numbered : ∀ command result, (command, some result) ∈ ran →
    Json.field result "seq" = command.seq
  below : server.phase ≠ .ended → ∀ run ∈ ran, ∀ seq, run.1.seq = .int seq →
    seq ≤ server.executor.seq
  last : server.phase ≠ .ended → 1 ≤ server.executor.seq → StoredIn ran server.executor.lastResult
  holding : ∀ command, server.phase = .holding command →
    ∃ sent, SentBy calls sent ∧ command = sent.sorted
  uploading : ∀ result, server.phase = .uploading result → StoredIn ran result

structure Answers (results : List Json) (object : Option Json)
    (ran : List (Command × Option Fields)) : Prop where
  puts : ∀ data ∈ results, ∃ result, StoredIn ran result ∧ data = .obj result
  object : ∀ data, object = some data → ∃ result, StoredIn ran result ∧ data = .obj result

structure Safe (s : State) : Prop where
  client : ClientSafe s.client s.submitted
  commands : Carries s.commands s.commandObject s.submitted
  server : ServerSafe s.server s.submitted s.ran
  results : Answers s.results s.resultObject s.ran
  returned : ∀ answer ∈ s.returned, ∃ command,
    (command, some answer.2) ∈ s.ran ∧ answer.1.Fits command

section Growth

theorem SentBy.append {calls : List Call} (sent : SentBy calls command) (more : List Call) :
    SentBy (calls ++ more) command := by
  obtain ⟨call, there, rest⟩ := sent
  exact ⟨call, mem_append_left more there, rest⟩

variable {ran : List (Command × Option Fields)}

theorem StoredIn.append (stored : StoredIn ran result) (more : List (Command × Option Fields)) :
    StoredIn (ran ++ more) result := by
  obtain ⟨command, there⟩ := stored
  exact ⟨command, mem_append_left more there⟩

variable {object : Option Json}

theorem Carries.append {commands : List Json} {calls : List Call}
    (carries : Carries commands object calls) (more : List Call) :
    Carries commands object (calls ++ more) where
  puts data there := by
    obtain ⟨command, sent, same⟩ := carries.puts data there
    exact ⟨command, sent.append more, same⟩
  object data there := by
    obtain ⟨command, sent, same⟩ := carries.object data there
    exact ⟨command, sent.append more, same⟩

theorem ServerSafe.append {server : Server} {calls : List Call} (safe : ServerSafe server calls ran)
    (more : List Call) : ServerSafe server (calls ++ more) ran :=
  { safe with
    sent := fun run there => by
      obtain ⟨command, sent, same⟩ := safe.sent run there
      exact ⟨command, sent.append more, same⟩
    holding := fun command held => by
      obtain ⟨sent, known, same⟩ := safe.holding command held
      exact ⟨sent, known.append more, same⟩ }

theorem Answers.append {results : List Json}
    (answers : Answers results object ran) (more : List (Command × Option Fields)) :
    Answers results object (ran ++ more) where
  puts data there := by
    obtain ⟨result, stored, same⟩ := answers.puts data there
    exact ⟨result, stored.append more, same⟩
  object data there := by
    obtain ⟨result, stored, same⟩ := answers.object data there
    exact ⟨result, stored.append more, same⟩

end Growth

theorem eq_of_same_str {text : String} {value : Json} (equal : (Json.str text).same value = true) :
    value = .str text := by
  cases value with
  | str other =>
    rw [Json.same] at equal
    exact congrArg Json.str (of_decide_eq_true equal).symm
  | _ =>
    unfold Json.same at equal
    cases equal

variable {args timeoutSeconds limits : Json}

private theorem submit_call {name : String}
    (done : client.submit size name args timeoutSeconds limits = .ok call) :
    call.payload = call.command.text ∧
      ((call.fresh = false ∧ client.pending = some call.command ∧
          call.command.name = .str call.name ∧ call.args.same call.command.args = true) ∨
        (call.fresh = true ∧ client.pending = none ∧
          call.command.seq = .int (client.seq + 1) ∧ call.command.name = .str call.name ∧
          call.command.args = call.args)) := by
  obtain ⟨command, chosen, done⟩ := bind_eq_ok_iff.mp done
  obtain ⟨payload, valid, done⟩ := bind_eq_ok_iff.mp done
  cases done
  refine ⟨(validate_eq_ok valid).1, ?_⟩
  unfold Client.choose at chosen
  cases waiting : client.pending with
  | none =>
    rw [waiting] at chosen
    cases chosen
    exact Or.inr ⟨rfl, rfl, rfl, rfl, rfl⟩
  | some pending =>
    rw [waiting] at chosen
    dsimp only at chosen
    split at chosen
    next equal =>
      cases chosen
      rw [Bool.and_eq_true, Bool.and_eq_true] at equal
      obtain ⟨⟨named, arguments⟩, -⟩ := equal
      exact Or.inl ⟨rfl, rfl, eq_of_same_str named, arguments⟩
    next => cases chosen

theorem sentBy_snoc {calls : List Call} (sent : SentBy (calls ++ [call]) command) :
    SentBy calls command ∨ (call.fresh = true ∧ call.command = command) := by
  obtain ⟨other, there, fresh, same, fits⟩ := sent
  rcases mem_append.mp there with old | new
  · exact Or.inl ⟨other, old, fresh, same, fits⟩
  · rw [mem_singleton.mp new] at fresh same
    exact Or.inr ⟨fresh, same⟩

private theorem safe_submit {calls : List Call} (safe : ClientSafe client calls) {name : String}
    (done : client.submit size name args timeoutSeconds limits = .ok call) :
    ClientSafe { client with pending := some call.command, call := some call }
      (calls ++ [call]) := by
  obtain ⟨text, ⟨retried, waiting, named, arguments⟩ | ⟨fresh, idle, numbered, named, arguments⟩⟩ :=
    submit_call done
  · -- A retry sends what is known already.
    have known {command : Command} (sent : SentBy (calls ++ [call]) command) :
        SentBy calls command := by
      rcases sentBy_snoc sent with old | ⟨fresh, -⟩
      · exact old
      · rw [retried] at fresh
        cases fresh
    obtain ⟨sent, next⟩ := safe.pending _ waiting
    refine ⟨fun command there => ?_, fun one other a b => ?_, ?_, ?_⟩
    · obtain ⟨seq, numbered, within, last⟩ := safe.numbered command (known there)
      exact ⟨seq, numbered, within, fun same => waiting ▸ last same⟩
    · exact safe.single one other (known a) (known b)
    · rintro command ⟨⟩
      exact ⟨sent.append _, next⟩
    · rintro other ⟨⟩
      refine ⟨rfl, text, ?_, ?_⟩
      · rw [Command.sorted, named]
        rfl
      · rw [retried, if_neg Bool.false_ne_true]
        exact (Json.same_sorted _ _).trans arguments
  · have fits : call.Fits call.command.sorted := by
      refine ⟨by rw [Command.sorted, named]; rfl, ?_⟩
      rw [fresh, if_pos rfl, ← arguments]
      rfl
    have own : SentBy (calls ++ [call]) call.command :=
      ⟨call, mem_append_right calls (mem_singleton_self call), fresh, rfl, fits⟩
    have before {command : Command} (sent : SentBy calls command) :
        ∃ seq, command.seq = .int seq ∧ seq < client.seq + 1 := by
      obtain ⟨seq, given, within, last⟩ := safe.numbered command sent
      refine ⟨seq, given, lt_of_le_of_ne within fun same => ?_⟩
      rw [idle] at last
      cases last same
    refine ⟨fun command there => ?_, fun one other a b equal => ?_, ?_, ?_⟩
    · rcases sentBy_snoc there with old | ⟨-, rfl⟩
      · obtain ⟨seq, given, below⟩ := before old
        exact ⟨seq, given, le_of_lt below, fun same => absurd same (ne_of_lt below)⟩
      · exact ⟨_, numbered, le_refl _, fun _ => rfl⟩
    · have apart {command : Command} (old : SentBy calls command) :
          command.seq ≠ call.command.seq := by
        obtain ⟨seq, given, below⟩ := before old
        rw [given, numbered]
        intro same
        cases same
        exact lt_irrefl _ below
      rcases sentBy_snoc a with old | ⟨-, rfl⟩
      · rcases sentBy_snoc b with older | ⟨-, rfl⟩
        · exact safe.single one other old older equal
        · exact absurd equal (apart old)
      · rcases sentBy_snoc b with older | ⟨-, rfl⟩
        · exact absurd equal.symm (apart older)
        · rfl
    · rintro command ⟨⟩
      exact ⟨own, numbered⟩
    · rintro other ⟨⟩
      exact ⟨rfl, text, fits⟩

theorem safe_ended {calls : List Call} (safe : ClientSafe client calls) :
    ClientSafe { client with call := none } calls :=
  { safe with call := fun _ finished => by cases finished }

private theorem safe_uploaded {calls : List Call} (safe : ClientSafe client calls)
    (busy : client.call = some call) :
    ClientSafe { client with call := some { call with uploaded := true } } calls :=
  { safe with
    call := fun _ same => by
      cases same
      exact safe.call call busy }

private theorem safe_answered {calls : List Call} (safe : ClientSafe client calls)
    (busy : client.call = some call) :
    ClientSafe { seq := call.command.number, pending := none, call := none } calls := by
  obtain ⟨waiting, -, -⟩ := safe.call call busy
  obtain ⟨-, numbered⟩ := safe.pending _ waiting
  have next : call.command.number = client.seq + 1 := by
    rw [Command.number, numbered]
  refine ⟨fun command sent => ?_, safe.single, fun _ idle => ?_, fun _ idle => ?_⟩
  · obtain ⟨seq, given, within, -⟩ := safe.numbered command sent
    refine ⟨seq, given, ?_, fun same => ?_⟩
    · dsimp only
      omega
    · dsimp only at same
      omega
  · cases idle
  · cases idle

section Server
variable {server : Server} {calls : List Call} {ran : List (Command × Option Fields)}

section
variable (safe : ServerSafe server calls ran)
include safe

theorem safe_ended_server (executor : Executor) :
    ServerSafe { executor, phase := .ended } calls ran where
  once := safe.once
  sent := safe.sent
  numbered := safe.numbered
  below on := absurd rfl on
  last on := absurd rfl on
  holding _ held := by cases held
  uploading _ held := by cases held

section
variable (on : server.phase ≠ .ended)
include on

/-- A phase in which `serve` holds a command that was sent, or a result that was stored. -/
theorem safe_phase {phase : Phase}
    (holding : ∀ command, phase = .holding command →
      ∃ sent, SentBy calls sent ∧ command = sent.sorted)
    (uploading : ∀ result, phase = .uploading result → StoredIn ran result) :
    ServerSafe { server with phase } calls ran :=
  { safe with
    below := fun _ => safe.below on
    last := fun _ => safe.last on
    holding
    uploading }

private theorem safe_read (carried : ∃ command, SentBy calls command ∧ data = command.text) :
    ServerSafe (server.read size data) calls ran := by
  obtain ⟨sent, known, rfl⟩ := carried
  unfold Server.read
  split
  next => exact safe_ended_server safe _
  next command read =>
    apply safe_phase safe on
    · rintro _ ⟨⟩
      exact ⟨sent, known, read_text read⟩
    · intro _ held
      cases held

theorem safe_ran
    (held : server.phase = .holding command) (next : command.seq = .int (server.executor.seq + 1))
    (result : Option Fields)
    (marked : ∀ stored, result = some stored → Json.field stored "seq" = command.seq) :
    ServerSafe { server with phase := .ended } calls (ran ++ [(command, result)]) where
  once := by
    rw [map_append]
    refine nodup_append'.mpr ⟨safe.once, nodup_singleton _, ?_⟩
    intro seq old new
    obtain ⟨run, there, rfl⟩ := mem_map.mp old
    have same : run.1.seq = .int (server.executor.seq + 1) := by
      rw [← next]
      exact mem_singleton.mp new
    have below := safe.below on run there _ same
    omega
  sent run there := by
    rcases mem_append.mp there with old | new
    · exact safe.sent run old
    · obtain ⟨sent, known, same⟩ := safe.holding command held
      rw [mem_singleton.mp new]
      exact ⟨sent, known, same.symm⟩
  numbered other stored there := by
    rcases mem_append.mp there with old | new
    · exact safe.numbered other stored old
    · cases mem_singleton.mp new
      exact marked stored rfl
  below finished := absurd rfl finished
  last finished := absurd rfl finished
  holding _ held := by cases held
  uploading _ held := by cases held

end

private theorem safe_execute (held : server.phase = .holding command)
    (work : Work) (wall : ℚ) :
    ServerSafe (server.execute sha256 size command work wall).1 calls
      (ran ++ (server.execute sha256 size command work wall).2) := by
  have on : server.phase ≠ .ended := by
    rw [held]
    intro finished
    cases finished
  unfold Server.execute
  -- ended, answered again, or run with the next number
  split
  next =>
    rw [append_nil]
    exact safe_ended_server safe _
  next result planned =>
    -- the last command comes again, and its stored result is sent
    obtain ⟨-, positive, rfl⟩ := plan_seq planned
    rw [append_nil]
    apply safe_phase safe on
    · intro _ other
      cases other
    · rintro _ ⟨⟩
      exact safe.last on positive
  next digest planned =>
    -- a command that is run has the next number
    have next : command.seq = .int (server.executor.seq + 1) := plan_seq planned
    split
    next => exact safe_ran safe on held next none fun _ none => by cases none
    next result stops _ =>
      have marked : Json.field (sealed size command result wall) "seq" = command.seq :=
        seq_sealed next result wall
      have done := safe_ran safe on held next (some (sealed size command result wall))
        fun _ same => by
          cases same
          exact marked
      have stored : StoredIn (ran ++ [(command, some (sealed size command result wall))])
          (sealed size command result wall) :=
        ⟨command, mem_append_right ran (mem_singleton_self _)⟩
      have reached : command.number = server.executor.seq + 1 := by
        rw [Command.number, next]
      refine ⟨done.once, done.sent, done.numbered, fun _ run there seq numbered => ?_,
        fun _ _ => stored, ?_, ?_⟩
      · change seq ≤ command.number
        rw [reached]
        -- the earlier runs have lower numbers
        rcases mem_append.mp there with old | new
        · have below := safe.below on run old seq numbered
          omega
        · rw [mem_singleton.mp new, next] at numbered
          cases numbered
          exact le_refl _
      · intro _ other
        cases other
      · rintro _ ⟨⟩
        exact stored

end

end Server

section
variable (safe : Safe s)
include safe

section
variable (busy : s.client.call = some call)
include busy

private theorem answer_fits (stored : StoredIn s.ran result)
    (own : Json.field result "seq" = .int call.command.number) :
    ∃ command, (command, some result) ∈ s.ran ∧ call.Fits command := by
  obtain ⟨command, there⟩ := stored
  obtain ⟨sent, known, (same : sent.sorted = command)⟩ := safe.server.sent _ there
  obtain ⟨waiting, -, fits⟩ := safe.client.call call busy
  obtain ⟨pending, numbered⟩ := safe.client.pending _ waiting
  obtain ⟨seq, given, -, -⟩ := safe.client.numbered sent known
  have equal : sent.seq = call.command.seq := by
    have marked := safe.server.numbered command result there
    rw [own, Command.number, numbered, ← same, Command.sorted, given, Json.sorted] at marked
    rw [given, numbered]
    exact marked.symm
  -- One command has this number, so the result is that of the call's own command.
  rw [safe.client.single sent call.command known pending equal] at same
  exact ⟨command, there, same ▸ fits⟩

private theorem safe_receive
    (known : ∃ result, StoredIn s.ran result ∧ data = .obj result) : Safe (s.read size call data) := by
  obtain ⟨result, stored, rfl⟩ := known
  unfold State.read
  split
  next => exact safe
  next => exact { safe with client := safe_ended safe.client }
  next answer received =>
    unfold receive at received
    split at received
    · cases received
    dsimp only at received
    split at received
    next other own =>
      split at received
      · cases received
      · split at received
        next same =>
          cases received
          have fits := answer_fits safe busy stored (own.trans (congrArg Json.int same))
          refine ⟨safe_answered safe.client busy, safe.commands, safe.server, safe.results, ?_⟩
          intro answer there
          rcases mem_append.mp there with old | new
          · exact safe.returned answer old
          · rw [mem_singleton.mp new]
            exact fits
        next => cases received
    next => cases received

/-- What is put is the text of the pending command. -/
theorem safe_sendCommand :
    Carries (s.commands ++ [call.payload]) s.commandObject s.submitted := by
  obtain ⟨waiting, text, -⟩ := safe.client.call call busy
  refine ⟨fun data there => ?_, safe.commands.object⟩
  rcases mem_append.mp there with old | new
  · exact safe.commands.puts data old
  · rw [mem_singleton.mp new]
    exact ⟨call.command, (safe.client.pending _ waiting).1, text⟩

end

private theorem safe_sendResult (held : s.server.phase = .uploading result) :
    Answers (s.results ++ [.obj result]) s.resultObject s.ran := by
  refine ⟨fun data there => ?_, safe.results.object⟩
  rcases mem_append.mp there with old | new
  · exact safe.results.puts data old
  · exact ⟨result, safe.server.uploading result held, mem_singleton.mp new⟩

private theorem safe_readCommand (polling : s.server.phase = .polling) :
    ServerSafe (s.commandObject.elim s.server (s.server.read size)) s.submitted s.ran := by
  have on : s.server.phase ≠ .ended := by
    rw [polling]
    exact nofun
  cases read : s.commandObject with
  | none => exact safe.server
  | some data => exact safe_read safe.server on (safe.commands.object data read)

/-- Answers that were returned before still fit the commands that were run. -/
theorem safe_work (held : s.server.phase = .holding command) (work : Work) (wall : ℚ) :
    Safe { s with
      server := (s.server.execute sha256 size command work wall).1
      ran := s.ran ++ (s.server.execute sha256 size command work wall).2 } := by
  refine ⟨safe.client, safe.commands, safe_execute safe.server held work wall, safe.results.append _, ?_⟩
  intro answer there
  obtain ⟨command, ran, fits⟩ := safe.returned answer there
  exact ⟨command, mem_append_left _ ran, fits⟩

private theorem safe_resultSent (held : s.server.phase = .uploading result) (stopped : Bool) :
    ServerSafe { s.server with phase := if stopped then .ended else .polling } s.submitted s.ran := by
  split
  · exact safe_ended_server safe.server _
  · have on : s.server.phase ≠ .ended := by
      rw [held]
      exact nofun
    exact safe_phase safe.server on nofun nofun

/-- Each step keeps the mailbox safe. -/
theorem safe_step {action : Action} {next : State}
    (taken : step sha256 size action s = some next) : Safe next := by
  -- one case for each action; most touch one side of the mailbox only
  have ⟨client, commands, server, results, returned⟩ := safe
  cases action with
  | submit name args timeoutSeconds limits =>
    rw [step] at taken
    split at taken
    · cases taken
    split at taken
    next =>
      cases taken
      exact safe
    next call done =>
      cases taken
      exact ⟨safe_submit client done, commands.append _, server.append _, results, returned⟩
  | sendCommand =>
    rw [step] at taken
    split at taken
    next call busy =>
      split at taken
      · cases taken
      cases taken
      exact { safe with commands := safe_sendCommand safe busy }
    next => cases taken
  | commandSent =>
    rw [step] at taken
    split at taken
    next call busy =>
      cases taken
      exact { safe with client := safe_uploaded client busy }
    next => cases taken
  | readResult =>
    rw [step] at taken
    split at taken
    next call busy =>
      split at taken
      · cases taken
        cases read : s.resultObject with
        | none => exact safe
        | some data => exact safe_receive safe busy (results.object data read)
      · cases taken
    next => cases taken
  | giveUp =>
    rw [step] at taken
    split at taken
    · cases taken
      exact { safe with client := safe_ended client }
    · cases taken
  | readCommand =>
    rw [step] at taken
    split at taken
    next polling =>
      cases taken
      exact { safe with server := safe_readCommand safe polling }
    next => cases taken
  | work work wall =>
    rw [step] at taken
    split at taken
    next command held =>
      cases taken
      exact safe_work safe held work wall
    next => cases taken
  | sendResult =>
    rw [step] at taken
    split at taken
    next result held =>
      cases taken
      exact { safe with results := safe_sendResult safe held }
    next => cases taken
  | resultSent =>
    rw [step] at taken
    split at taken
    next result held =>
      cases taken
      exact { safe with server := safe_resultSent safe held _ }
    next => cases taken
  | endServe reason =>
    rw [step] at taken
    cases taken
    cases reason with
    | none => exact { safe with server := safe_ended_server server _ }
    | some text => exact { safe with server := safe_ended_server server _ }
  | landCommand i =>
    obtain ⟨data, found, rfl⟩ := Option.map_eq_some_iff.mp taken
    -- a put that lands was sent before, so its data is known
    refine { safe with commands := ⟨commands.puts, fun other same => ?_⟩ }
    cases same
    exact commands.puts data (mem_of_getElem? found)
  | landResult i =>
    obtain ⟨data, found, rfl⟩ := Option.map_eq_some_iff.mp taken
    refine { safe with results := ⟨results.puts, fun other same => ?_⟩ }
    cases same
    exact results.puts data (mem_of_getElem? found)

end

private theorem safe_start : Safe {} where
  client := by
    have none (command : Command) : ¬ SentBy [] command := by
      rintro ⟨call, there, -⟩
      cases there
    refine ⟨fun command sent => absurd sent (none command),
      fun one _ sent _ _ => absurd sent (none one), fun _ idle => ?_, fun _ idle => ?_⟩
    · cases idle
    · cases idle
  commands := by
    refine ⟨fun _ there => ?_, fun _ there => ?_⟩
    · cases there
    · cases there
  server := by
    refine ⟨nodup_nil, ?_, ?_, ?_, ?_, ?_, ?_⟩
    · intro _ there
      cases there
    · intro _ _ there
      cases there
    · intro _ _ there
      cases there
    · intro _ positive
      exact absurd positive (by decide)
    · intro _ held
      cases held
    · intro _ held
      cases held
  results := by
    refine ⟨fun _ there => ?_, fun _ there => ?_⟩
    · cases there
    · cases there
  returned _ there := by cases there

/-- Whatever puts come late, twice or never, and whichever gets and submits fail. -/
theorem mailbox_exact {actions : List Action}
    (ran : Runs.run (step sha256 size) actions {} = some s) : Exact s := by
  have reached : Runs.Reachable (step sha256 size) (· = {}) s := ⟨{}, actions, rfl, ran⟩
  have safe : Safe s := by
    apply Runs.reachable_invariant _ _ reached
    · rintro _ rfl
      exact safe_start
    · exact fun _ _ _ safe taken => safe_step safe taken
  refine ⟨safe.server.once, fun run there => ?_, safe.returned⟩
  obtain ⟨command, ⟨call, submitted, fresh, rfl, fits⟩, same⟩ := safe.server.sent run there
  exact ⟨call, submitted, fresh, same, same ▸ fits⟩

def retried : List Action :=
  let path := ("path", Json.str "a")
  [.submit "read_file" (.obj [path, ("start", .int 1)]) (.int 30) .null, .sendCommand, .commandSent,
    .giveUp, .submit "read_file" (.obj [path, ("start", .bool true)]) (.int 30) .null,
    .sendCommand, .commandSent, .landCommand 0, .readCommand,
    .work (.returns [("text", .str "x")] (by decide) false) 0, .sendResult, .landResult 0,
    .resultSent, .readResult]

def afterRetry : State := (Runs.run (step (fun _ => "") fun _ => 0) retried {}).getD {}

theorem run_retried :
    Runs.run (step (fun _ => "") fun _ => 0) retried {} = some afterRetry := by
  have done : (Runs.run (step (fun _ => "") fun _ => 0) retried {}).isSome = true := by
    decide +kernel
  obtain ⟨s, ran⟩ := Option.isSome_iff_exists.mp done
  rw [afterRetry, ran]
  rfl

theorem mailbox_exact_retried : afterRetry.returned.length = 1 ∧ Exact afterRetry :=
  ⟨by decide +kernel, mailbox_exact run_retried⟩

def startIsTrue : Json → Bool
  | .obj fields =>
    match Json.field fields "start" with
    | .bool value => value
    | _ => false
  | _ => false

/-- The second submit returns what was stored for the arguments of the first. -/
theorem other_arguments :
    Runs.run (step (fun _ => "") fun _ => 0) retried {} = some afterRetry ∧
      ∃ answer ∈ afterRetry.returned, ∀ run ∈ afterRetry.ran,
        run.1.args ≠ answer.1.args.sorted := by
  have single : afterRetry.returned.length = 1 := by decide +kernel
  obtain ⟨answer, returned⟩ := length_eq_one_iff.mp single
  have asked : (afterRetry.returned.all fun answer => startIsTrue answer.1.args.sorted) = true := by
    decide +kernel
  have used : (afterRetry.ran.all fun run => !startIsTrue run.1.args) = true := by decide +kernel
  have there : answer ∈ afterRetry.returned := by
    rw [returned]
    exact mem_singleton_self answer
  refine ⟨run_retried, answer, there, fun run ran same => ?_⟩
  have own := all_eq_true.mp used run ran
  rw [same, all_eq_true.mp asked answer there] at own
  cases own

end OpenUltraSast.Search.Mailbox
