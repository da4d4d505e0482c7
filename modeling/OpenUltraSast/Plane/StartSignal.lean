import Mathlib.Data.List.Nodup
import OpenUltraSast.Library.Runs
import OpenUltraSast.Library.Text

/-!
# The start signal

The reconciler posts a start request to the actor of a task until one is answered.
-/

namespace OpenUltraSast.Plane.StartSignal

open Text

/-- The presigned URLs of a task. -/
structure Delivery where
  put : Option String := none
  inputs : List (String × String) := []

structure StartBody where
  run : String
  task : String
  credentials : List (String × String)
  delivery : Option Delivery := none

/-- `_CREDENTIAL_NAME.fullmatch(name)`. -/
def isCredentialName (name : String) : Bool :=
  match name.toList with
  | [] => false
  | c :: rest => c.isUpper && rest.all fun c => c.isUpper || c.isDigit || c = '_'

def isReserved (name : String) : Bool := startsWith name "AX_" || startsWith name "OUSAST_"

/-- `parse_delivery`: the error of the first bad field. `checkUrl` is `_check_url`, the error of a URL
in a field. -/
def parseDelivery (checkUrl : String → String → Option String) (delivery : Delivery) :
    Option String :=
  (delivery.put.bind (checkUrl · "delivery.put")).or
    (if delivery.inputs.all (isCredentialName ·.1) then
      delivery.inputs.findSome? fun entry => checkUrl entry.2 ("delivery.inputs." ++ entry.1)
    else some "delivery.inputs must map ^[A-Z][A-Z0-9_]*$ names to URLs")

def alreadyStarted : String := "already started on this boot"

/-- The gate's answer to a request after the first one. -/
def alreadyText : String := "this task was " ++ alreadyStarted

structure StartGate where
  expected : Option (String × String) := none
  refusal : Option String := none
  accepted : Bool := false

structure Answer where
  status : Nat
  text : String
deriving DecidableEq

def StartGate.offer (checkUrl : String → String → Option String) (gate : StartGate)
    (body : StartBody) : StartGate × Answer :=
  match gate.refusal with
  | some reason => (gate, ⟨409, reason⟩)
  | none =>
    if gate.accepted then (gate, ⟨409, alreadyText⟩)
    else
      match gate.expected with
      | none => (gate, ⟨503, "workspaces not materialised"⟩)
      | some (run, task) =>
        if !body.credentials.all fun entry => isCredentialName entry.1 && !isReserved entry.1 then
          (gate, ⟨400, "credentials must map ^[A-Z][A-Z0-9_]*$ names (not AX_/OUSAST_) to strings"⟩)
        else
          match body.delivery.bind (parseDelivery checkUrl) with
          | some error => (gate, ⟨400, error⟩)
          | none =>
            if body.run ≠ run ∨ body.task ≠ task then
              (gate, ⟨409, "this actor runs task '" ++ task ++ "' of run '" ++ run ++ "'"⟩)
            else ({ gate with accepted := true }, ⟨202, "started"⟩)

def redact (text : String) (secrets : List String) : String :=
  secrets.foldl (fun text secret => if secret = "" then text else replace secret "[redacted]" text)
    text

structure Setup where
  atespace : String
  body : StartBody
  limit : String
  ownRun : String
  ownTask : String
  checkUrl : String → String → Option String

def Setup.secrets (setup : Setup) : List String :=
  setup.body.credentials.map (·.2) ++
    match setup.body.delivery with
    | none => []
    | some delivery => delivery.put.getD "" :: delivery.inputs.map (·.2)

/-- `text` as a message of the client shows it. -/
def Setup.shown (setup : Setup) (text : String) : String :=
  redact (String.ofList ((stripOf isSpace text).toList.take 400)) setup.secrets

def retryStatus : List Nat := [502, 503, 504]

def Setup.target (setup : Setup) : String := setup.atespace ++ "/" ++ setup.body.task

def Setup.refused (setup : Setup) (answer : Answer) : String :=
  "start of " ++ setup.target ++ " refused (HTTP " ++ toString answer.status ++ "): "
    ++ setup.shown answer.text

def Setup.timedOut (setup : Setup) (last : String) : String :=
  "start of " ++ setup.target ++ " not accepted within " ++ setup.limit
    ++ "s (OUSAST_START_TIMEOUT): " ++ last

/-- What a call of `start` returns for a `StartError`. -/
def returned (calls : Nat) (message : String) : Option String :=
  if 1 < calls ∧ contains message alreadyStarted then none else some message

/-- A request, with the boot that answered it and the answer, once it has reached the gate. -/
structure Post where
  call : Nat
  answer : Option (Nat × Answer) := none

/-- Where the client is: before a request of a call, with the text of what came last, or waiting for
the answer to one. -/
inductive Client where
  | idle
  | ready (last : String)
  | waiting (post : Nat)
deriving DecidableEq

/-- A call that is over: what it returned, whether an answer of the actor ended it, and whether the
actor's boot had accepted a request of the call. -/
structure Ended where
  call : Nat
  result : Option String
  answered : Bool
  accepted : Bool

structure State where
  boot : Nat := 0
  gate : StartGate := {}
  calls : Nat := 0
  client : Client := .idle
  posts : List Post := []
  /-- The requests that were accepted, each with its boot. -/
  accepts : List (Nat × Nat) := []
  ended : List Ended := []

inductive Action where
  | arm
  | refuse (reason : String)
  | reboot
  | begin_
  | post
  | reach (i : Nat)
  | hear
  | lose (text : String)
  | replace (status : Nat) (text : String)
  | timeout

def State.accepting (s : State) : Bool :=
  s.accepts.any fun entry =>
    entry.1 = s.boot && (s.posts[entry.2]?).any fun post => post.call = s.calls

def State.finish (s : State) (result : Option String) (answered : Bool) : State :=
  { s with
    client := .idle
    ended := s.ended ++ [⟨s.calls, result, answered, s.accepting⟩] }

section Setup
variable (setup : Setup)

def step : Action → State → Option State
  -- The runner refuses for good before it would arm the gate, or arms it.
  | .arm, s =>
    if s.gate.refusal = none then
      some { s with gate := { s.gate with expected := some (setup.ownRun, setup.ownTask) } }
    else none
  | .refuse reason, s =>
    if s.gate.expected = none then some { s with gate := { s.gate with refusal := some reason } }
    else none
  -- A resume keeps the gate or is a boot; none comes while a call is under way.
  | .reboot, s =>
    if s.client = .idle then some { s with boot := s.boot + 1, gate := {} } else none
  | .begin_, s =>
    if s.client = .idle then
      some { s with calls := s.calls + 1, client := .ready "no attempt made" }
    else none
  | .post, s =>
    match s.client with
    | .ready _ =>
      some { s with client := .waiting s.posts.length, posts := s.posts ++ [{ call := s.calls }] }
    | _ => none
  | .reach i, s =>
    match s.posts[i]? with
    | some ⟨call, none⟩ =>
      let (gate, answer) := s.gate.offer setup.checkUrl setup.body
      some { s with
        gate
        posts := s.posts.set i ⟨call, some (s.boot, answer)⟩
        accepts := if answer.status = 202 then s.accepts ++ [(s.boot, i)] else s.accepts }
    | _ => none
  | .hear, s =>
    match s.client with
    | .waiting i =>
      match (s.posts[i]?).bind (·.answer) with
      | some (_, answer) =>
        if 200 ≤ answer.status ∧ answer.status < 300 then some (s.finish none true)
        else if answer.status ∈ retryStatus then
          some { s with
            client := .ready ("HTTP " ++ toString answer.status ++ ": " ++ setup.shown answer.text) }
        else some (s.finish (returned s.calls (setup.refused answer)) true)
      | none => none
    | _ => none
  | .lose text, s =>
    match s.client with
    | .waiting _ => some { s with client := .ready (redact text setup.secrets) }
    | _ => none
  | .replace status text, s =>
    match s.client with
    | .waiting _ =>
      if status ∈ retryStatus then
        some { s with
          client := .ready ("HTTP " ++ toString status ++ ": " ++ setup.shown text) }
      else none
    | _ => none
  -- The time is looked at after each request that failed.
  | .timeout, s =>
    match s.client with
    | .ready last =>
      if s.posts.any (·.call = s.calls) then
        some (s.finish (returned s.calls (setup.timedOut last)) false)
      else none
    | _ => none

end Setup

/-- Each boot accepts at most one request, and only for the run and the task of its runner. -/
def AcceptsOnce (setup : Setup) (s : State) : Prop :=
  (s.accepts.map (·.1)).Nodup ∧
    (s.accepts ≠ [] → setup.body.run = setup.ownRun ∧ setup.body.task = setup.ownTask)

/-- No call that an answer of the actor ended, and of which the actor's boot had accepted a request,
returned a refusal. -/
def NotRefused (s : State) : Prop :=
  ∀ e ∈ s.ended, e.answered = true → e.accepted = true → e.result = none

/-- The gate's text on a later request is not redacted away. -/
def Setup.showsStarted (setup : Setup) : Bool := contains (setup.shown alreadyText) alreadyStarted

def State.waitsAccepted (s : State) : Bool :=
  match s.client with
  | .waiting i => s.accepts.any (·.2 = i)
  | _ => false

/-- In the first call the client hears the answer to the request that is accepted: the answer is not
lost, and no request that the client has given up is accepted. -/
def Heard (setup : Setup) (s : State) : Action → Bool
  | .lose _ | .replace _ _ => s.calls ≠ 1 || !s.waitsAccepted
  | .reach i =>
    s.calls ≠ 1 || s.client = .idle || s.client = .waiting i ||
      (s.gate.offer setup.checkUrl setup.body).2.status ≠ 202
  | _ => true

end OpenUltraSast.Plane.StartSignal

/-!
## A started task is not refused

All requests of a starter have one body, so on one boot the gate accepts it, or never does.
-/

namespace OpenUltraSast.Plane.StartSignal

open Text List

inductive Move (setup : Setup) (s : State) : Action → State → Prop where
  | arm (free : s.gate.refusal = none) :
      Move setup s .arm
        { s with gate := { s.gate with expected := some (setup.ownRun, setup.ownTask) } }
  | refuse {reason : String} (unarmed : s.gate.expected = none) :
      Move setup s (.refuse reason) { s with gate := { s.gate with refusal := some reason } }
  | reboot (idle : s.client = .idle) : Move setup s .reboot { s with boot := s.boot + 1, gate := {} }
  | begin_ (idle : s.client = .idle) :
      Move setup s .begin_ { s with calls := s.calls + 1, client := .ready "no attempt made" }
  | post {last : String} (at_ : s.client = .ready last) :
      Move setup s .post
        { s with client := .waiting s.posts.length, posts := s.posts ++ [{ call := s.calls }] }
  | reach {i call : Nat} (at_ : s.posts[i]? = some ⟨call, none⟩) :
      Move setup s (.reach i) { s with
        gate := (s.gate.offer setup.checkUrl setup.body).1
        posts := s.posts.set i ⟨call, some (s.boot, (s.gate.offer setup.checkUrl setup.body).2)⟩
        accepts := if (s.gate.offer setup.checkUrl setup.body).2.status = 202 then
          s.accepts ++ [(s.boot, i)] else s.accepts }
  | hearOk : Move setup s .hear (s.finish none true)
  | hearBusy {i boot : Nat} {answer : Answer} {last : String} (at_ : s.client = .waiting i)
      (found : (s.posts[i]?).bind (·.answer) = some (boot, answer))
      (retry : answer.status ∈ retryStatus) : Move setup s .hear { s with client := .ready last }
  | hearFinal {i boot : Nat} {answer : Answer} (at_ : s.client = .waiting i)
      (found : (s.posts[i]?).bind (·.answer) = some (boot, answer))
      (failed : ¬ (200 ≤ answer.status ∧ answer.status < 300)) (final : answer.status ∉ retryStatus) :
      Move setup s .hear (s.finish (returned s.calls (setup.refused answer)) true)
  | lose {i : Nat} {text last : String} (at_ : s.client = .waiting i) :
      Move setup s (.lose text) { s with client := .ready last }
  | replace {i status : Nat} {text last : String} (at_ : s.client = .waiting i) :
      Move setup s (.replace status text) { s with client := .ready last }
  | timeout {result : Option String} : Move setup s .timeout (s.finish result false)

variable {a : Action}

/-- What one step can do, action by action. -/
theorem move_of_step {setup : Setup} {s next : State}
    (taken : step setup a s = some next) : Move setup s a next := by
  cases a with
  | arm | refuse | reboot | begin_ =>
    simp only [step, Option.ite_none_right_eq_some, Option.some.injEq] at taken
    obtain ⟨guard, rfl⟩ := taken
    constructor
    exact guard
  | post | reach | lose =>
    simp only [step] at taken
    split at taken
    next at_ =>
      cases taken
      constructor
      exact at_
    next => cases taken
  | hear =>
    simp only [step] at taken
    split at taken
    next at_ =>
      split at taken
      next found =>
        split at taken
        next => exact Option.some.inj taken ▸ .hearOk
        next failed =>
          split at taken
          next retry => exact Option.some.inj taken ▸ .hearBusy at_ found retry
          next final => exact Option.some.inj taken ▸ .hearFinal at_ found failed final
      next => cases taken
    next => cases taken
  | replace =>
    simp only [step] at taken
    split at taken
    next at_ =>
      rw [Option.ite_none_right_eq_some] at taken
      exact Option.some.inj taken.2 ▸ .replace at_
    next => cases taken
  | timeout =>
    simp only [step] at taken
    split at taken
    next =>
      rw [Option.ite_none_right_eq_some] at taken
      exact Option.some.inj taken.2 ▸ .timeout
    next => cases taken

/-- No gate that the runner arms accepts the body. -/
def Setup.Unfit (setup : Setup) : Prop :=
  (setup.body.credentials.all fun entry => isCredentialName entry.1 && !isReserved entry.1) = false ∨
    (setup.body.delivery.bind (parseDelivery setup.checkUrl)).isSome ∨
    ¬ (setup.body.run = setup.ownRun ∧ setup.body.task = setup.ownTask)

structure GateSound (setup : Setup) (gate : StartGate) : Prop where
  own : ∀ pair, gate.expected = some pair → pair = (setup.ownRun, setup.ownTask)
  refused : gate.refusal ≠ none → gate.expected = none
  armed : gate.accepted = true → gate.expected ≠ none

/-- Why a gate that does not accept the body answers as it does. -/
def Declines (setup : Setup) (gate : StartGate) (answer : Answer) : Prop :=
  answer.status = 503 ∨ (gate.accepted = true ∧ answer = ⟨409, alreadyText⟩) ∨
    gate.refusal ≠ none ∨ setup.Unfit

private theorem offer_cases {setup : Setup} {gate : StartGate} (sound : GateSound setup gate) :
    (gate.refusal = none ∧ gate.accepted = false ∧ gate.expected ≠ none ∧ ¬ setup.Unfit ∧
        gate.offer setup.checkUrl setup.body
          = ({ gate with accepted := true }, ⟨202, "started"⟩)) ∨
      ∃ answer, gate.offer setup.checkUrl setup.body = (gate, answer) ∧ Declines setup gate answer ∧
        answer.status ≠ 202 := by
  -- in the order of the source: refusal, accepted, expected, the body, its own run and task
  rw [StartGate.offer]
  cases refusal : gate.refusal with
  | some reason =>
    exact .inr ⟨_, rfl, .inr (.inr (.inl (by rw [refusal]; exact nofun))), by simp⟩
  | none =>
    cases accepted : gate.accepted with
    | true => exact .inr ⟨_, rfl, .inr (.inl ⟨accepted, rfl⟩), by simp⟩
    | false =>
      cases expected : gate.expected with
      | none => exact .inr ⟨_, rfl, .inl rfl, by simp⟩
      | some pair =>
        obtain ⟨run, task⟩ := pair
        cases sound.own _ expected
        cases fit : setup.body.credentials.all fun entry =>
            isCredentialName entry.1 && !isReserved entry.1 with
        | false => exact .inr ⟨_, rfl, .inr (.inr (.inr (.inl fit))), by simp⟩
        | true =>
          cases parsed : setup.body.delivery.bind (parseDelivery setup.checkUrl) with
          | some error =>
            exact .inr ⟨_, rfl, .inr (.inr (.inr (.inr (.inl (by rw [parsed]; rfl))))), by simp⟩
          | none =>
            -- the body names the run and task the machine was made for
            by_cases same : setup.body.run ≠ setup.ownRun ∨ setup.body.task ≠ setup.ownTask
            · refine .inr ⟨_, if_pos same, .inr (.inr (.inr (.inr (.inr ?_)))), by simp⟩
              rintro ⟨run, task⟩
              exact same.elim (· run) (· task)
            · refine .inl ⟨rfl, rfl, nofun, ?_, if_neg same⟩
              rintro (bad | bad | bad)
              · rw [fit] at bad
                cases bad
              · rw [parsed] at bad
                cases bad
              · rw [not_or, not_not, not_not] at same
                exact bad same

structure Kept (setup : Setup) (s : State) : Prop where
  gate : GateSound setup s.gate
  accepted : s.gate.accepted = true ↔ ∃ i, (s.boot, i) ∈ s.accepts
  bound : ∀ entry ∈ s.accepts, entry.1 ≤ s.boot
  once : (s.accepts.map (·.1)).Nodup
  fit : s.accepts ≠ [] → ¬ setup.Unfit
  listed : ∀ entry ∈ s.accepts, ∃ call : Nat,
    s.posts[entry.2]? = some ⟨call, some (entry.1, ⟨202, "started"⟩)⟩
  earlier : ∀ (i call boot : Nat) (answer : Answer), s.posts[i]? = some ⟨call, some (boot, answer)⟩ → boot ≤ s.boot
  answers : ∀ (i call : Nat) (answer : Answer), s.posts[i]? = some ⟨call, some (s.boot, answer)⟩ →
    (answer.status = 202 ∧ (s.boot, i) ∈ s.accepts) ∨ Declines setup s.gate answer
  known : ∀ (i : Nat) (post : Post), s.posts[i]? = some post → post.call ≤ s.calls
  current : s.client ≠ .idle → ∀ (i boot : Nat) (answer : Answer),
    s.posts[i]? = some ⟨s.calls, some (boot, answer)⟩ → boot = s.boot
  waiting : ∀ i, s.client = .waiting i → ∃ answer, s.posts[i]? = some ⟨s.calls, answer⟩
  positive : ∀ (i : Nat) (post : Post), s.posts[i]? = some post → 0 < post.call
  begun : s.client ≠ .idle → 0 < s.calls

section Kept
variable {setup : Setup} {s next : State}

theorem kept_start : Kept setup {} where
  gate := ⟨nofun, nofun, nofun⟩
  accepted := ⟨nofun, nofun⟩
  bound := nofun
  once := nodup_nil
  fit some_ := absurd rfl some_
  listed := nofun
  earlier := by simp
  answers := by simp
  known := by simp
  current busy := absurd rfl busy
  waiting := nofun
  positive := by simp
  begun busy := absurd rfl busy

section
variable (k : Kept setup s)
include k

theorem Kept.client (boot : next.boot = s.boot) (gate : next.gate = s.gate)
    (accepts : next.accepts = s.accepts) (posts : next.posts = s.posts)
    (calls : next.calls = s.calls) (idle : s.client = .idle → next.client = .idle)
    (waiting : ∀ i, next.client = .waiting i → s.client = .waiting i) : Kept setup next := by
  obtain ⟨g, accepted, bound, once, fit, listed, earlier, answers, known, current, waits, positive,
    begun⟩ := k
  refine ⟨gate ▸ g, ?_, ?_, ?_, ?_, ?_, ?_, ?_, ?_, ?_, ?_, ?_, ?_⟩
  · rw [gate, boot, accepts]; exact accepted
  · rw [boot, accepts]; exact bound
  · rw [accepts]; exact once
  · rw [accepts]; exact fit
  · rw [accepts, posts]; exact listed
  · rw [boot, posts]; exact earlier
  · rw [boot, gate, accepts, posts]; exact answers
  · rw [posts, calls]; exact known
  · rw [boot, posts, calls]
    exact fun busy => current fun is => busy (idle is)
  · rw [posts, calls]
    exact fun i is => waits i (waiting i is)
  · rw [posts]; exact positive
  · rw [calls]
    exact fun busy => begun fun is => busy (idle is)

theorem Kept.gate_step {gate : StartGate} (sound : GateSound setup gate)
    (accepted : gate.accepted = s.gate.accepted)
    (refused : s.gate.refusal ≠ none → gate.refusal ≠ none) : Kept setup { s with gate } := by
  refine ⟨sound, ?_, k.bound, k.once, k.fit, k.listed, k.earlier, ?_, k.known,
    k.current, k.waiting, k.positive, k.begun⟩
  · rw [accepted]
    exact k.accepted
  · intro i call answer found
    rcases k.answers i call answer found with own | retry | ⟨held, is⟩ | refuses | unfit
    · exact .inl own
    · exact .inr (.inl retry)
    · exact .inr (.inr (.inl ⟨accepted.trans held, is⟩))
    · exact .inr (.inr (.inr (.inl (refused refuses))))
    · exact .inr (.inr (.inr (.inr unfit)))

theorem Kept.reboot (idle : s.client = .idle) :
    Kept setup { s with boot := s.boot + 1, gate := {} } := by
  refine ⟨⟨nofun, nofun, nofun⟩, ⟨nofun, ?_⟩, ?_, k.once, k.fit, k.listed, ?_, ?_, k.known,
    fun busy => absurd idle busy, k.waiting, k.positive, k.begun⟩
  · rintro ⟨i, member⟩
    exact absurd (k.bound _ member) (by simp)
  · intro entry member
    exact Nat.le_succ_of_le (k.bound entry member)
  · intro i call boot answer found
    exact Nat.le_succ_of_le (k.earlier i call boot answer found)
  · intro i call answer found
    exact absurd (k.earlier i call _ answer found) (by simp)

theorem Kept.begin_ (last : String) :
    Kept setup { s with calls := s.calls + 1, client := .ready last } := by
  refine ⟨k.gate, k.accepted, k.bound, k.once, k.fit, k.listed, k.earlier,
    k.answers, ?_, ?_, nofun, k.positive, fun _ => Nat.succ_pos _⟩
  · intro i post found
    exact Nat.le_succ_of_le (k.known i post found)
  · intro _ i boot answer found
    exact absurd (k.known i _ found) (by simp)

theorem Kept.post (busy : s.client ≠ .idle) :
    Kept setup { s with
      client := .waiting s.posts.length, posts := s.posts ++ [{ call := s.calls }] } := by
  -- The new request has no answer, so an answered one is an old one.
  have old : ∀ {i call boot : Nat} {answer : Answer},
      (s.posts ++ [{ call := s.calls }])[i]? = some ⟨call, some (boot, answer)⟩ →
      s.posts[i]? = some ⟨call, some (boot, answer)⟩ := by
    intro i call boot answer found
    rw [List.getElem?_append] at found
    split at found
    next => exact found
    next => simp [List.getElem?_singleton] at found
  refine ⟨k.gate, k.accepted, k.bound, k.once, k.fit, ?_, ?_, ?_, ?_, ?_, ?_, ?_,
    fun _ => k.begun busy⟩
  · intro entry member
    obtain ⟨call, found⟩ := k.listed entry member
    obtain ⟨below, -⟩ := List.getElem?_eq_some_iff.mp found
    exact ⟨call, by rw [List.getElem?_append_left below]; exact found⟩
  · exact fun i call boot answer found => k.earlier i call boot answer (old found)
  · exact fun i call answer found => k.answers i call answer (old found)
  · intro i post found
    rw [List.getElem?_append] at found
    split at found
    next => exact k.known i post found
    next =>
      rw [List.getElem?_singleton] at found
      split at found
      next => cases found; exact Nat.le_refl _
      next => cases found
  · exact fun _ i boot answer found => k.current busy i boot answer (old found)
  · rintro i is
    cases is
    exact ⟨none, by simp⟩
  · intro i post found
    rw [List.getElem?_append] at found
    split at found
    next => exact k.positive i post found
    next =>
      rw [List.getElem?_singleton] at found
      split at found
      next => cases found; exact k.begun busy
      next => cases found

end

section Answered
variable {posts : List Post} {i call boot : Nat} {answer : Answer}

/-- An answered request is this one with its new answer, or one that was answered before. -/
theorem answered_cases {j c b : Nat} {a : Answer}
    (found : (posts.set i ⟨call, some (boot, answer)⟩)[j]? = some ⟨c, some (b, a)⟩) :
    (j = i ∧ c = call ∧ b = boot ∧ a = answer) ∨ (j ≠ i ∧ posts[j]? = some ⟨c, some (b, a)⟩) := by
  rw [List.getElem?_set] at found
  split at found
  next here =>
    rw [Option.ite_none_right_eq_some] at found
    obtain ⟨-, ⟨⟩⟩ := found
    exact .inl ⟨here.symm, rfl, rfl, rfl⟩
  next there => exact .inr ⟨fun here => there here.symm, found⟩

/-- An answer leaves the calls of the requests. -/
theorem call_of_answered (P : Nat → Prop) (at_ : posts[i]? = some ⟨call, none⟩)
    (all : ∀ (j : Nat) (post : Post), posts[j]? = some post → P post.call) (j : Nat) (post : Post)
    (found : (posts.set i ⟨call, some (boot, answer)⟩)[j]? = some post) : P post.call := by
  rw [List.getElem?_set] at found
  split at found
  next =>
    rw [Option.ite_none_right_eq_some] at found
    obtain ⟨-, ⟨⟩⟩ := found
    exact all i ⟨call, none⟩ at_
  next => exact all j post found

theorem Kept.waiting_answered (k : Kept setup s) (at_ : s.posts[i]? = some ⟨call, none⟩) (j : Nat)
    (is : s.client = .waiting j) :
    ∃ a, (s.posts.set i ⟨call, some (s.boot, answer)⟩)[j]? = some ⟨s.calls, a⟩ := by
  obtain ⟨below, -⟩ := List.getElem?_eq_some_iff.mp at_
  obtain ⟨a, found⟩ := k.waiting j is
  by_cases here : j = i
  · subst here
    cases Option.some.inj (at_.symm.trans found)
    exact ⟨_, by rw [List.getElem?_set_self below]⟩
  · exact ⟨a, by rw [List.getElem?_set_ne (Ne.symm here)]; exact found⟩

theorem Kept.earlier_answered (k : Kept setup s) (j c b : Nat) (a : Answer)
    (found : (s.posts.set i ⟨call, some (s.boot, answer)⟩)[j]? = some ⟨c, some (b, a)⟩) :
    b ≤ s.boot := by
  rcases answered_cases found with ⟨-, -, rfl, -⟩ | ⟨-, old⟩
  · exact Nat.le_refl _
  · exact k.earlier j c b a old

theorem Kept.current_answered (k : Kept setup s) (busy : s.client ≠ .idle) (j b : Nat) (a : Answer)
    (found : (s.posts.set i ⟨call, some (s.boot, answer)⟩)[j]? = some ⟨s.calls, some (b, a)⟩) :
    b = s.boot := by
  rcases answered_cases found with ⟨-, -, rfl, -⟩ | ⟨-, old⟩
  · rfl
  · exact k.current busy j b a old

/-- The accepted requests keep their entries, since one without an answer is none of them. -/
theorem Kept.listed_answered (k : Kept setup s) (at_ : s.posts[i]? = some ⟨call, none⟩)
    (entry : Nat × Nat) (member : entry ∈ s.accepts) :
    ∃ c : Nat, (s.posts.set i ⟨call, some (s.boot, answer)⟩)[entry.2]? =
      some ⟨c, some (entry.1, ⟨202, "started"⟩)⟩ := by
  obtain ⟨c, found⟩ := k.listed entry member
  have fresh : i ≠ entry.2 := by
    rintro rfl
    rw [at_] at found
    cases found
  exact ⟨c, (List.getElem?_set_ne fresh).trans found⟩

end Answered

/-- The gate accepts the first start of its own that fits, and declines any other. -/
theorem Kept.reach (k : Kept setup s) {i call : Nat} (at_ : s.posts[i]? = some ⟨call, none⟩) :
    Kept setup { s with
      gate := (s.gate.offer setup.checkUrl setup.body).1
      posts := s.posts.set i ⟨call, some (s.boot, (s.gate.offer setup.checkUrl setup.body).2)⟩
      accepts := if (s.gate.offer setup.checkUrl setup.body).2.status = 202 then
        s.accepts ++ [(s.boot, i)] else s.accepts } := by
  obtain ⟨below, -⟩ := List.getElem?_eq_some_iff.mp at_
  rcases offer_cases k.gate with ⟨refusal, first, armed, fits, offered⟩ |
    ⟨answer, offered, declines, other⟩
  · rw [offered]
    -- before the first start nothing of this boot was accepted
    have unused : ∀ j, (s.boot, j) ∉ s.accepts := fun j member => by
      have held := k.accepted.mpr ⟨j, member⟩
      rw [first] at held
      cases held
    refine ⟨⟨k.gate.own, k.gate.refused, fun _ => armed⟩, ⟨fun _ => ?_, fun _ => rfl⟩, ?_, ?_,
      fun _ => fits, ?_, k.earlier_answered, ?_, call_of_answered (· ≤ s.calls) at_ k.known, k.current_answered,
      k.waiting_answered at_, call_of_answered (0 < ·) at_ k.positive, k.begun⟩
    · exact ⟨i, mem_append_right _ mem_cons_self⟩
    · intro entry member
      rcases mem_append.mp member with old | new
      · exact k.bound entry old
      · cases mem_singleton.mp new
        exact Nat.le_refl _
    · rw [if_pos rfl, map_append, map_singleton, ← concat_eq_append]
      apply List.Nodup.concat _ k.once
      rintro member
      obtain ⟨⟨b, j⟩, old, rfl⟩ := mem_map.mp member
      exact unused j old
    · intro entry member
      rcases mem_append.mp member with old | new
      · exact k.listed_answered at_ entry old
      · rw [mem_singleton.mp new]
        exact ⟨call, List.getElem?_set_self below⟩
    · intro j c a found
      rcases answered_cases found with ⟨rfl, -, -, rfl⟩ | ⟨-, old⟩
      · exact .inl ⟨rfl, mem_append_right _ mem_cons_self⟩
      · -- an older answer of the boot cannot say that the gate had started
        rcases k.answers j c a old with ⟨-, member⟩ | retry | ⟨held, -⟩ | refuses | unfit
        · exact absurd member (unused j)
        · exact .inr (.inl retry)
        · rw [first] at held
          cases held
        · exact absurd refusal refuses
        · exact absurd unfit fits
  · rw [offered, if_neg other]
    refine ⟨k.gate, k.accepted, k.bound, k.once, k.fit, k.listed_answered at_, k.earlier_answered, ?_,
      call_of_answered (· ≤ s.calls) at_ k.known, k.current_answered, k.waiting_answered at_,
      call_of_answered (0 < ·) at_ k.positive, k.begun⟩
    intro j c a found
    rcases answered_cases found with ⟨-, -, -, rfl⟩ | ⟨-, old⟩
    · exact .inr declines
    · exact k.answers j c a old

theorem Kept.finish (k : Kept setup s) (result : Option String) (answered : Bool) :
    Kept setup (s.finish result answered) :=
  k.client rfl rfl rfl rfl rfl (fun _ => rfl) nofun

/-- Each step keeps the accepted starts to one for each boot. -/
theorem Kept.step (k : Kept setup s) (taken : step setup a s = some next) :
    Kept setup next := by
  -- the gate moves in three steps, the client in the others; only `reach` touches both
  cases move_of_step taken with
  | arm free =>
    refine k.gate_step ⟨?_, fun refused => absurd free refused, fun _ => nofun⟩ rfl id
    rintro pair is
    exact (Option.some.inj is).symm
  | refuse unarmed => exact k.gate_step ⟨k.gate.own, fun _ => unarmed, k.gate.armed⟩ rfl fun _ => nofun
  | reboot idle => exact k.reboot idle
  | begin_ => exact k.begin_ _
  | post at_ => exact k.post (by rw [at_]; exact nofun)
  | reach at_ => exact k.reach at_
  | hearOk | hearFinal | timeout => exact k.finish _ _
  | hearBusy at_ | lose at_ | replace at_ =>
    -- the client tries again
    exact k.client rfl rfl rfl rfl rfl (fun is => by rw [at_] at is; cases is) nofun

/-- Each boot accepts at most one request, of the right run and task. -/
theorem Kept.acceptsOnce (k : Kept setup s) : AcceptsOnce setup s := by
  refine ⟨k.once, fun some_ => ?_⟩
  by_contra other
  exact k.fit some_ (.inr (.inr other))

structure Heeded (s : State) : Prop where
  waits : s.calls = 1 → s.client ≠ .idle → ∀ entry ∈ s.accepts, s.client = .waiting entry.2
  told : NotRefused s

theorem returned_started {calls : Nat} (later : 1 < calls) (shows : setup.showsStarted = true) :
    returned calls (setup.refused ⟨409, alreadyText⟩) = none := by
  rw [returned, if_pos]
  exact ⟨later, contains_append shows _⟩

theorem Kept.told (k : Kept setup s) (h : Heeded s) (shows : setup.showsStarted = true) {i boot : Nat}
    {answer : Answer} (at_ : s.client = .waiting i)
    (found : (s.posts[i]?).bind (·.answer) = some (boot, answer))
    (failed : ¬ (200 ≤ answer.status ∧ answer.status < 300)) (final : answer.status ∉ retryStatus)
    (accepting : s.accepting = true) : returned s.calls (setup.refused answer) = none := by
  have busy : s.client ≠ .idle := by rw [at_]; exact nofun
  obtain ⟨mine, place⟩ := k.waiting i at_
  rw [place, Option.bind_some] at found
  simp only at found
  subst found
  cases k.current busy i boot answer place
  rw [State.accepting, any_eq_true] at accepting
  obtain ⟨⟨b, j⟩, member, own⟩ := accepting
  rw [Bool.and_eq_true, decide_eq_true_eq] at own
  obtain ⟨rfl, -⟩ := own
  have taken : s.gate.accepted = true := k.accepted.mpr ⟨j, member⟩
  rcases k.answers i _ answer place with ⟨ok, -⟩ | retry | ⟨-, rfl⟩ | refuses | unfit
  · exact absurd ⟨by omega, by omega⟩ failed
  · exact absurd (by rw [retry]; decide) final
  · apply returned_started _ shows
    by_contra first
    have calls : s.calls = 1 := by have begun := k.begun busy; omega
    -- The first call waits for the accepted request, whose answer is another one.
    cases Client.waiting.inj (at_.symm.trans (h.waits calls busy _ member))
    obtain ⟨call, other⟩ := k.listed _ member
    rw [place] at other
    simp at other
  · exact absurd (k.gate.refused refuses) (k.gate.armed taken)
  · exact absurd unfit (k.fit (ne_nil_of_mem member))

theorem NotRefused.finish (told : NotRefused s) {result : Option String} {answered : Bool}
    (own : answered = true → s.accepting = true → result = none) :
    NotRefused (s.finish result answered) := by
  intro e member
  rcases mem_append.mp member with old | new
  · exact told e old
  · cases mem_singleton.mp new
    exact own

private theorem not_waiting_of_lost (h : Heeded s) {i : Nat} (at_ : s.client = .waiting i)
    (heard : (s.calls ≠ 1 || !s.waitsAccepted) = true) :
    s.calls = 1 → ∀ entry ∈ s.accepts, False := by
  intro first entry member
  have waits := h.waits first (by rw [at_]; exact nofun) entry member
  have accepted : s.waitsAccepted = true := by
    rw [State.waitsAccepted, waits]
    exact any_eq_true.mpr ⟨entry, member, by simp⟩
  simp [first, accepted] at heard

/-- Where starts are shown and answers heard, no step refuses a start that was accepted. -/
theorem Heeded.step (h : Heeded s) (k : Kept setup s)
    (shows : setup.showsStarted = true) (heard : Heard setup s a = true)
    (taken : step setup a s = some next) : Heeded next := by
  cases move_of_step taken with
  | arm | refuse => exact ⟨h.waits, h.told⟩
  | reboot idle => exact ⟨fun _ busy => absurd idle busy, h.told⟩
  | begin_ =>
    refine ⟨fun first _ entry member => ?_, h.told⟩
    -- Before the first call there is no request.
    obtain ⟨call, found⟩ := k.listed entry member
    have positive := k.positive _ _ found
    have known := k.known _ _ found
    simp only at first positive known
    omega
  | post at_ =>
    refine ⟨fun first _ entry member => ?_, h.told⟩
    have waits := h.waits first (by rw [at_]; exact nofun) entry member
    rw [at_] at waits
    cases waits
  | reach at_ =>
    refine ⟨fun first busy entry member => ?_, h.told⟩
    simp only at first busy member ⊢
    split at member
    next accepted =>
      rcases mem_append.mp member with old | new
      · exact h.waits first busy entry old
      · cases mem_singleton.mp new
        simpa [Heard, first, busy, accepted] using heard
    next => exact h.waits first busy entry member
  | hearOk => exact ⟨fun _ busy => absurd rfl busy, h.told.finish fun _ _ => rfl⟩
  | hearBusy at_ found retry =>
    refine ⟨fun first _ entry member => ?_, h.told⟩
    -- The accepted request's answer is no reason to retry.
    cases Client.waiting.inj (at_.symm.trans (h.waits first (by rw [at_]; exact nofun) entry member))
    obtain ⟨call, place⟩ := k.listed entry member
    rw [place] at found
    cases found
    exact absurd retry (by decide)
  | hearFinal at_ found failed final =>
    exact ⟨fun _ busy => absurd rfl busy,
      h.told.finish fun _ => k.told h shows at_ found failed final⟩
  | lose at_ | replace at_ =>
    exact ⟨fun first _ entry member => (not_waiting_of_lost h at_ heard first entry member).elim, h.told⟩
  | timeout => exact ⟨fun _ busy => absurd rfl busy, h.told.finish nofun⟩

end Kept

/-- In every run each boot accepts at most one request, of its own run and task. In every run in which
the first call hears what it had accepted, no call that its actor has started is refused. -/
theorem started_not_refused {setup : Setup} {actions : List Action} {last : State}
    (ran : Runs.run (step setup) actions {} = some last) :
    AcceptsOnce setup last ∧
      (setup.showsStarted = true →
        Runs.Meets (step setup) (fun s a => Heard setup s a = true) actions {} →
        NotRefused last) := by
  have kept : ∀ s a next, Kept setup s → step setup a s = some next → Kept setup next :=
    fun s a next k taken => k.step taken
  constructor
  · have reached : Runs.Reachable (step setup) (· = {}) last := ⟨_, actions, rfl, ran⟩
    refine (Runs.reachable_invariant ?_ kept reached).acceptsOnce
    rintro s rfl
    exact kept_start
  · intro shows heard
    have both : ∀ s a next, Kept setup s ∧ Heeded s → Heard setup s a = true →
        step setup a s = some next → Kept setup next ∧ Heeded next := by
      intro s a next holds heard taken
      exact ⟨holds.1.step taken, holds.2.step holds.1 shows heard taken⟩
    have first : Kept setup {} ∧ Heeded {} := ⟨kept_start, fun _ busy => absurd rfl busy, nofun⟩
    exact (Runs.run_invariant both first heard ran).2.told

def demoSetup : Setup where
  atespace := "default"
  body := { run := "chain", task := "verify", credentials := [("DEEPSEEK_API_KEY", "sk-1")] }
  limit := "300"
  ownRun := "chain"
  ownTask := "verify"
  checkUrl := fun _ _ => none

/-- The first call is heard; after a resume without a boot the second one finds its command
running. -/
def resumedRun : List Action :=
  [.begin_, .post, .reach 0, .hear, .arm, .post, .lose "ConnectionResetError: reset", .post, .reach 2,
    .hear, .begin_, .post, .reach 3, .hear]

theorem started_not_refused_resumed :
    ∃ last, Runs.run (step demoSetup) resumedRun {} = some last ∧
      AcceptsOnce demoSetup last ∧ NotRefused last := by
  obtain ⟨last, ran⟩ : ∃ last, Runs.run (step demoSetup) resumedRun {} = some last :=
    Option.isSome_iff_exists.mp (by decide +kernel)
  have both := started_not_refused ran
  exact ⟨last, ran, both.1, both.2 (by decide +kernel) (Runs.meets_of_allowed (fun _ _ => id) (by decide +kernel))⟩

/-- The answer to the first call's accepted request is lost; the next one is refused. -/
theorem lost_start_refused :
    ∃ last, Runs.run (step demoSetup)
        [.arm, .begin_, .post, .reach 0, .lose "ConnectionResetError: reset", .post, .reach 1, .hear]
        {} = some last ∧ ¬ NotRefused last := by
  have refused : ((Runs.run (step demoSetup)
      [.arm, .begin_, .post, .reach 0, .lose "ConnectionResetError: reset", .post, .reach 1, .hear]
      {}).map fun last => last.ended.any fun e => e.answered && e.accepted && e.result.isSome)
      = some true := by decide +kernel
  obtain ⟨last, ran, found⟩ := Option.map_eq_some_iff.mp refused
  refine ⟨last, ran, fun told => ?_⟩
  obtain ⟨e, member, ended⟩ := any_eq_true.mp found
  simp only [Bool.and_eq_true] at ended
  have none_ := told e member ended.1.1 ended.1.2
  rw [none_] at ended
  cases ended.2

end OpenUltraSast.Plane.StartSignal
