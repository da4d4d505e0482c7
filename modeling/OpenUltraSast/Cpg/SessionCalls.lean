import OpenUltraSast.Cpg.Payload
import OpenUltraSast.Library.LineBreaks

/-!
# Calls of a session

The calls that an engine session takes, and what it hands back.
-/

namespace OpenUltraSast.Cpg.SessionCalls

open Values

def hexDigits : List Char := "0123456789abcdef".toList

/-- `uuid.uuid4().hex`. -/
structure Nonce where
  chars : List Char
  length : chars.length = 32
  hex : ∀ c ∈ chars, c ∈ hexDigits
deriving DecidableEq

structure Request where
  nonce : Nonce
  code : String
deriving DecidableEq

/-- The line that the engine writes before it runs the code of a request. -/
def Nonce.receipt (n : Nonce) : List Char := n.chars ++ ['\n']

/-- How far the engine came with the file of a request: some of the receipt, or the receipt and
what the code printed. -/
inductive Page where
  | torn (k : Nat)
  | whole (out : ByteArray)

def Page.bytes (n : Nonce) : Page → ByteArray
  | torn k => TextFiles.encode (n.receipt.take k)
  | whole out => TextFiles.encode n.receipt ++ out

/-- What the code of the request has printed. -/
def Page.out : Page → ByteArray
  | torn _ => .empty
  | whole out => out

def Page.print (text : ByteArray) : Page → Page
  | torn k => torn k
  | whole out => whole (out ++ text)

/-- What happens outside of the session: the engine starts a request, has written its receipt or
prints more of its output, a file of another request changes, or the process ends. -/
inductive Act where
  | starts (p : Request) (k : Nat)
  | opens (p : Request)
  | prints (p : Request) (text : ByteArray)
  | leaves (n : Nonce) (bytes : Option ByteArray)
  | exits

def pageStep (p : Request) (page : Option Page) : Act → Option Page
  | .starts q k => if q = p then some (.torn k) else page
  | .opens q => if q = p then some (.whole .empty) else page
  | .prints q text => if q = p then page.map (Page.print text) else page
  | _ => page

def written (p : Request) (acts : List Act) : Option Page := acts.foldl (pageStep p) none

/-- An `EngineSession`; the process is there until the session is closed, and runs or has ended. -/
structure EngineSession where
  failure : String := ""
  process : Option Bool
  observed : Bool := false
  requests : Nat := 0
  loadedGraph : String := ""

/-- A session with its scratch directory, the requests that its server got, and how far the engine
is with each of them. -/
structure State where
  session : EngineSession
  files : Nonce → Option ByteArray
  posted : List Request := []
  runs : Request → Option Page := fun _ => none

namespace State

variable (s : State)

def setFile (n : Nonce) (bytes : Option ByteArray) : State :=
  { s with files := fun other => if other = n then bytes else s.files other }

def shows (p : Request) (page : Option Page) : State :=
  { s.setFile p.nonce (page.map (Page.bytes p.nonce)) with
    runs := fun other => if other = p then page else s.runs other }

/-- The engine runs only what it was sent, and no one else writes to the file of the request that
is waited for. -/
def apply (current : Option Nonce) (s : State) : Act → State
  | .leaves n bytes => if current = some n then s else s.setFile n bytes
  | .exits => { s with session := { s.session with process := s.session.process.map fun _ => false } }
  | .starts p k => if p ∈ s.posted then s.shows p (pageStep p (s.runs p) (.starts p k)) else s
  | .opens p => if p ∈ s.posted then s.shows p (pageStep p (s.runs p) (.opens p)) else s
  | .prints p text =>
    if p ∈ s.posted ∧ s.runs p ≠ none then s.shows p (pageStep p (s.runs p) (.prints p text)) else s

def acts (current : Option Nonce) (s : State) (acts : List Act) : State :=
  acts.foldl (apply current) s

def alive : Bool := s.session.failure = "" && s.session.process = some true

def poison (reason : String) : State :=
  if s.session.failure = "" then { s with session := { s.session with failure := reason } } else s

def poisonDead : State :=
  s.poison (if s.session.failure = "" then "session_not_running" else s.session.failure)

def count : State := { s with session := { s.session with requests := s.session.requests + 1 } }

def post (p : Request) : State := { s with posted := p :: s.posted }

def setLoaded (graph : String) : State :=
  { s with session := { s.session with loadedGraph := graph } }

/-- `close`: a process group that outlives the allowance leaves a failure. -/
def close (reaped : Bool) : State :=
  let closed := { s with session := { s.session with process := none } }
  if s.session.process = some true && !reaped then closed.poison "session_cleanup_incomplete"
  else closed

end State

/-- What the server's answer comes to: a transport failure that `_post` catches or a body that is
no object, an error that it does not catch, or a body. -/
inductive Response where
  | failed
  | raised
  | body (fields : Fields)

/-- `body.get("success") in (True, "true")`. -/
def succeeded (body : Fields) : Bool :=
  match body.lookup "success" with
  | some value => value.same (.bool true) || value.isStr "true"
  | none => false

/-- The acts before an observation, and what the observer says of it; none is an error. -/
structure Poll where
  acts : List Act
  verdict : Option Bool

/-- What one `evaluate` meets: the acts since the last call and whether time is left, its nonce,
the acts while it waits, with an observer those of each observation up to the one behind the
response, the response, the acts before the file is read, and whether the file can be removed. -/
structure Wait where
  before : List Act := []
  timeLeft : Bool := true
  nonce : Nonce
  during : List Act := []
  polls : List Poll := []
  last : Poll := ⟨[], some true⟩
  response : Response
  late : List Act := []
  unlinks : Bool := true
  reaped : Bool := true
  seconds : ℚ

/-- The acts while an `evaluate` waits and reads. -/
def Wait.acts (w : Wait) (observed : Bool) : List Act :=
  (if observed then (w.polls ++ [w.last]).flatMap (·.acts) else w.during) ++ w.late

/-- What one `define` meets. -/
structure Post where
  before : List Act := []
  timeLeft : Bool := true
  during : List Act := []
  response : Response

structure SessionAnswer where
  stdout : List Char
  seconds : ℚ
deriving DecidableEq

/-- What a call hands back, or the error that passes through it. -/
inductive Reply where
  | answer (a : SessionAnswer)
  | text (body : String)
  | loaded (done : Bool)
  | closed
  | nothing
  | raised
deriving DecidableEq

namespace State

def read (s : State) (w : Wait) : State × Reply :=
  let s := s.acts (some w.nonce) w.late
  let cleared := if w.unlinks then s.setFile w.nonce none else s
  match s.files w.nonce with
  | none => (cleared.poison "session_answer_missing", if w.unlinks then .nothing else .raised)
  | some bytes =>
    match TextFiles.readText bytes with
    | none => (cleared, .raised)
    | some text =>
      if !w.unlinks then (cleared, .raised)
      else if strip (TextFiles.partition text).1 = w.nonce.chars then
        (cleared, .answer ⟨(TextFiles.partition text).2, w.seconds⟩)
      else (cleared.poison "session_receipt_mismatch", .nothing)

/-- What follows on the response. An error in the helper thread of an observed session leaves no
response there. -/
def respond (s : State) (w : Wait) : State × Reply :=
  match w.response with
  | .raised =>
    if s.session.observed then (s.count.poison "session_request_failed", .nothing) else (s, .raised)
  | .failed => (s.count.poison "session_request_failed", .nothing)
  | .body body =>
    if succeeded body then s.count.read w
    else (s.count.poison "session_request_unsuccessful", .nothing)

/-- The observations while the request runs, up to one that ends the call. -/
def watch (w : Wait) : List Poll → State → State × Option Reply
  | [], s => (s, none)
  | poll :: polls, s =>
    let s := s.acts (some w.nonce) poll.acts
    match poll.verdict with
    | none => (s, some .raised)
    | some true => watch w polls s
    | some false =>
      let closed := (s.poison "session_observer_cancelled").close w.reaped
      if w.unlinks then (closed.setFile w.nonce none, some .nothing) else (closed, some .raised)

/-- A request has been sent, and its answer is waited for. -/
def await (s : State) (w : Wait) : State × Reply :=
  if s.session.observed then
    match watch w (w.polls ++ [w.last]) s with
    | (s, some reply) => (s, reply)
    | (s, none) => s.respond w
  else (s.acts (some w.nonce) w.during).respond w

def evaluate (code : String) (w : Wait) (s : State) : State × Reply :=
  let s := s.acts none w.before
  if !s.alive then (s.poisonDead, .nothing)
  else if !w.timeLeft then (s.poison "deadline_exhausted", .nothing)
  else (s.post ⟨w.nonce, code⟩).await w

/-- `define`, whose code has no receipt. -/
def define (r : Reader) (p : Post) (s : State) : State × Reply :=
  let s := s.acts none p.before
  if !s.alive then (s.poisonDead, .nothing)
  else if !p.timeLeft then (s.poison "deadline_exhausted", .nothing)
  else
    let s := s.acts none p.during
    match p.response with
    | .raised => (s, .raised)
    | .failed => (s.count.poison "session_request_failed", .nothing)
    | .body body => (s.count, .text (r.str ((body.lookup "stdout").getD (.str ""))))

end State

/-- The escapes of `json.dumps` that are no code points. -/
def escapes : List (Nat × String) :=
  [(92, "\\\\"), (34, "\\\""), (8, "\\b"), (12, "\\f"), (10, "\\n"), (13, "\\r"), (9, "\\t")]

def unit (n : Nat) : String :=
  "\\u" ++ String.ofList ([4096, 256, 16, 1].map fun place => Nat.digitChar (n / place % 16))

def escaped (c : Char) : String :=
  match escapes.lookup c.toNat with
  | some text => text
  | none =>
    if 32 ≤ c.toNat && c.toNat ≤ 126 then c.toString
    else if c.toNat < 0x10000 then unit c.toNat
    else
      unit (0xD800 + (c.toNat - 0x10000) / 0x400) ++ unit (0xDC00 + (c.toNat - 0x10000) % 0x400)

/-- `json.dumps` of a text. -/
def quoted (text : String) : String := "\"" ++ String.join (text.toList.map escaped) ++ "\""

def importCode (graph : String) : String := "importCpg(" ++ quoted graph ++ "); \"loaded\""

def State.load (graph : String) (w : Wait) (s : State) : State × Reply :=
  match s.evaluate (importCode graph) w with
  | (s, .raised) => (s, .raised)
  | (s, .answer _) => (s.setLoaded graph, .loaded true)
  | (s, _) => (s.setLoaded "", .loaded false)

inductive Call where
  | evaluate (code : String) (w : Wait)
  | define (code : String) (p : Post)
  | load (graph : String) (w : Wait)
  | close (before : List Act) (reaped : Bool)

def step (r : Reader) : Call → State → State × Reply
  | .evaluate code w, s => s.evaluate code w
  | .define _ p, s => s.define r p
  | .load graph w, s => s.load graph w
  | .close before reaped, s => ((s.acts none before).close reaped, .closed)

structure Event where
  before : State
  call : Call
  reply : Reply

def trace (r : Reader) : List Call → State → List Event
  | [], _ => []
  | call :: calls, s => ⟨s, call, (step r call s).2⟩ :: trace r calls (step r call s).1

end OpenUltraSast.Cpg.SessionCalls
