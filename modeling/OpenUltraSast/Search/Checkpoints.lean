import OpenUltraSast.Library.JsonText
import OpenUltraSast.Plane.Memory

/-!
# Board checkpoints

The board's writer and its checkpoints in the memory store. A checkpoint is the JSON text of a
state, given by its parse tree, under the hash of that text.
-/

namespace OpenUltraSast.Search.Checkpoints

open Values Plane.Memory

abbrev Fields := List (String × Json)

/-- A `PermissionError`, a `ValueError` with its text, or another exception. -/
inductive Error where
  | permission
  | value (text : String)
  | other
deriving DecidableEq

/-- What a loop over a value runs through; an entry of an object or a text has no `get`. -/
def entries : Json → Except Error (List Json)
  | .arr items => .ok items
  | .obj [] => .ok []
  | .str text => if text = "" then .ok [] else .error .other
  | _ => .error .other

def isText : Json → Bool
  | .str text => text ≠ ""
  | _ => false

def required (kind : String) : List String :=
  ["id", "step", "task_id", if kind = "intents" then "description" else "text"]

def addId (kind : String) (ids : List String) : Json → Except Error (List String)
  | .obj fields =>
    if (required kind).any fun key => !isText (Json.field fields key) then
      .error (.value "entry requires text and writer provenance")
    else
      match Json.field fields "id" with
      | .str id => if id ∈ ids then .error (.value "duplicate board id") else .ok (ids ++ [id])
      | _ => .error .other
  | _ => .error .other

def idsOf (state : Fields) (kind : String) : Except Error (List String) := do
  (← entries (Json.field state kind)).foldlM (addId kind) []

/-- `not isinstance(value, list) or set(value) - ids`, which is refused with a text. -/
def knownIn (ids : List String) (text : String) : Json → Except Error Unit
  | .arr items =>
    if items.any Json.unhashable then .error .other
    else if items.all fun item => ids.any fun id => item.isStr id then .ok ()
    else .error (.value text)
  | _ => .error (.value text)

def checkFact (intents : List String) : Json → Except Error Unit
  | .obj fact =>
    match Json.field fact "evidence_refs" with
    | .arr (ref :: refs) =>
      if (ref :: refs).all isText then
        knownIn intents "unknown source intent" (Json.field fact "from_intents")
      else .error (.value "invalid evidence reference")
    | _ => .error (.value "facts require evidence references")
  | _ => .error .other

def checkIntent (facts : List String) : Json → Except Error Unit
  | .obj intent => do
    knownIn facts "unknown source fact" (Json.field intent "from_facts")
    let status := Json.field intent "status"
    let claimant := Json.field intent "claimant"
    if ["open", "claimed", "concluded"].all fun known => !status.isStr known then
      throw (.value "invalid intent status")
    if status.isStr "claimed" && !claimant.truthy then
      throw (.value "claimed intent requires claimant")
    if status.isStr "open" && !claimant matches .null then
      throw (.value "open intent cannot have claimant")
  | _ => .error .other

def endReasons : List String := ["goal_met", "budget_spent", "exhausted", "reason_refused"]

def checkEndReason (state : Fields) : Except Error Unit :=
  match state.lookup "end_reason" with
  | none => .error .other
  | some .null => .ok ()
  | some reason =>
    if endReasons.any fun known => reason.isStr known then .ok ()
    else .error (.value "invalid end reason")

def checkEach (check : Json → Except Error Unit) (rows : Json) : Except Error Unit := do
  (← entries rows).forM check

def validate (state : Fields) : Except Error Unit := do
  checkEndReason state
  let facts ← idsOf state "facts"
  let intents ← idsOf state "intents"
  let _ ← idsOf state "hints"
  checkEach (checkFact intents) (Json.field state "facts")
  checkEach (checkIntent facts) (Json.field state "intents")

abbrev Blobs := List (String × Json)

section Writer
variable (sha256 : Json → String) (size : Json → Nat)

/-- `get_blob`: a blob that no longer hashes to its name is absent. -/
def getBlob (blobs : Blobs) (name : String) : Option Json :=
  (blobs.lookup name).filter fun data => sha256 data = name

/-- `put_blob` of a text: a name that is taken keeps its content. -/
def putBlob (blobs : Blobs) (data : Json) : Blobs × String :=
  let name := sha256 data
  (if (blobs.lookup name).isNone then blobs ++ [(name, data)] else blobs, name)

/-- An error of the store, before or after its write. -/
inductive Fault where
  | before
  | landed
deriving DecidableEq

structure Board where
  searchId : String
  coordinator : String
  maxBytes : Nat
  head : Option String := none
  state : Fields

/-- `re.fullmatch(r"[a-z0-9][a-z0-9-]{0,63}", search_id)`. -/
def isSearchId (text : String) : Bool :=
  let plain := fun c : Char => ('a' ≤ c && c ≤ 'z') || ('0' ≤ c && c ≤ '9')
  text.toList.length ≤ 64 && text.toList.head?.any plain &&
    text.toList.all fun c => plain c || c = '-'

def firstState (searchId : String) : Fields :=
  [("search_id", .str searchId), ("version", .int 0), ("previous", .null), ("facts", .arr []),
    ("intents", .arr []), ("hints", .arr []), ("end_reason", .null), ("end_detail", .null),
    ("checkpoint", .obj [])]

/-- `Board.__init__`. -/
def newBoard (searchId coordinator : String) (maxBytes : Nat) : Except Error Board :=
  if !isSearchId searchId || coordinator = "" || maxBytes < 256 then
    .error (.value "invalid board configuration")
  else .ok { searchId, coordinator, maxBytes, state := firstState searchId }

mutual
/-- No integer is too long to be written. -/
def writable : Json → Bool
  | .int value => JsonText.fitsDigits value
  | .arr items => writableItems items
  | .obj fields => writableFields fields
  | _ => true

def writableItems : List Json → Bool
  | [] => true
  | item :: items => writable item && writableItems items

def writableFields : List (String × Json) → Bool
  | [] => true
  | (_, value) :: fields => writable value && writableFields fields
end

/-- `json.dumps(state, sort_keys=True)`. -/
def dumps (state : Fields) : Except Error Json :=
  if writable (.obj state) then .ok (Json.obj state).sorted
  else .error (.value "Exceeds the limit (4300 digits) for integer string conversion")

/-- `value + 1`, where a truth value is a number. -/
def increment : Json → Except Error Json
  | .int value => .ok (.int (value + 1))
  | .bool value => .ok (.int (if value then 2 else 1))
  | .float value => .ok (.float (value + 1))
  | _ => .error .other

def changeable : List String :=
  ["facts", "intents", "hints", "end_reason", "end_detail", "checkpoint"]

/-- The checks of `commit` before it makes a state. -/
def checkWriter (b : Board) (writer : String) (changes : Fields) : Except Error Unit :=
  if writer ≠ b.coordinator then .error .permission
  else
    match b.state.lookup "end_reason" with
    | none => .error .other
    | some .null =>
      if changes.any fun change => change.1 ∉ changeable then .error (.value "unknown board fields")
      else .ok ()
    | some _ => .error (.value "search already ended")

def headJson (head : Option String) : Json := head.elim .null .str

def changed (b : Board) (changes : Fields) (version : Json) : Fields :=
  let merged := changes.foldl (fun state change => setField state change.1 change.2) b.state
  setField (setField merged "version" version) "previous" (headJson b.head)

def capped (maxBytes : Nat) (data : Json) : Except Error Json :=
  if size data > maxBytes then .error (.value "board size cap exceeded") else .ok data

/-- `commit` up to the text that is stored, and the state it is the text of. -/
def draft (b : Board) (writer : String) (changes : Fields) : Except Error (Fields × Json) := do
  checkWriter b writer changes
  let version ← increment (Json.field b.state "version")
  let state := changed b changes version
  validate state
  let data ← capped size b.maxBytes (← dumps state)
  return (state, data)

/-- `commit`: the blobs and the board after it, and the head or the error. -/
def commit (blobs : Blobs) (b : Board) (writer : String) (changes : Fields)
    (fault : Option Fault) : Blobs × Board × Except Error String :=
  match draft size b writer changes, fault with
  | .error error, _ => (blobs, b, .error error)
  | .ok _, some .before => (blobs, b, .error .other)
  | .ok (_, data), some .landed => ((putBlob sha256 blobs data).1, b, .error .other)
  | .ok (state, data), none =>
    let (after, head) := putBlob sha256 blobs data
    (after, { b with state, head := some head }, .ok head)

/-- The check of a checkpoint that is read back, and its state. -/
def restored (searchId : String) : Json → Except Error Fields
  | .obj state =>
    match state.lookup "search_id" with
    | none => .error .other
    | some owner =>
      if owner.isStr searchId then (validate state).map fun _ => state
      else .error (.value "checkpoint belongs to another search")
  | _ => .error .other

def resume (blobs : Blobs) (searchId head coordinator : String) (maxBytes : Nat) :
    Except Error Board := do
  let b ← newBoard searchId coordinator maxBytes
  match getBlob sha256 blobs head with
  | none => .error (.value "missing or oversized board checkpoint")
  | some data =>
    if size data > maxBytes then .error (.value "missing or oversized board checkpoint")
    else
      let state ← restored searchId data
      return { b with state, head := some head }

def part (key : String) : Json → Json
  | .obj state => Json.field state key
  | _ => .null

def previousOf (data : Json) : Option String :=
  match part "previous" data with
  | .str head => some head
  | _ => none

/-- The checkpoints that `previous` leads through. -/
def walk (blobs : Blobs) : Nat → Option String → List Json
  | fuel + 1, some head =>
    match getBlob sha256 blobs head with
    | some data => data :: walk blobs fuel (previousOf data)
    | none => []
  | _, _ => []

end Writer

end OpenUltraSast.Search.Checkpoints
