import OpenUltraSast.Library.Collections
import OpenUltraSast.Library.Json
import OpenUltraSast.Library.Text

/-!
# The memory store

Rows by repository and pin, facts by content, and the ingest index.
-/

namespace OpenUltraSast.Plane.Memory

open Values

abbrev Row := List (String × Json)

abbrev Bytes := List UInt8

def kinds : List String :=
  ["facts", "verdict", "unit_cost", "alert", "coverage", "proposal_outcome", "features", "label",
    "decision", "experiment", "arm_outcome", "experiment_result", "example"]

def rowFields : List String :=
  ["id", "kind", "repo", "pin", "run", "task", "population", "split", "image"]

/-- `QUERYABLE`: the fields of `QUERY_FIELDS` that are not among `ROW_FIELDS`. -/
def queryable : List String := ["candidate", "candidates_digest", "final", "profile"]

/-- What `MemoryStoreError` names. -/
inductive MemoryStoreError where
  | notObject
  | missing (fields : List String)
  | unknownKind (kind : String)
  | badPin (pin : String)
  | notText (field : String)
  | notRepository (repo : String)
deriving DecidableEq

def text (row : Row) (key : String) : String :=
  match row.lookup key with
  | some (.str value) => value
  | _ => ""

def idOf (row : Row) : String := text row "id"

/-- `_PIN.fullmatch(pin)`. -/
def isPin (pin : String) : Bool :=
  pin.toList.length = 40 && pin.toList.all fun c => c.isDigit || c ∈ ['a', 'b', 'c', 'd', 'e', 'f']

/-- `repo_key`; a text that names no repository is a `ValueError`. -/
def repoKey (repo : String) : Option String := do
  let stripped := Text.stripOf Text.isSpace repo
  let located ←
    if Text.contains stripped "://" then
      (Url.urlsplit stripped).map fun parts => parts.hostname ++ parts.path
    else some stripped
  let name := Text.stripOf (· = '/') (Text.removeSuffix (Text.rstripOf (· = '/') located) ".git")
  if name = "" then none else some name

def repoDir (repo : String) : Option String := (repoKey repo).map (Text.replaceChar '/' "__")

def objectKey (repo pin : String) : Option String :=
  (repoDir repo).map fun dir => "repos/" ++ dir ++ "/" ++ pin ++ ".jsonl"

def Row.key (row : Row) : Option String := objectKey (text row "repo") (text row "pin")

def validateRow : Json → Except MemoryStoreError Row
  | .obj row =>
    let absent := rowFields.filter fun name => text row name = ""
    if absent ≠ [] then .error (.missing absent)
    else if text row "kind" ∉ kinds then .error (.unknownKind (text row "kind"))
    else if !isPin (text row "pin") then .error (.badPin (text row "pin"))
    else .ok row
  | _ => .error .notObject

/-- `out[name] = value`. -/
def setField (row : Row) (name : String) (value : Json) : Row :=
  if name ∈ row.map (·.1) then
    row.map fun entry => if entry.1 = name then (name, value) else entry
  else row ++ [(name, value)]

def normaliseField (row : Row) (name : String) : Except MemoryStoreError Row :=
  match row.lookup name with
  | none | some .null => .ok (setField row name (.str ""))
  | some (.str _) => .ok row
  | some _ => .error (.notText name)

/-- `normalise_row`: each queryable field is a text. -/
def normaliseRow (row : Row) : Except MemoryStoreError Row := queryable.foldlM normaliseField row

/-- `_line(row)`, read back. -/
def line (row : Row) : Row := inKeyOrder (Json.sortedValues row)

def lastWith (name : String) (rows : List Row) : Option Row :=
  rows.reverse.find? fun row => idOf row = name

structure Entry where
  run : String
  task : String
  sha256 : String
  rows : Nat
  ingested : String

structure Store where
  index : List Entry := []
  facts : String → Option Bytes := fun _ => none
  objects : String → List Row := fun _ => []

def Store.row (s : Store) (key name : String) : Option Row := lastWith name (s.objects key)

inductive ObjectStep where
  | putFacts (data : Bytes)
  | merge (key : String) (rows : List Row)
  | remove (key : String) (ids : List String)
  | check (sha : String)
  | record (entry : Entry)
  | decay (sha : String) (data : Bytes)

/-- A stored row is normalised again when its object is written again. Every call stores
normalised rows, so the error of `normalise_row` does not come up here. -/
def normalised (row : Row) : Row := (normaliseRow row).toOption.getD row

/-- `merged` with the new rows over the stored ones, in the order of the ids, as it is written. -/
def mergeRows (stored new : List Row) : List Row :=
  (Collections.sortedSet ((stored ++ new).map idOf)).filterMap fun name =>
    ((lastWith name new).or ((lastWith name stored).map normalised)).map line

/-- The rows that `drop_rows` keeps. -/
def keepRows (stored : List Row) (ids : List String) : List Row :=
  let kept := stored.filter fun row => idOf row ∉ ids
  if kept.length = stored.length then stored else kept.map fun row => line (normalised row)

section Digest
variable (sha256 : Bytes → String) (linesDigest : List Row → String)

def ObjectStep.apply (s : Store) : ObjectStep → Store
  -- `put_facts`: a key that is present is not written again.
  | putFacts data =>
    if (s.facts (sha256 data)).isSome then s
    else { s with facts := fun sha => if sha = sha256 data then some data else s.facts sha }
  | merge key rows => { s with
      objects := fun other =>
        if other = key then mergeRows (s.objects key) rows else s.objects other }
  | remove key ids => { s with
      objects := fun other =>
        if other = key then keepRows (s.objects key) ids else s.objects other }
  -- `get_facts`: content that no longer hashes to its name is dropped.
  | check sha => { s with
      facts := fun other =>
        if other = sha then (s.facts sha).filter (sha256 · = sha) else s.facts other }
  | record entry => { s with index := s.index ++ [entry] }
  | decay sha data => { s with facts := fun other => if other = sha then some data else s.facts other }

inductive Call where
  | ingest (run task now : String) (rows : List Json) (facts : Option Bytes)
  | put (rows : List Json)
  | drop (repo pin : String) (ids : List String)
  | getFacts (sha : String)

structure IngestResult where
  run : String
  task : String
  rows : Nat
  skipped : Bool
  kinds : List (String × Nat)
deriving DecidableEq

inductive Outcome where
  | ingested (result : IngestResult)
  | stored
  | dropped (count : Nat)
  | facts (data : Option Bytes)
  | failed (error : MemoryStoreError)
deriving DecidableEq

/-- `normalise_row(validate_row(...))` and the object that a row belongs to. -/
def checkRow (raw : Json) : Except MemoryStoreError (String × Row) := do
  let row ← normaliseRow (← validateRow raw)
  match row.key with
  | some key => .ok (key, row)
  | none => .error (.notRepository (text row "repo"))

/-- `put_rows`: each object with its rows, in the order of the keys. -/
def putRows (rows : List Json) : Except MemoryStoreError (List ObjectStep) := do
  let checked ← rows.mapM checkRow
  return (Collections.sortedSet (checked.map (·.1))).map fun key =>
    .merge key ((checked.filter (·.1 = key)).map (·.2))

/-- `rows_digest`: the digest of the lines. -/
def rowsDigest (rows : List Row) : String := linesDigest (rows.map line)

def countKinds (rows : List Row) : List (String × Nat) :=
  let named := rows.map (text · "kind")
  named.eraseDups.map fun kind => (kind, named.count kind)

def Store.hasEntry (s : Store) (run task digest : String) : Bool :=
  s.index.any fun e => e.run = run && e.task = task && e.sha256 = digest

/-- `ingest_rows`: its operations and how it ends. -/
def ingestRows (s : Store) (run task now : String) (rows : List Json) (facts : Option Bytes) :
    List ObjectStep × Outcome :=
  match rows.mapM validateRow with
  | .error error => ([], .failed error)
  | .ok checked =>
    let digest := rowsDigest linesDigest checked
    let result := { run, task, rows := checked.length, skipped := false, kinds := countKinds checked }
    if s.hasEntry run task digest then ([], .ingested { result with skipped := true })
    else
      let kept := (facts.map ObjectStep.putFacts).toList
      match putRows (checked.map .obj) with
      -- The facts are in the store although the rows are refused.
      | .error error => (kept, .failed error)
      | .ok merges =>
        let entry := { run, task, sha256 := digest, rows := checked.length, ingested := now }
        (kept ++ merges ++ [.record entry], .ingested result)

def Call.steps (s : Store) : Call → List ObjectStep × Outcome
  | ingest run task now rows facts => ingestRows linesDigest s run task now rows facts
  | put rows =>
    match putRows rows with
    | .error error => ([], .failed error)
    | .ok merges => (merges, .stored)
  | drop repo pin ids =>
    match objectKey repo pin with
    | none => ([], .failed (.notRepository repo))
    | some key =>
      ([.remove key ids], .dropped ((s.objects key).countP fun row => decide (idOf row ∈ ids)))
  | getFacts sha => ([.check sha], .facts ((s.facts sha).filter (sha256 · = sha)))

inductive Event where
  | call (call : Call) (cut : Option Nat)
  | decay (sha : String) (data : Bytes)

def Event.steps (s : Store) : Event → List ObjectStep
  | call c none => (c.steps sha256 linesDigest s).1
  | call c (some n) => ((c.steps sha256 linesDigest s).1).take n
  | decay sha data => [.decay sha data]

structure History where
  store : Store := {}
  log : List ObjectStep := []

def History.extend (h : History) (steps : List ObjectStep) : History :=
  { store := steps.foldl (ObjectStep.apply sha256) h.store, log := steps.reverse ++ h.log }

def History.next (h : History) (event : Event) : History :=
  h.extend sha256 (event.steps sha256 linesDigest h.store)

def history (events : List Event) : History :=
  events.foldl (History.next sha256 linesDigest) {}

end Digest

end OpenUltraSast.Plane.Memory
