import OpenUltraSast.Library.Dicts
import OpenUltraSast.Library.Json
import OpenUltraSast.Library.LineBreaks
import OpenUltraSast.Library.Text

/-!
# Payloads of the engine

What a query script prints between its fences, either as one document or as a line for each answer.
-/

namespace OpenUltraSast.Cpg

open Values
open LineBreaks (isLineEnd)

abbrev Fields := List (String × Json)

/-- What the language reads and writes: `json.loads`, `JSONDecoder.raw_decode` from the start of
a text, `repr` of the values that `str` does not write as they are, and `int` of a text. -/
structure Reader where
  loads : List Char → Option Json
  rawDecode : List Char → Option Json
  repr : Json → String
  int : String → Option Int

/-- `str(value)`. -/
def Reader.str (r : Reader) : Json → String
  | .str text => text
  | .int value => toString value
  | .null => "None"
  | .bool true => "True"
  | .bool false => "False"
  | value => r.repr value

/-- `BEGIN`. -/
def beginMark : List Char := "---OUSAST-CPG-BEGIN---".toList

/-- `END`. -/
def endMark : List Char := "---OUSAST-CPG-END---".toList

def streamId : String := "id"

def streamRows : String := "rows"

def partialKey : String := "__partial__"

def timingKey : String := "__timing__"

def censusKey : String := "__census__"

def reserved : List String := [partialKey, timingKey, censusKey]

def splitLinesFrom (line : List Char) : List Char → List (List Char)
  | [] => if line = [] then [] else [line]
  | '\r' :: '\n' :: rest => (line ++ ['\r', '\n']) :: splitLinesFrom [] rest
  | c :: rest =>
    if isLineEnd c then (line ++ [c]) :: splitLinesFrom [] rest
    else splitLinesFrom (line ++ [c]) rest

/-- `body.splitlines(keepends=True)`. -/
def splitLines (body : List Char) : List (List Char) := splitLinesFrom [] body

def strip (text : List Char) : List Char :=
  ((text.dropWhile Text.isSpace).reverse.dropWhile Text.isSpace).reverse

/-- The answers that the lines so far hold, and whether any of them was an answer. -/
structure Stream where
  answers : Fields := []
  saw : Bool := false

/-- What an answer cost, under the reserved key; a value there that is no list is left. -/
def addCost (r : Reader) (answers : Fields) (id cost : Json) : Fields :=
  match cost.number, cost with
  | none, _ | _, .bool _ => answers
  | some ms, _ =>
    let entry := Json.obj [("id", .str (r.str id)), ("ms", .float ms)]
    match answers.lookup timingKey with
    | none => Dicts.set answers timingKey (.arr [entry])
    | some (.arr timing) => Dicts.set answers timingKey (.arr (timing ++ [entry]))
    | some _ => answers

/-- The object that a line of the stream holds. The end of a line is a blank one, so `strip`
takes it too. -/
def documentOf (r : Reader) (line : List Char) : Option Fields :=
  if ['{'].isPrefixOf (strip line) then
    match r.loads (strip line) with
    | some (.obj document) => some document
    | _ => none
  else none

/-- What one object adds: a census that stands alone, or an answer. -/
def Stream.add (r : Reader) (s : Stream) (document : Fields) : Stream :=
  if Dicts.keys document = [censusKey] then
    ⟨Dicts.set s.answers censusKey (Json.field document censusKey), true⟩
  else
    match document.lookup streamId, document.lookup streamRows with
    | some id, some rows =>
      ⟨addCost r (Dicts.set s.answers (r.str id) rows) id (Json.field document "ms"), true⟩
    | _, _ => s

def streamed (r : Reader) (body : List Char) (complete : Bool) : Option Fields :=
  let stream := ((splitLines body).filterMap (documentOf r)).foldl (Stream.add r) {}
  if !stream.saw then none
  else if !complete then some (Dicts.set stream.answers partialKey (.bool true))
  else some stream.answers

def decodedFrom (r : Reader) : List (List Char) → Option Json
  | [] => none
  | line :: rest =>
    let opened := line.dropWhile Text.isSpace
    if ['{'].isPrefixOf opened || ['['].isPrefixOf opened then
      (r.rawDecode (opened ++ rest.flatten)).or (decodedFrom r rest)
    else decodedFrom r rest

def decodedJson (r : Reader) (body : List Char) : Option Json := decodedFrom r (splitLines body)

/-- `text.find(part)`. -/
def find (part : List Char) : List Char → Option Nat
  | [] => if part = [] then some 0 else none
  | c :: rest => if part.isPrefixOf (c :: rest) then some 0 else (find part rest).map (· + 1)

/-- The body behind the opening fence, and whether the closing one came. -/
def fenced (stdout : List Char) : Option (List Char × Bool) := do
  let start ← find beginMark stdout
  match (find endMark (stdout.drop (start + 1))).map (· + (start + 1)) with
  | some stop => some (strip ((stdout.take stop).drop (start + beginMark.length)), true)
  | none => some (strip (stdout.drop (start + beginMark.length)), false)

def extractPayload (r : Reader) (stdout : List Char) : Option Json := do
  let (body, closed) ← fenced stdout
  match streamed r body closed with
  | some answers => some (.obj answers)
  | none => if closed then decodedJson r body else none

/-- A text holds the rows of an id in full: on a line of its own inside the fence, or in the one
document between both fences. -/
inductive Complete (r : Reader) (stdout : List Char) (id : String) (rows : List Json) : Prop where
  | line {body : List Char} {closed : Bool} {line : List Char} {document : Fields} {name : Json}
      (fence : fenced stdout = some (body, closed)) (member : line ∈ splitLines body)
      (reads : documentOf r line = some document) (named : document.lookup streamId = some name)
      (is : r.str name = id) (held : document.lookup streamRows = some (.arr rows))
  | document {body : List Char} {document : Fields}
      (fence : fenced stdout = some (body, true)) (reads : decodedJson r body = some (.obj document))
      (held : (id, .arr rows) ∈ document)

/-- Every entry of a stream under a key that is not reserved was on a line with that id. -/
def FromLines (r : Reader) (documents : List Fields) (answers : Fields) : Prop :=
  ∀ id rows, id ∉ reserved → (id, rows) ∈ answers → ∃ document ∈ documents, ∃ name,
    document.lookup streamId = some name ∧ r.str name = id ∧ document.lookup streamRows = some rows

variable {r : Reader} {documents : List Fields}

theorem FromLines.set {answers : Fields}
    (held : FromLines r documents answers) {key : String} {value : Json}
    (from_ : key ∉ reserved → ∃ document ∈ documents, ∃ name,
      document.lookup streamId = some name ∧ r.str name = key ∧
        document.lookup streamRows = some value) :
    FromLines r documents (Dicts.set answers key value) := by
  intro id rows free member
  rcases Dicts.mem_set member with same | old
  · cases same
    exact from_ free
  · exact held id rows free old

theorem FromLines.addCost {answers : Fields}
    (held : FromLines r documents answers) (id cost : Json) :
    FromLines r documents (addCost r answers id cost) := by
  have timed (value : Json) : FromLines r documents (Dicts.set answers timingKey value) :=
    held.set fun free => absurd (by decide) free
  unfold Cpg.addCost
  split
  · exact held
  · exact held
  · split
    · exact timed _
    · exact timed _
    · exact held

theorem fromLines_foldl (r : Reader) {documents seen : List Fields} (sub : seen ⊆ documents)
    {s : Stream} (held : FromLines r documents s.answers) :
    FromLines r documents (seen.foldl (Stream.add r) s).answers := by
  induction seen generalizing s with
  | nil => exact held
  | cons document seen ih =>
    have member : document ∈ documents := sub List.mem_cons_self
    apply ih fun _ later => sub (List.mem_cons_of_mem _ later)
    rw [Stream.add]
    split
    · exact held.set fun free => absurd (by decide) free
    · split
      next name rows named rowed =>
        apply FromLines.addCost
        exact held.set fun _ => ⟨document, member, name, named, rfl, rowed⟩
      next => exact held

/-- Rows that are read from the payload were printed whole. -/
theorem complete_of_payload {stdout : List Char} {fields : Fields} {id : String}
    {rows : List Json} (payload : extractPayload r stdout = some (.obj fields))
    (free : id ∉ reserved) (member : (id, .arr rows) ∈ fields) : Complete r stdout id rows := by
  obtain ⟨⟨body, closed⟩, fence, payload⟩ := Option.bind_eq_some_iff.mp payload
  simp only at payload
  have lines : FromLines r ((splitLines body).filterMap (documentOf r))
      (((splitLines body).filterMap (documentOf r)).foldl (Stream.add r) {}).answers :=
    fromLines_foldl r (List.Subset.refl _) nofun
  cases stream : streamed r body closed with
  | some answers =>
    rw [stream] at payload
    cases payload
    have held : FromLines r ((splitLines body).filterMap (documentOf r)) fields := by
      rw [streamed] at stream
      split at stream
      · cases stream
      · split at stream
        · cases stream
          exact lines.set fun free => absurd (by decide) free
        · cases stream
          exact lines
    obtain ⟨document, seen, name, named, is, rowed⟩ := held id _ free member
    obtain ⟨line, there, reads⟩ := List.mem_filterMap.mp seen
    exact .line fence there reads named is rowed
  | none =>
    rw [stream] at payload
    simp only at payload
    split at payload
    next whole =>
      rw [whole] at fence
      exact .document fence payload member
    next => cases payload

end OpenUltraSast.Cpg
