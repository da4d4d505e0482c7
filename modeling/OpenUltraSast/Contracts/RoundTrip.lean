import OpenUltraSast.Contracts.Filling
import OpenUltraSast.Contracts.Transport

/-!
# Contract classes

The classes of change evidence and of the policy's operations, as their dataclasses declare them.
-/

namespace OpenUltraSast.Contracts

open JsonText

def str : Kind := .atom .str

def int : Kind := .atom .int

def bool : Kind := .atom .bool

def orNone (kind : Kind) : Kind := .union [kind, .atom .none]

def oneOf (options : List String) : Kind :=
  .atom (.literal (options.map fun option => .str (points option)))

def text (value : String) : Obj := .scalar (.str (points value))

def textsOf : Obj → List (List CodePoint)
  | .scalar (.str text) => [text]
  | .tuple items => items.flatMap fun
    | .scalar (.str text) => [text]
    | _ => []
  | _ => []

def contractsOf : Obj → List (List (String × Obj))
  | .tuple items => items.flatMap fun
    | .contract _ fields => [fields]
    | _ => []
  | _ => []

def getattr (fields : List (String × Obj)) (name : String) : Obj :=
  (fields.lookup name).getD (.other 0)

def number (fields : List (String × Obj)) (name : String) : Int :=
  match getattr fields name with
  | .scalar (.int value) => value
  | _ => 0

def hexDigit (c : Nat) : Option Nat :=
  if 48 ≤ c ∧ c ≤ 57 then some (c - 48)
  else if 97 ≤ c ∧ c ≤ 102 then some (c - 87)
  else if 65 ≤ c ∧ c ≤ 70 then some (c - 55)
  else none

/-- `bytes.fromhex`, which skips ASCII white space between bytes. -/
def fromHex : List CodePoint → Option (List Nat)
  | [] => some []
  | [c] => if c.val = 32 ∨ (9 ≤ c.val ∧ c.val ≤ 13) then some [] else none
  | c :: d :: rest =>
    if c.val = 32 ∨ (9 ≤ c.val ∧ c.val ≤ 13) then fromHex (d :: rest)
    else do
      let high ← hexDigit c.val
      let low ← hexDigit d.val
      return (16 * high + low) :: (← fromHex rest)

def hexPoint (digit : Nat) : Nat := if digit < 10 then 48 + digit else 87 + digit

/-- `raw.hex()`. -/
def toHex (raw : List Nat) : List Nat :=
  raw.flatMap fun byte => [hexPoint (byte / 16), hexPoint (byte % 16)]

def isRawPath (path : List CodePoint) : Bool :=
  match fromHex path with
  | some raw => !raw.isEmpty && !raw.contains 0 && toHex raw = path.map (·.val)
  | none => false

def questionIdentity : ClassDef where
  fields := [⟨"unit", str, none⟩, ⟨"language", str, none⟩, ⟨"path", str, none⟩,
    ⟨"function", orNone str, none⟩, ⟨"family", str, none⟩]
  distinct := by decide
  optional := rfl

def changedSpan : ClassDef where
  fields := [⟨"path", str, none⟩, ⟨"start_line", int, none⟩, ⟨"end_line", int, none⟩,
    ⟨"side", oneOf ["base", "head"], none⟩]
  check fields :=
    !(number fields "start_line" < 1 || number fields "end_line" < number fields "start_line")
  distinct := by decide
  optional := rfl

def pathRename : ClassDef where
  fields := [⟨"base_path", str, none⟩, ⟨"head_path", str, none⟩]
  distinct := by decide
  optional := rfl

def affectedRelationship : ClassDef where
  fields := [⟨"source", .contract "QuestionIdentity", none⟩,
    ⟨"target", .contract "QuestionIdentity", none⟩, ⟨"kind", str, none⟩,
    ⟨"evidence", .variadic str, none⟩]
  distinct := by decide
  optional := rfl

def lineCorrespondence : ClassDef where
  fields := [⟨"base_path", str, none⟩, ⟨"head_path", str, none⟩,
    ⟨"base_start_line", int, none⟩, ⟨"base_end_line", int, none⟩,
    ⟨"head_start_line", int, none⟩]
  check fields :=
    !(number fields "base_start_line" < 1 ||
      number fields "base_end_line" < number fields "base_start_line" ||
      number fields "head_start_line" < 1)
  distinct := by decide
  optional := rfl

def rawPaths (fields : List (String × Obj)) : List (List CodePoint) :=
  ["changed_paths", "deleted_paths", "declaration_paths"].flatMap
      (fun name => textsOf (getattr fields name)) ++
    (contractsOf (getattr fields "spans")).flatMap (fun span => textsOf (getattr span "path")) ++
    (contractsOf (getattr fields "renames") ++
      contractsOf (getattr fields "line_correspondences")).flatMap (fun pair =>
        textsOf (getattr pair "base_path") ++ textsOf (getattr pair "head_path")) ++
    textsOf (getattr fields "added_paths")

def changeContext : ClassDef where
  fields := [⟨"base_revision", orNone str, none⟩, ⟨"head_revision", str, none⟩,
    ⟨"changed_paths", .variadic str, none⟩, ⟨"deleted_paths", .variadic str, none⟩,
    ⟨"spans", .variadic (.contract "ChangedSpan"), none⟩,
    ⟨"renames", .variadic (.contract "PathRename"), none⟩,
    ⟨"declaration_paths", .variadic str, none⟩,
    ⟨"relationships", .variadic (.contract "AffectedRelationship"), none⟩,
    ⟨"unresolved_boundaries", .variadic str, none⟩,
    ⟨"path_encoding", oneOf ["text", "filesystem-bytes-hex"], some (text "text")⟩,
    ⟨"line_correspondences", .variadic (.contract "LineCorrespondence"), some (.tuple [])⟩,
    ⟨"added_paths", .variadic str, some (.tuple [])⟩]
  check fields :=
    textsOf (getattr fields "path_encoding") ≠ [points "filesystem-bytes-hex"] ||
      (rawPaths fields).all isRawPath
  distinct := by decide
  optional := rfl

def evidenceOperation : ClassDef where
  fields := [⟨"question", .contract "QuestionIdentity", none⟩,
    ⟨"mechanism", oneOf ["taint", "dominance", "config"], none⟩, ⟨"path", str, none⟩,
    ⟨"line", int, none⟩, ⟨"operation", str, none⟩, ⟨"source", str, none⟩,
    ⟨"discharged", bool, none⟩, ⟨"detail", str, none⟩,
    ⟨"method", orNone str, some (.scalar .none)⟩]
  distinct := by decide
  optional := rfl

def candidateDelta : ClassDef where
  fields := [⟨"family", str, none⟩, ⟨"site", str, none⟩, ⟨"rung", str, none⟩,
    ⟨"witness", orNone str, none⟩, ⟨"defect_id", str, none⟩,
    ⟨"novelty", oneOf ["new", "worsened", "unchanged", "unknown"], none⟩, ⟨"reason", str, none⟩,
    ⟨"head_operation", orNone (.contract "EvidenceOperation"), none⟩,
    ⟨"base_operations", .variadic (.contract "EvidenceOperation"), none⟩,
    ⟨"change_evidence", .variadic str, none⟩,
    ⟨"base_revision", orNone str, some (.scalar .none)⟩,
    ⟨"head_revision", orNone str, some (.scalar .none)⟩,
    ⟨"semantics", orNone str, some (.scalar .none)⟩]
  distinct := by decide
  optional := rfl

def declaredClasses : Schema := fun cls =>
  [("QuestionIdentity", questionIdentity), ("ChangedSpan", changedSpan), ("PathRename", pathRename),
    ("AffectedRelationship", affectedRelationship), ("LineCorrespondence", lineCorrespondence),
    ("ChangeContext", changeContext), ("EvidenceOperation", evidenceOperation),
    ("CandidateDelta", candidateDelta)].lookup cls

end OpenUltraSast.Contracts

/-!
## Contract round trips

Encoding and decoding undo each other for every class of a schema, directly and through JSON
text.
-/

namespace OpenUltraSast.Contracts

open JsonText

/-- Every constructed contract comes back from its payload, and from the text of its payload when
its strings and integers survive the text. Whatever is accepted encodes to what was given, filled
in. -/
theorem contract_round_trip (schema : Schema) :
    (∀ cls fields, Constructed schema (.contract cls fields) →
      fromPayload schema cls (payload (.contract cls fields)) = some (.contract cls fields) ∧
      (portable (.contract cls fields) = true →
        ∃ text, dumps (payload (.contract cls fields)) = some text ∧
          (loads text).bind (fromPayload schema cls) = some (.contract cls fields))) ∧
    ∀ cls given result, fromPayload schema cls given = some result →
      Filled schema (.contract cls) given (payload result) := by
  refine ⟨fun cls fields built => ?_, fun cls given result => fromPayload_filled⟩
  have direct := fromPayload_toPayload built
  refine ⟨direct, fun fits => ?_⟩
  have accepted : accepts (.contract cls) (.contract cls fields) = true := by
    rw [accepts_contract, isInstance, decide_eq_true_iff]
  obtain ⟨text, dumped, loaded⟩ := built.travels ⟨_, accepted⟩ fits
  exact ⟨text, dumped, by rw [loaded, Option.bind_some, direct]⟩

def askedQuestion : List (String × Obj) :=
  [("unit", text "u"), ("language", text "python"), ("path", text "a.py"),
    ("function", .scalar .none), ("family", text "taint")]

def callRelationship : List (String × Obj) :=
  [("source", .contract "QuestionIdentity" askedQuestion),
    ("target", .contract "QuestionIdentity" askedQuestion), ("kind", text "calls"),
    ("evidence", .tuple [text "e"])]

theorem constructed_question :
    Constructed declaredClasses (.contract "QuestionIdentity" askedQuestion) := by
  have made : construct questionIdentity "QuestionIdentity" askedQuestion =
      some (.contract "QuestionIdentity" askedQuestion) := rfl
  refine .contract rfl made ?_
  intro entry member
  simp only [askedQuestion, List.mem_cons, List.not_mem_nil, or_false] at member
  rcases member with rfl | rfl | rfl | rfl | rfl <;> exact .scalar _

private theorem constructed_relationship :
    Constructed declaredClasses (.contract "AffectedRelationship" callRelationship) := by
  have made : construct affectedRelationship "AffectedRelationship" callRelationship =
      some (.contract "AffectedRelationship" callRelationship) := rfl
  refine .contract rfl made ?_
  intro entry member
  simp only [callRelationship, List.mem_cons, List.not_mem_nil, or_false] at member
  rcases member with rfl | rfl | rfl | rfl
  · exact constructed_question
  · exact constructed_question
  · exact .scalar _
  · exact .tuple (List.forall_mem_singleton.mpr (.scalar _))

theorem contract_round_trip_relationship :
    ∃ text, dumps (payload (.contract "AffectedRelationship" callRelationship)) = some text ∧
      (loads text).bind (fromPayload declaredClasses "AffectedRelationship") =
        some (.contract "AffectedRelationship" callRelationship) :=
  ((contract_round_trip declaredClasses).1 "AffectedRelationship" callRelationship
    constructed_relationship).2 (by decide +kernel)

def tupledPayload : Obj :=
  .dict [(points "source", .dict (fieldPayloads askedQuestion)),
    (points "target", .dict (fieldPayloads askedQuestion)), (points "kind", text "calls"),
    (points "evidence", .tuple [text "e"])]

def splitRename : List (String × Obj) :=
  [("base_path", .scalar (.str [⟨0xD83D, by decide⟩, ⟨0xDE00, by decide⟩])),
    ("head_path", text "a")]

def longSpan : List (String × Obj) :=
  [("path", text "a"), ("start_line", .scalar (.int 1)), ("end_line", .scalar (.int (10 ^ 4300))),
    ("side", text "head")]

/-- A tuple in a payload comes back as a list, a surrogate pair as one character, and an integer
of more than 4300 digits is not written at all. -/
theorem round_trip_exceptions :
    (fromPayload declaredClasses "AffectedRelationship" tupledPayload =
        some (.contract "AffectedRelationship" callRelationship) ∧
      payload (.contract "AffectedRelationship" callRelationship) ≠ tupledPayload) ∧
    (construct pathRename "PathRename" splitRename = some (.contract "PathRename" splitRename) ∧
      ∃ text, dumps (payload (.contract "PathRename" splitRename)) = some text ∧
        (loads text).bind (fromPayload declaredClasses "PathRename") ≠
          some (.contract "PathRename" splitRename)) ∧
    (construct changedSpan "ChangedSpan" longSpan = some (.contract "ChangedSpan" longSpan) ∧
      (dumps (payload (.contract "ChangedSpan" longSpan))).isNone = true) := by
  refine ⟨⟨rfl, nofun⟩, ⟨rfl, _, rfl, ?_⟩, construct_self rfl (by decide +kernel), by decide +kernel⟩
  intro same
  cases same

end OpenUltraSast.Contracts
