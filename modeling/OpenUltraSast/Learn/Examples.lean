import OpenUltraSast.Library.Dicts
import OpenUltraSast.Plane.Repositories

/-!
# The example store

A build joins each verified label with the feature record of its candidate and an excerpt of its
function, and merges one row for each into the memory store. Retrieval and the program read the
rows back as examples.
-/

namespace OpenUltraSast.Learn.Examples

open Values Plane.Memory

inductive Profile where
  | static
  | plane
deriving DecidableEq

def Profile.name : Profile → String
  | static => "static"
  | plane => "plane"

structure FeatureSpec where
  name : String
  profile : Profile

/-- A label, as far as a build reads it; `origin` is the one of a row that is not a `Label`. -/
structure Label where
  candidate : String
  family : String
  label : Int
  source : String
  sourceRef : String
  unit : String
  weight : ℚ
  split : String
  group : String
  repo : String
  language : String
  direction : Option String := none
  pinRole : String := "vulnerable"
  pin : String := ""
  frameworks : Option (List String) := none
  conditional : Option String := none
  origin : Option String := none

structure FeatureRecord where
  profile : String
  language : String
  x : List (String × Json)
  instruments : List (String × Json)

/-- `record_key`: repository, pin, candidate, family and unit. -/
abbrev RecordKey := String × String × String × String × String

structure Source where
  id : String
  kind : String

structure Sources where
  path : String
  sources : List Source

structure Bounds where
  lines : Nat
  chars : Nat

structure Excerpt where
  text : String
  sha : String

structure Tools where
  features : List FeatureSpec
  sha1 : String → String
  sha256 : String → String
  labelSetDigest : List Label → String
  identitiesOf : String → String → List String → List String
  functionBounds : List String → String → String → Option (Nat × Nat)
  deltaDiff : List String → List String → String → List String → String
  excerpt : List String → String → String → Bounds → List String → Option String → Option Excerpt

/-- The arguments of a build; `linesOf` gives no lines for a side that is not read. -/
structure BuildCall where
  labels : List Label
  records : List (RecordKey × FeatureRecord)
  linesOf : Label → String → List String
  sources : Sources
  profile : Profile := .static
  rolesOf : Label → List Json := fun _ => []
  licenseOf : Label → String := fun _ => ""
  functionOf : Label → String → Option String := fun _ _ => none
  bounds : Bounds := ⟨40, 2000⟩
  pins : List ((String × String) × String) := []

inductive BuildError where
  | userLabel (candidate : String)
  | unknownSource (source path : String)
  | notRepository (repo : String)
  | store (error : MemoryStoreError)

structure SourceCount where
  labels : Nat := 0
  noRecord : Nat := 0
  recorded : Nat := 0
  noExcerpt : Nat := 0
  unread : Nat := 0
  absentFixedSide : Nat := 0
  examples : Nat := 0

structure MemoryBuild where
  rows : List Row := []
  sources : List (String × SourceCount) := []
  skipped : List (String × Nat) := []

def MemoryBuild.skip (build : MemoryBuild) (reason : String) : MemoryBuild :=
  { build with
    skipped := Dicts.set build.skipped reason ((build.skipped.lookup reason).getD 0 + 1) }

def MemoryBuild.count (build : MemoryBuild) (source : String)
    (change : SourceCount → SourceCount) : MemoryBuild :=
  { build with
    sources := Dicts.set build.sources source (change ((build.sources.lookup source).getD {})) }

def isNull : Json → Bool
  | .null => true
  | _ => false

/-- `features_for`: a static record never has an instrument that deployment lacks. -/
def featuresFor (features : List FeatureSpec) : Profile → List FeatureSpec
  | .plane => features
  | .static => features.filter (·.profile = .static)

/-- `profile_x`: without another profile's features that are null. -/
def profileX (features : List FeatureSpec) (x : List (String × Json)) (profile : Profile) :
    List (String × Json) :=
  x.filter fun (name, value) =>
    !isNull value || name ∈ (featuresFor features profile).map (·.name)

def allowedSources (sources : Sources) : List String :=
  sources.sources.map (·.id) ++
    if sources.sources.any (·.kind = "population") then ["benign_control"] else []

/-- `candidate.partition("::")`, without the separator. -/
def partitionColons : List Char → List Char × List Char
  | ':' :: ':' :: rest => ([], rest)
  | c :: rest => (c :: (partitionColons rest).1, (partitionColons rest).2)
  | [] => ([], [])

def pathOf (candidate : String) : String := String.ofList (partitionColons candidate.toList).1

def functionName (candidate : String) : String :=
  String.ofList (partitionColons candidate.toList).2

def orElse (text other : String) : String := if text = "" then other else text

section Build
variable (tools : Tools)

/-- `label_pin`: the commit, or for a pair a digest of the pair and its side. -/
def labelPin (label : Label) : String :=
  if isPin label.pin then label.pin
  else tools.sha1 (label.source ++ ":" ++ label.sourceRef ++ ":" ++ label.pinRole)

def Label.role (label : Label) : String := orElse label.pinRole "vulnerable"

def BuildCall.pinOf (call : BuildCall) (label : Label) : String :=
  let harvested :=
    if label.source = "pairs" then (call.pins.lookup (label.sourceRef, label.role)).getD "" else ""
  orElse harvested (labelPin tools label)

def counterRole (label : Label) : String :=
  if label.pinRole = "fixed" then "vulnerable" else "fixed"

/-- `_excerpt_language`: the record's, or the label's where the record's resolves nothing. -/
def excerptLanguage (record : FeatureRecord) (label : Label) (lines : List String)
    (function : String) : String :=
  let language := orElse record.language (orElse label.language "other")
  if lines ≠ [] && label.language ≠ "" && label.language ≠ language &&
      (tools.functionBounds lines language function).isNone then label.language
  else language

def sliceOf (span : Nat × Nat) (lines : List String) : List String :=
  (lines.take span.2).drop span.1

def BuildCall.shown (call : BuildCall) (label : Label) (record : FeatureRecord) : Option Excerpt :=
  let function := orElse ((call.functionOf label label.role).getD "") (functionName label.candidate)
  let identities := tools.identitiesOf label.repo (pathOf label.candidate) [label.pin]
  let lines := call.linesOf label label.role
  let matcher := excerptLanguage tools record label lines function
  let base := call.linesOf label (counterRole label)
  let diff :=
    if label.unit = "delta" && lines ≠ [] && base ≠ [] then
      match tools.functionBounds lines matcher function, tools.functionBounds base matcher function with
      | some head, some before =>
        some (tools.deltaDiff (sliceOf before base) (sliceOf head lines) matcher identities)
      | _, _ => none
    else none
  if lines = [] then none
  else tools.excerpt lines matcher function call.bounds identities diff

/-- `row_id` of an example. -/
def exampleId (label : Label) (pin : String) : String :=
  tools.sha256 ("\x00".intercalate ["example", "learn-memory", "build", label.repo, pin,
    label.candidate, label.family, label.unit, label.pinRole, label.sourceRef])

def BuildCall.row (call : BuildCall) (label : Label) (repo : String) (record : FeatureRecord)
    (shown : Excerpt) : Row :=
  let pin := call.pinOf tools label
  [("id", .str (exampleId tools label pin)), ("kind", .str "example"), ("repo", .str repo),
    ("pin", .str pin), ("run", .str "learn-memory"), ("task", .str "build"),
    ("population", .str label.source), ("split", .str (orElse label.split label.source)),
    ("image", .str "host"), ("candidate", .str label.candidate), ("family", .str label.family),
    ("language", .str (orElse record.language (orElse label.language "other"))),
    ("profile", .str call.profile.name), ("label", .int label.label), ("source", .str label.source),
    ("group", .str label.group),
    ("frameworks", (label.frameworks.map fun names => .arr (names.map .str)).getD .null),
    ("unit", .str label.unit), ("direction", (label.direction.map Json.str).getD .null),
    ("pin_role", .str label.pinRole), ("weight", .float label.weight),
    ("license", .str (call.licenseOf label)),
    ("x", .obj (profileX tools.features record.x call.profile)),
    ("instruments", .obj (record.instruments.filter fun entry => !isNull entry.2)),
    ("roles", .arr (call.rolesOf label)), ("excerpt_sha", .str shown.sha),
    ("label_set_digest", .str (tools.labelSetDigest call.labels))]

def BuildCall.addLabel (call : BuildCall) (build : MemoryBuild) (label : Label) :
    Except BuildError MemoryBuild :=
  if label.conditional.isSome || label.source = "assumed_benign" then
    .ok (build.skip "conditional label (condition not evaluated)")
  else
    match repoKey label.repo with
    | none => .error (.notRepository label.repo)
    | some repo =>
      let key := (repo, call.pinOf tools label, label.candidate, label.family, label.unit)
      match (call.records.lookup key).filter (·.profile = call.profile.name) with
      | none => .ok (build.count label.source fun c =>
          { c with labels := c.labels + 1, noRecord := c.noRecord + 1 })
      | some record =>
        match call.shown tools label record with
        | some shown =>
          .ok { build.count label.source fun c => { c with
              labels := c.labels + 1, recorded := c.recorded + 1, examples := c.examples + 1 } with
            rows := build.rows ++ [call.row tools label repo record shown] }
        | none =>
          .ok (build.count label.source fun c =>
            let c := { c with labels := c.labels + 1, recorded := c.recorded + 1 }
            if call.linesOf label label.role = [] then
              { c with unread := c.unread + 1, noExcerpt := c.noExcerpt + 1 }
            -- A function that is gone at the fix is a defect of the label.
            else if label.pinRole = "fixed" then
              { c with absentFixedSide := c.absentFixedSide + 1 }
            else { c with noExcerpt := c.noExcerpt + 1 })

def BuildCall.refuse (call : BuildCall) (label : Label) : Except BuildError Unit :=
  if label.origin = some "user" then .error (.userLabel label.candidate)
  else if label.source ∉ allowedSources call.sources then
    .error (.unknownSource label.source call.sources.path)
  else .ok ()

/-- `build_examples`, without its store. -/
def BuildCall.build (call : BuildCall) : Except BuildError MemoryBuild := do
  call.labels.forM call.refuse
  call.labels.foldlM (call.addLabel tools) {}

def BuildCall.stored (call : BuildCall) : Except BuildError (List Row) := do
  let build ← call.build tools
  match putRows (build.rows.map .obj) with
  | .error error => .error (.store error)
  | .ok _ => .ok build.rows

end Build

structure Example where
  id : String
  group : String
  source : String
  frameworks : List Json
  family : String
  label : Int
  language : String
  profile : Profile
  unit : String
  x : List (String × Json)
  instruments : List (String × Json)
  roles : List Json
  excerptSha : String
  license : String

def textOf (row : Row) (key : String) : Option String :=
  match row.lookup key with
  | some (.str value) => some value
  | _ => none

def intOf (row : Row) (key : String) : Option Int :=
  match row.lookup key with
  | some (.int value) => some value
  | _ => none

def objectOf (row : Row) (key : String) : Option (List (String × Json)) :=
  match row.lookup key with
  | some (.obj fields) => some fields
  | _ => none

def itemsOf (row : Row) (key : String) : List Json :=
  match row.lookup key with
  | some (.arr items) => items
  | _ => []

def profileOf (row : Row) : Option Profile :=
  [Profile.static, .plane].find? fun p => p.name = orElse (text row "profile") "static"

/-- `Example.from_row`; a row without the fields or of an unknown profile is refused. -/
def Example.fromRow (features : List FeatureSpec) (row : Row) : Option Example := do
  let source ← textOf row "source"
  let family ← textOf row "family"
  let label ← intOf row "label"
  let profile ← profileOf row
  let x ← objectOf row "x"
  let instruments ← objectOf row "instruments"
  let excerptSha ← textOf row "excerpt_sha"
  return {
    id := idOf row, group := text row "group", source
    frameworks := itemsOf row "frameworks", family, label
    language := orElse (text row "language") "other", profile
    unit := orElse (text row "unit") "pin", x := profileX features x profile
    instruments := instruments.filter fun entry => !isNull entry.2
    roles := itemsOf row "roles", excerptSha
    license := text row "license" }

/-- The example rows of a profile, or of all, as `load_examples` asks for them. -/
def wanted (profile : Option Profile) (row : Row) : Bool :=
  text row "kind" = "example" && profile.all fun p => text row "profile" = p.name

def loadExamples (features : List FeatureSpec) (b : Backend) (h : History)
    (profile : Option Profile) : Option (List Example) :=
  match h.rows b "" with
  | .error _ => none
  | .ok rows => (rows.filter (wanted profile)).mapM (Example.fromRow features)

def given (tools : Tools) (calls : List BuildCall) : List Row :=
  calls.flatMap fun call => ((call.stored tools).toOption).getD []

section Digest
variable (tools : Tools) (b : Backend) (sha256 : Bytes → String) (linesDigest : List Row → String)

def BuildCall.event (call : BuildCall) : Event :=
  .call (.put ((((call.build tools).toOption).map (·.rows)).getD [] |>.map .obj)) none

def memory (calls : List BuildCall) : History :=
  historyAt b sha256 linesDigest (calls.map (·.event tools))

end Digest

end OpenUltraSast.Learn.Examples
