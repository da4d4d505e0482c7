import OpenUltraSast.Obligations.Siblings

/-! # The declared policy: project-owned, closed -/

namespace OpenUltraSast.Obligations

structure PolicyResource where
  name : String
  sensitivity : Sensitivity
  identityField : Option String
deriving DecidableEq, Repr

def PolicyResource.clause (resource : PolicyResource) : String :=
  let field := match resource.identityField with
    | some field => if field = "" then "" else ", identity field " ++ field
    | none => ""
  "resource " ++ resource.name ++ " declared sensitivity " ++ resource.sensitivity.name ++ field

inductive RouteAccess where
  | isPublic
  | authenticated
  | role
deriving DecidableEq, Repr

def RouteAccess.name : RouteAccess → String
  | .isPublic => "public"
  | .authenticated => "authenticated"
  | .role => "role"

structure PolicyRoute where
  path : String
  access : RouteAccess
deriving DecidableEq, Repr

structure DeclaredPolicy where
  resources : List (String × PolicyResource)
  routes : List PolicyRoute
  versionHash : String

/-- Whether a character is in the set a glob bracket lists; `a-z` is a range. -/
def inBracket (c : Char) : List Char → Bool
  | low :: '-' :: high :: rest => (low ≤ c && c ≤ high) || inBracket c rest
  | x :: rest => c = x || inBracket c rest
  | [] => false

/-- The characters of a bracket and what follows it. A closing bracket in first place,
after the negation sign, belongs to the set. -/
def splitBracket (pattern : List Char) : Option (Bool × List Char × List Char) :=
  let negated := pattern.head? = some '!'
  let body := if negated then pattern.drop 1 else pattern
  let first := if body.head? = some ']' then 1 else 0
  let rest := (body.drop first).dropWhile (· ≠ ']')
  if rest = [] then none
  else some (negated, body.take first ++ (body.drop first).takeWhile (· ≠ ']'), rest.drop 1)

/-- `fnmatch.fnmatchcase`; the fuel bounds the length of the pattern and the text. -/
def globMatch : Nat → List Char → List Char → Bool
  | 0, _, _ => false
  | _ + 1, [], text => text = []
  | fuel + 1, '*' :: pattern, text =>
    globMatch fuel pattern text ||
      match text with
      | [] => false
      | _ :: rest => globMatch fuel ('*' :: pattern) rest
  | fuel + 1, p :: pattern, c :: text =>
    if p = '?' then globMatch fuel pattern text
    else
      match if p = '[' then splitBracket pattern else none with
      -- A set that is empty but for its negation sign matches every character.
      | some (negated, chars, after) => (inBracket c chars != negated) && globMatch fuel after text
      | none => p = c && globMatch fuel pattern text
  | _ + 1, _ :: _, [] => false

def fnmatchcase (text pattern : String) : Bool :=
  globMatch (text.length + pattern.length + 1) pattern.toList text.toList

/-- `route_access`: the first route that names the path or matches it. -/
def DeclaredPolicy.routeAccess (policy : DeclaredPolicy) (path : String) : Option RouteAccess :=
  (policy.routes.find? fun route => fnmatchcase path route.path || path = route.path).map (·.access)

def DeclaredPolicy.resource (policy : DeclaredPolicy) (token : String) : Option PolicyResource :=
  policy.resources.lookup token

example : fnmatchcase "/api/books/7" "/api/[a-z]*" = true := by decide

end OpenUltraSast.Obligations

/-!
## The obligation checker

An obligated operation is reported when it is reached and none of the dischargers it accepts
dominates it.
-/

namespace OpenUltraSast.Obligations

open Semantic List

/-- `LABELS`. -/
inductive Label where
  | declaredPolicyViolation
  | consistencyViolation
  | functionLocal
  | unguardedPath
deriving DecidableEq, Repr

structure ObligationFinding where
  operation : Operation
  missing : DischargerKind
  provenance : Option Provenance
  label : Label
  evidence : List String
  knownFix : Option String
  sensitivity : Sensitivity
  route : Option String

inductive Degradation where
  | languageUnsupported (language : String)
  | functionLocal (language : String) (files : List String)
  | storeRowInvalid (records : List String)
deriving DecidableEq, Repr

/-- A store row: its identifier and what its shape names. -/
structure StoreRecord where
  id : String
  operationKind : String
  dischargerKind : String

structure ObligationResult where
  findings : List ObligationFinding
  discharges : List Discharge
  siblingSets : List SiblingSet
  underPopulated : List (String × String)
  operations : Nat
  degradations : List Degradation
  policyVersion : Option String

/-- The arguments of `check_obligations` but the path records. -/
structure CheckInput where
  irs : List (String × FileIR × List String)
  entries : List EntryPoint
  facts : ObligationFacts
  flowFacts : SemanticFacts
  policy : Option DeclaredPolicy
  dominance : Dominance
  storeShapes : List StoreRecord
  minSiblings : Nat
  extraWitnesses : List Discharge := []
  assumeEntriesProtected : Bool := false
  handlersOf : Option (String → String → Option String) := none
  handlerMatches : HandlerSearch

def defIndex (lines : List String) (function : String) : Option Nat :=
  let blanks := Regex.plus (.char Text.isSpace)
  lines.findIdx? fun line =>
    ((Regex.seqs [.spaces, .opt (.seq (.lit "async") blanks), .alts [.lit "def", .lit "function"],
      blanks, .lit function, .boundary]).matchStart line).isSome

def routeLiteral : Regex :=
  .seqs [.lit "@", .word, .star (.char fun c => Regex.isWord c || c = '.'), .lit ".",
    .alts (["route", "get", "post", "put", "delete", "patch", "api_route", "websocket"].map
      Regex.lit), .lit "(", .spaces, .oneOf "'\"",
    .group 1 (.plus (.char fun c => c ≠ '\'' && c ≠ '"')), .oneOf "'\""]

/-- `_route_path`: the route literal in the decorators above the handler. -/
def routePath (operation : Operation) (lines : List String) : Option String :=
  (defIndex lines operation.function).bind fun index =>
    (((lines.take index).reverse.map strip).takeWhile (·.toList.head? = some '@')).findSome?
      fun decorator => (routeLiteral.search decorator).bind (·.group? 1)

/-- `_usable_shape`. -/
def StoreRecord.usable (record : StoreRecord) : Bool :=
  record.operationKind ≠ "" && record.dischargerKind ≠ ""

/-- `_known_fix`: the first usable row of the operation and discharger kinds. -/
def knownFix (operation : Operation) (missing : DischargerKind) (storeShapes : List StoreRecord) :
    Option String :=
  (storeShapes.find? fun record => record.usable && record.operationKind = operation.kind.name &&
    record.dischargerKind = missing.name).bind fun record =>
      if record.id = "" then none else some record.id

def factSensitivity (operation : Operation) (facts : ObligationFacts) : Sensitivity :=
  ((facts.operations.find? (·.id = operation.factId)).map (·.sensitivity)).getD .medium

namespace CheckInput

variable (input : CheckInput)

def operations : List Operation :=
  input.irs.flatMap fun (path, ir, lines) =>
    findOperations ir (input.facts.forLanguage ir.language) lines input.handlerMatches
      fun name => input.handlersOf.bind (· path name)

def witnesses : List Discharge :=
  input.extraWitnesses ++ input.irs.flatMap fun (_, ir, lines) =>
    findDischarges ir (input.facts.forLanguage ir.language)
      (input.flowFacts.forLanguage ir.language) lines input.entries

def siblingSets : List SiblingSet :=
  Obligations.siblingSets input.entries input.operations input.witnesses

def anomalies : List Anomaly := (consistencyAnomalies input.siblingSets input.minSiblings).1

/-- `anomaly_index`: the last anomaly of a handler and a missing kind. -/
def anomalyAt (handler : String) (kind : DischargerKind) : Option Anomaly :=
  input.anomalies.reverse.find? fun anomaly => anomaly.handler = handler && anomaly.missing = kind

/-- `entry_index`: the last entry of a node. -/
def entryAt (node : String) : Option EntryPoint := input.entries.reverse.find? (·.node = node)

def linesOf (path : String) : List String :=
  ((lastValue (input.irs.map fun (path, _, lines) => (path, lines)) path)).getD []

def relevant (witness : Discharge) (operation : Operation) : Bool :=
  witness.scope = .hop || sameFunction witness operation

/-- `_on_caller_hop`: the same dominance contract at the caller's outgoing call. -/
def onCallerHop (witness : Discharge) (record : Option PathRecord) (operation : Operation) : Bool :=
  let hops := (record.map (·.hops)).getD []
  -- The first hop of the witness's function decides.
  match hops.dropLast.find? (·.1 = witness.handler) with
  | none => false
  | some (_, callLine) =>
    witness.scope.wholeHandler ||
      match callLine with
      | none => false
      | some line =>
        (witness.kind = .pathGuard || witness.kind = .ownershipCheck) &&
          input.dominance witness
            { operation with path := witness.path, function := witness.function, line } none

def sameWitnesses (operation : Operation) (record : Option PathRecord) : List Discharge :=
  input.witnesses.filter fun w =>
    relevant w operation ||
      (input.assumeEntriesProtected && input.onCallerHop w record operation)

def dominatedKinds (operation : Operation) (record : Option PathRecord) : List DischargerKind :=
  ((input.sameWitnesses operation record).filter fun w =>
    validWitness w && input.dominance w operation record).map (·.kind)

def entryOf (record : Option PathRecord) : Option EntryPoint :=
  input.entryAt (((record.bind (·.hops.head?)).map (·.1)).getD "")

def routeOf (operation : Operation) (record : Option PathRecord) : Option String :=
  match routePath operation (input.linesOf operation.path), input.entryOf record with
  | none, some entry =>
    if input.assumeEntriesProtected && entry.name ≠ "" then some entry.name else none
  | found, _ => found

def declaredAccess (operation : Operation) (record : Option PathRecord) : Option RouteAccess :=
  input.policy.bind fun policy =>
    (input.routeOf operation record).bind fun route =>
      if route = "" then none else policy.routeAccess route

def waived (operation : Operation) (record : Option PathRecord) (kind : DischargerKind) : Bool :=
  kind = .pathGuard && input.declaredAccess operation record = some .isPublic

def required (operation : Operation) (record : Option PathRecord) : List DischargerKind :=
  operation.requires.filter fun kind => !input.waived operation record kind

def handlerObligation (operation : Operation) : Bool :=
  input.handlersOf.isSome &&
    input.facts.operations.any fun fact => fact.id = operation.factId && fact.handlers ≠ []

/-- The kind an open obligation is reported for: the first that the siblings practice,
else the first. -/
def pickMissing (handler : String) (required : List DischargerKind) : Option DischargerKind :=
  (required.find? fun kind => (input.anomalyAt handler kind).isSome).or required.head?

def missingKinds (operation : Operation) (record : Option PathRecord) : List DischargerKind :=
  let required := input.required operation record
  let dominated := input.dominatedKinds operation record
  if input.handlerObligation operation then required.filter (· ∉ dominated)
  else if required.any (· ∈ dominated) then []
  else (input.pickMissing operation.handler required).toList

def practicedKinds (operation : Operation) (record : Option PathRecord) : List DischargerKind :=
  let anomalous := (input.anomalies.filter (·.handler = operation.handler)).map (·.missing)
  (sortKinds (anomalous.filter (· ∉ operation.requires))).filter fun kind =>
    kind ∉ input.dominatedKinds operation record && !input.waived operation record kind

def resourceClause (operation : Operation) (missing : DischargerKind) : Option PolicyResource :=
  if missing = .identityConstraint || missing = .ownershipCheck then
    input.policy.bind (·.resource (operation.resource.getD ""))
  else none

def routeClause (operation : Operation) (record : Option PathRecord) (missing : DischargerKind) :
    Option RouteAccess :=
  if missing = .pathGuard then
    (input.declaredAccess operation record).filter (· ≠ .isPublic)
  else none

def entryPremise (operation : Operation) (record : Option PathRecord) (missing : DischargerKind)
    (handlerObligation : Bool) : Option EntryPoint :=
  (if input.assumeEntriesProtected then input.entryOf record else none).filter fun entry =>
    (entry.accessLevel ≠ .isPublic && input.declaredAccess operation record ≠ some .isPublic) ||
      (handlerObligation && missing ≠ .pathGuard)

def premiseEvidence (operation : Operation) (record : Option PathRecord)
    (missing : DischargerKind) (handlerObligation : Bool) (entry : EntryPoint) : List String :=
  ["entry " ++ entry.kind ++ ": " ++ entry.node] ++ entry.accessEvidence ++
    [if handlerObligation && (input.declaredAccess operation record = some .isPublic ||
        entry.accessLevel = .isPublic) then
      "no declared policy clause and no sibling norm; the handler fact requires " ++ missing.name ++
        "; public access waives only path_guard"
    else
      "no declared policy clause and no sibling norm; the prover assumes a recognised entry is protected"]

/-- The label of a missing kind and its evidence. With path records and without a clause,
a norm or a premise, nothing justifies the obligation. -/
def justify (hasPaths : Bool) (operation : Operation) (record : Option PathRecord)
    (missing : DischargerKind) (handlerObligation : Bool) : Option (Label × List String) :=
  let anomaly := input.anomalyAt operation.handler missing
  let siblings := (anomaly.map (·.siblings)).getD []
  match input.resourceClause operation missing with
  | some declared => some (.declaredPolicyViolation, declared.clause :: siblings)
  | none =>
    match input.routeClause operation record missing with
    | some access =>
      let route := (input.routeOf operation record).getD "None"
      some (.declaredPolicyViolation, ("route " ++ route ++ " declared " ++ access.name) :: siblings)
    | none =>
      match anomaly with
      | some anomaly =>
        some (.consistencyViolation,
          anomaly.siblings ++ anomaly.evidence.drop anomaly.siblings.length)
      | none =>
        if !hasPaths then some (.functionLocal, [])
        else
          (input.entryPremise operation record missing handlerObligation).map fun entry =>
            (.unguardedPath,
              input.premiseEvidence operation record missing handlerObligation entry)

def finding (hasPaths : Bool) (operation : Operation) (record : Option PathRecord)
    (handlerObligation : Bool) (missing : DischargerKind) : Option ObligationFinding :=
  (input.justify hasPaths operation record missing handlerObligation).map fun (label, evidence) =>
    let wrong := (input.sameWitnesses operation record).find? fun w =>
      w.kind = missing && !validWitness w
    let declared := input.policy.bind (·.resource (operation.resource.getD ""))
    { operation, missing, label, evidence
      provenance := wrong.map (·.provenance)
      knownFix := knownFix operation missing input.storeShapes
      sensitivity :=
        (declared.map (·.sensitivity)).getD (factSensitivity operation input.facts)
      route := input.routeOf operation record }

def operationFindings (hasPaths : Bool) (operation : Operation) (record : Option PathRecord) :
    List ObligationFinding :=
  (input.missingKinds operation record).filterMap
      (input.finding hasPaths operation record (input.handlerObligation operation)) ++
    (input.practicedKinds operation record).filterMap
      (input.finding hasPaths operation record false)

variable {missing : DischargerKind}

section
variable (operation : Operation) (record : Option PathRecord)

/-- A witness of the kind that is accepted, valid and dominates along the record. -/
def Discharged (kind : DischargerKind) : Prop :=
  ∃ w ∈ input.witnesses,
    (relevant w operation ∨
      input.assumeEntriesProtected ∧ input.onCallerHop w record operation) ∧
    w.kind = kind ∧ validWitness w ∧ input.dominance w operation record

theorem mem_dominatedKinds (kind : DischargerKind) :
    kind ∈ input.dominatedKinds operation record ↔
      input.Discharged operation record kind := by
  simp only [dominatedKinds, sameWitnesses, Discharged, mem_map, mem_filter,
    Bool.and_eq_true, Bool.or_eq_true]
  constructor
  · rintro ⟨w, ⟨⟨member, same⟩, valid, dominates⟩, rfl⟩
    exact ⟨w, member, same, rfl, valid, dominates⟩
  · rintro ⟨w, member, same, rfl, valid, dominates⟩
    exact ⟨w, ⟨⟨member, same⟩, valid, dominates⟩, rfl⟩

theorem anomalyAt_isSome (handler : String) (kind : DischargerKind) :
    (input.anomalyAt handler kind).isSome ↔
      ∃ a ∈ input.anomalies, a.handler = handler ∧ a.missing = kind := by
  simp [anomalyAt, List.find?_isSome]

theorem mem_practicedKinds (kind : DischargerKind) :
    kind ∈ input.practicedKinds operation record ↔
      (input.anomalyAt operation.handler kind).isSome ∧ kind ∉ operation.requires ∧
        kind ∉ input.dominatedKinds operation record ∧ ¬ input.waived operation record kind := by
  simp only [practicedKinds, sortKinds, anomalyAt_isSome, mem_filter,
    mem_insertionSort, mem_eraseDups, mem_map, Bool.and_eq_true,
    decide_eq_true_eq]
  constructor
  · rintro ⟨⟨⟨a, ⟨member, handler⟩, missing⟩, beyond⟩, absent, obliged⟩
    exact ⟨⟨a, member, handler, missing⟩, beyond, absent, by simpa using obliged⟩
  · rintro ⟨⟨a, member, handler, missing⟩, beyond, absent, obliged⟩
    exact ⟨⟨⟨a, ⟨member, handler⟩, missing⟩, beyond⟩, absent, by simpa using obliged⟩

def label (hasPaths : Bool) (missing : DischargerKind) (handlerObligation : Bool) : Option Label :=
  (input.justify hasPaths operation record missing handlerObligation).map (·.1)

def covered (missing : DischargerKind) : Bool :=
  (input.resourceClause operation missing).isSome ||
    (input.routeClause operation record missing).isSome

def premiseLabel (hasPaths : Bool) (missing : DischargerKind) (handlerObligation : Bool) :
    Option Label :=
  if !hasPaths then some .functionLocal
  else if (input.entryPremise operation record missing handlerObligation).isSome then
    some .unguardedPath
  else none

/-- A declared clause comes before a sibling norm, and a norm before any premise. -/
theorem label_eq (hasPaths : Bool) (missing : DischargerKind) (handlerObligation : Bool) :
    input.label operation record hasPaths missing handlerObligation =
      if input.covered operation record missing then some .declaredPolicyViolation
      else if (input.anomalyAt operation.handler missing).isSome then some .consistencyViolation
      else input.premiseLabel operation record hasPaths missing handlerObligation := by
  cases resource : input.resourceClause operation missing with
  | some declared => simp [label, justify, covered, resource]
  | none =>
    cases route : input.routeClause operation record missing with
    | some access => simp [label, justify, covered, resource, route]
    | none =>
      cases norm : input.anomalyAt operation.handler missing with
      | some anomaly => simp [label, justify, covered, resource, route, norm]
      | none =>
        cases hasPaths <;>
          cases premise : input.entryPremise operation record missing handlerObligation <;>
            simp [label, justify, covered, premiseLabel, resource, route, norm, premise]

theorem label_isSome_of_anomaly (hasPaths handlerObligation : Bool)
    (anomaly : (input.anomalyAt operation.handler missing).isSome) :
    (input.label operation record hasPaths missing handlerObligation).isSome := by
  rw [label_eq, anomaly]
  split <;> rfl

/-- The operation is reported along the record for the kind, under the label. -/
def Finds (hasPaths : Bool) (missing : DischargerKind) (label : Label) : Prop :=
  ∃ f ∈ input.operationFindings hasPaths operation record, f.missing = missing ∧ f.label = label

/-- A finding is of a required kind that is missing, or of one that its siblings practise. -/
theorem finds_iff (hasPaths : Bool) (missing : DischargerKind) (label : Label) :
    input.Finds operation record hasPaths missing label ↔
      (missing ∈ input.missingKinds operation record ∧
        input.label operation record hasPaths missing (input.handlerObligation operation) =
          some label) ∨
      (missing ∈ input.practicedKinds operation record ∧
        input.label operation record hasPaths missing false = some label) := by
  have named : ∀ (kinds : List DischargerKind) (obligation : Bool),
      (∃ f ∈ kinds.filterMap (input.finding hasPaths operation record obligation),
        f.missing = missing ∧ f.label = label) ↔
      missing ∈ kinds ∧
        input.label operation record hasPaths missing obligation = some label := by
    intro kinds obligation
    simp only [mem_filterMap, finding, CheckInput.label, Option.map_eq_some_iff]
    constructor
    · rintro ⟨f, ⟨kind, member, found, justified, rfl⟩, rfl, rfl⟩
      exact ⟨member, found, justified, rfl⟩
    · rintro ⟨member, found, justified, rfl⟩
      exact ⟨_, ⟨missing, member, found, justified, rfl⟩, rfl, rfl⟩
  simp only [Finds, operationFindings, mem_append, or_and_right, exists_or, named]

end

def endsAt (operation : Operation) (record : PathRecord) : Bool :=
  (record.hops.getLast?).any (·.1 = operation.handler)

/-- `_reached`: the operations and the record each is judged along. -/
def reached (paths : List PathRecord) : List (Operation × Option PathRecord) :=
  if paths = [] then
    (input.operations.filter fun op => (input.entries.map (·.node)).contains op.handler).map
      (·, none)
  else
    -- Only the first record that ends at the operation's function is kept.
    input.operations.filterMap fun op => (paths.find? (endsAt op)).map fun record => (op, some record)

def Verdict (operation : Operation) (paths : List PathRecord) (missing : DischargerKind)
    (label : Label) : Prop :=
  ∃ record, (operation, record) ∈ input.reached paths ∧
    input.Finds operation record (paths ≠ []) missing label

variable {paths : List PathRecord}

private theorem reached_unique {operation : Operation}
    {record record' : Option PathRecord} (here : (operation, record) ∈ input.reached paths)
    (there : (operation, record') ∈ input.reached paths) : record = record' := by
  simp only [reached] at here there
  split at here
  next none_ =>
    simp only [none_, if_true, mem_map, Prod.mk.injEq] at here there
    obtain ⟨_, -, -, rfl⟩ := here
    obtain ⟨_, -, -, rfl⟩ := there
    rfl
  next some_ =>
    simp only [some_, if_false, mem_filterMap, Option.map_eq_some_iff, Prod.mk.injEq]
      at here there
    obtain ⟨_, -, r, first, rfl, rfl⟩ := here
    obtain ⟨_, -, r', first', rfl, rfl⟩ := there
    rw [first] at first'
    rw [Option.some.inj first']

theorem verdict_iff_finds {input : CheckInput} {operation : Operation}
    {record : Option PathRecord} (reached : (operation, record) ∈ input.reached paths)
    {label : Label} :
    input.Verdict operation paths missing label ↔
      input.Finds operation record (paths ≠ []) missing label := by
  constructor
  · rintro ⟨record', reached', found⟩
    rw [input.reached_unique reached reached']
    exact found
  · exact fun found => ⟨record, reached, found⟩

def degradations (paths : List PathRecord) : List Degradation :=
  let unsupported := (input.irs.filter fun (_, ir, _) =>
    !ir.parseOk && ir.reason = some "language_unsupported").map fun (_, ir, _) => ir.language
  let located := input.operations.filterMap fun op =>
    (lastValue (input.irs.map fun (path, ir, _) => (path, ir.language)) op.path).map (·, op.path)
  let invalid := (input.storeShapes.filter (!·.usable)).map (·.id)
  unsupported.eraseDups.map .languageUnsupported ++
    (if paths = [] then
      (Collections.sortedSet (located.map (·.1))).map fun language =>
        .functionLocal language
          (Collections.sortedSet ((located.filter (·.1 = language)).map (·.2)))
    else []) ++
    if invalid = [] then [] else [.storeRowInvalid (invalid.insertionSort (· ≤ ·))]

end CheckInput

/-- What `_dedupe` compares: the place, the operation's kind and the missing kind. -/
structure FindingKey where
  path : String
  line : Nat
  kind : OperationKind
  missing : DischargerKind
deriving DecidableEq

def Operation.findingKey (operation : Operation) (missing : DischargerKind) : FindingKey :=
  ⟨operation.path, operation.line, operation.kind, missing⟩

def ObligationFinding.key (finding : ObligationFinding) : FindingKey :=
  finding.operation.findingKey finding.missing

def checkObligations (input : CheckInput) (paths : List PathRecord) : ObligationResult where
  findings := Collections.dedupeBy ObligationFinding.key
    ((input.reached paths).flatMap fun (operation, record) =>
      input.operationFindings (paths ≠ []) operation record)
  discharges := input.witnesses
  siblingSets := input.siblingSets
  underPopulated := (consistencyAnomalies input.siblingSets input.minSiblings).2
  operations := input.operations.length
  degradations := input.degradations paths
  policyVersion := input.policy.map (·.versionHash)

end OpenUltraSast.Obligations
