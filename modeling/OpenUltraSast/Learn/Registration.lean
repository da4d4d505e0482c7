import OpenUltraSast.Plane.Puts

/-!
# Registered experiments

Registering an experiment stores the digests of its manifest and of its units file under the commit
of the manifest.
-/

namespace OpenUltraSast.Learn.Registration

open Values Plane.Memory Collections List

/-- A manifest, as far as its registration reads it. -/
structure Manifest where
  id : String
  hypothesis : String
  kind : String
  arms : List String
  primary : List Json
  secondary : List Json
  mde : ℚ
  looks : List ℚ
  boundaries : List ℚ
  budgetTotalUsd : ℚ
  families : List String
  unitsFile : String
  path : String
  digest : String

inductive ExperimentError where
  | notCommitted (path : String)
  | unitsNotCommitted (path : String)
  | otherManifest (id registered digest : String)
  | otherUnits (id : String)
  | notRegistered (id : String)
  | manifestDiffers (path registered : String)
  | unitsAbsent (path : String)
  | unitsPending (id : String)
  | unitsDiffer (path : String)
  | rows (error : RowsError)
  | store (error : MemoryStoreError)

def experimentRepo (id : String) : String := "experiments/" ++ id

def isRegistration (row : Row) : Bool :=
  text row "kind" = "experiment" && text row "task" = "register"

def preferred (rows : List Row) : List Row :=
  let frozen := rows.filter fun row => text row "units_digest" ≠ ""
  if frozen.isEmpty then rows else frozen

/-- The rows by the date that they were created, where all say when, and by the commit. -/
def inOrder (rows : List Row) : List Row :=
  let byPin := rows.insertionSort fun row other => text row "pin" ≤ text other "pin"
  if byPin.all fun row => text row "created" ≠ "" then
    byPin.insertionSort fun row other => text row "created" ≤ text other "created"
  else byPin

/-- The registration that the others give way to. -/
def authoritative (rows : List Row) : Option Row := (inOrder (preferred rows)).getLast?

/-- The arguments of a registration: the manifest, its commit at HEAD, the units file where there is
one and whether it is committed, and the date. -/
structure RegisterCall where
  manifest : Manifest
  commit : Option String
  units : Option Bytes
  unitsCommitted : Bool
  created : String := ""

section Store
variable (b : Backend)

def registrations (h : History) (id : String) : Except RowsError (List Row) :=
  (h.rows b (experimentRepo id)).map fun rows => rows.filter isRegistration

def registered (h : History) (id : String) : Except ExperimentError (Option Row) :=
  match registrations b h id with
  | .error error => .error (.rows error)
  | .ok rows => .ok (authoritative rows)

section Digest
variable (sha256 : Bytes → String) (textSha256 : String → String)

def RegisterCall.unitsDigest (call : RegisterCall) : String := (call.units.map sha256).getD ""

def RegisterCall.row (call : RegisterCall) (commit : String) : Row :=
  let manifest := call.manifest
  let units := call.unitsDigest sha256
  [("id", .str (textSha256 ("\x00".intercalate
      ["experiment", "experiment-" ++ manifest.id, "register", manifest.id]))),
    ("kind", .str "experiment"), ("repo", .str (experimentRepo manifest.id)), ("pin", .str commit),
    ("run", .str ("experiment-" ++ manifest.id)), ("task", .str "register"),
    ("population", .str "experiments"), ("split", .str manifest.id), ("image", .str "host"),
    ("experiment", .str manifest.id), ("hypothesis", .str manifest.hypothesis),
    ("manifest_path", .str manifest.path), ("manifest_digest", .str manifest.digest),
    ("units_file", .str manifest.unitsFile), ("units_digest", .str units),
    ("units_status", .str (if units = "" then "pending" else "frozen")),
    ("arms", .arr ((manifest.arms.insertionSort (· ≤ ·)).map .str)),
    ("experiment_kind", .str manifest.kind), ("primary", .arr manifest.primary),
    ("secondary", .arr manifest.secondary), ("mde", .float manifest.mde),
    ("looks", .arr (manifest.looks.map .float)),
    ("boundaries", .arr (manifest.boundaries.map .float)),
    ("budget_total_usd", .float manifest.budgetTotalUsd),
    ("families", .arr (manifest.families.map .str)), ("created", .str call.created),
    ("status", .str "registered")]

def RegisterCall.agrees (call : RegisterCall) (previous : Row) : Except ExperimentError Unit :=
  if text previous "manifest_digest" ≠ call.manifest.digest then
    .error (.otherManifest call.manifest.id (text previous "manifest_digest") call.manifest.digest)
  else if text previous "units_digest" ≠ "" ∧
      text previous "units_digest" ≠ call.unitsDigest sha256 then
    .error (.otherUnits call.manifest.id)
  else .ok ()

def taken (row : Row) : Except ExperimentError Row :=
  match putRows [.obj row] with
  | .error error => .error (.store error)
  | .ok _ => .ok row

def RegisterCall.register (h : History) (call : RegisterCall) : Except ExperimentError Row :=
  match call.commit with
  | none => .error (.notCommitted call.manifest.path)
  | some commit =>
    if call.units.isSome && !call.unitsCommitted then
      .error (.unitsNotCommitted call.manifest.unitsFile)
    else do
      let previous ← registered b h call.manifest.id
      previous.elim (.ok ()) (call.agrees sha256)
      taken (call.row sha256 textSha256 commit)

def checkRegistered (h : History) (manifest : Manifest) (units : Option Bytes) (needUnits : Bool) :
    Except ExperimentError Row := do
  match ← registered b h manifest.id with
  | none => .error (.notRegistered manifest.id)
  | some row =>
    if text row "manifest_digest" ≠ manifest.digest then
      .error (.manifestDiffers manifest.path (text row "manifest_digest"))
    else if needUnits then
      match units with
      | none => .error (.unitsAbsent manifest.unitsFile)
      | some data =>
        if text row "units_digest" = "" then .error (.unitsPending manifest.id)
        else if sha256 data ≠ text row "units_digest" then .error (.unitsDiffer manifest.unitsFile)
        else .ok row
    else .ok row

variable (linesDigest : List Row → String)

def RegisterCall.next (h : History) (call : RegisterCall) : History :=
  match call.register b sha256 textSha256 h with
  | .error _ => h
  | .ok row => h.nextAt b sha256 linesDigest (putEvent [row])

def registerAll (calls : List RegisterCall) (h : History) : History :=
  calls.foldl (RegisterCall.next b sha256 textSha256 linesDigest) h

end Digest

end Store

structure OneQuestion (rows : List Row) : Prop where
  manifest : ∀ row ∈ rows, ∀ other ∈ rows,
    text row "manifest_digest" = text other "manifest_digest"
  units : ∀ row ∈ rows, ∀ other ∈ rows, text row "units_digest" ≠ "" →
    text other "units_digest" ≠ "" → text row "units_digest" = text other "units_digest"

theorem inOrder_perm (rows : List Row) : (inOrder rows).Perm rows := by
  unfold inOrder
  simp only
  split
  · exact (perm_insertionSort _ _).trans (perm_insertionSort _ _)
  · exact perm_insertionSort _ _

variable {rows : List Row} {h : History} {row : Row}

private theorem mem_preferred (member : row ∈ preferred rows) :
    row ∈ rows ∧ (text row "units_digest" = "" → ∀ other ∈ rows, text other "units_digest" = "") := by
  unfold preferred at member
  simp only at member
  split at member
  next empty =>
    rw [List.isEmpty_iff, filter_eq_nil_iff] at empty
    constructor
    · exact member
    · intro _ other inside
      simpa using empty other inside
  next =>
    obtain ⟨inside, frozen⟩ := mem_filter.mp member
    exact ⟨inside, fun pending => absurd pending (by simpa using frozen)⟩

theorem authoritative_spec (chosen : authoritative rows = some row) :
    row ∈ rows ∧ (text row "units_digest" = "" → ∀ other ∈ rows, text other "units_digest" = "") :=
  mem_preferred ((inOrder_perm _).mem_iff.mp (mem_of_getLast? chosen))

private theorem authoritative_eq_none (none_ : authoritative rows = none) : rows = [] := by
  have empty := List.getLast?_eq_none_iff.mp none_
  have nothing : preferred rows = [] := List.Perm.nil_eq (empty ▸ (inOrder_perm _)) |>.symm
  unfold preferred at nothing
  simp only at nothing
  split at nothing
  next => exact nothing
  next filled => exact absurd (List.isEmpty_iff.mpr nothing) filled

private theorem oneQuestion_cons {previous row : Row} (question : OneQuestion rows)
    (chosen : authoritative rows = some previous)
    (manifest : text previous "manifest_digest" = text row "manifest_digest")
    (units : text previous "units_digest" ≠ "" →
      text previous "units_digest" = text row "units_digest") : OneQuestion (row :: rows) := by
  obtain ⟨inside, pending⟩ := authoritative_spec chosen
  have own : ∀ other ∈ rows, text other "manifest_digest" = text row "manifest_digest" :=
    fun other member => (question.manifest other member previous inside).trans manifest
  -- A stored row with units means that the authoritative one has them.
  have ownUnits : ∀ other ∈ rows, text other "units_digest" ≠ "" →
      text other "units_digest" = text row "units_digest" := by
    intro other member frozen
    have some_ : text previous "units_digest" ≠ "" :=
      fun empty => frozen (pending empty other member)
    exact (question.units other member previous inside frozen some_).trans (units some_)
  constructor
  · intro first inFirst second inSecond
    rcases mem_cons.mp inFirst with rfl | old <;>
      rcases mem_cons.mp inSecond with rfl | oldSecond
    · rfl
    · exact (own second oldSecond).symm
    · exact own first old
    · exact question.manifest first old second oldSecond
  · intro first inFirst second inSecond frozen frozenSecond
    rcases mem_cons.mp inFirst with rfl | old <;>
      rcases mem_cons.mp inSecond with rfl | oldSecond
    · rfl
    · exact (ownUnits second oldSecond frozenSecond).symm
    · exact ownUnits first old frozen
    · exact question.units first old second oldSecond frozen frozenSecond

theorem OneQuestion.mono {others : List Row} (question : OneQuestion rows) (among : others ⊆ rows) :
    OneQuestion others := by
  constructor
  · exact fun row member other inside => question.manifest row (among member) other (among inside)
  · exact fun row member other inside => question.units row (among member) other (among inside)

section Digest
variable {b : Backend} {sha256 : Bytes → String} {textSha256 : String → String}
  {linesDigest : List Row → String}

variable (sha256 textSha256) in
private theorem text_readBack_row (call : RegisterCall) (commit : String) :
    text (readBack (call.row sha256 textSha256 commit)) "manifest_digest" = call.manifest.digest ∧
      text (readBack (call.row sha256 textSha256 commit)) "units_digest"
        = call.unitsDigest sha256 := by
  constructor
  · apply text_readBack
    simp [RegisterCall.row, lookup_cons]
  · apply text_readBack
    simp [RegisterCall.row, lookup_cons]

variable {call : RegisterCall}

private theorem agrees_ok {previous : Row}
    (ok : call.agrees sha256 previous = .ok ()) :
    text previous "manifest_digest" = call.manifest.digest ∧
      (text previous "units_digest" ≠ "" →
        text previous "units_digest" = call.unitsDigest sha256) := by
  unfold RegisterCall.agrees at ok
  split at ok
  · cases ok
  next manifest =>
    split at ok
    · cases ok
    next units =>
      constructor
      · exact not_not.mp manifest
      · intro frozen
        exact not_not.mp fun apart => units ⟨frozen, apart⟩

private theorem taken_ok {row out : Row} (ok : taken row = .ok out) : out = row := by
  unfold taken at ok
  split at ok <;> cases ok
  rfl

private theorem register_ok (ok : call.register b sha256 textSha256 h = .ok row) :
    ∃ commit rows, row = call.row sha256 textSha256 commit ∧
      registrations b h call.manifest.id = .ok rows ∧
      ∀ previous, authoritative rows = some previous → call.agrees sha256 previous = .ok () := by
  unfold RegisterCall.register at ok
  split at ok
  · cases ok
  next commit _ =>
    split at ok
    · cases ok
    · obtain ⟨found, listed, rest⟩ := bind_eq_ok_iff.mp ok
      obtain ⟨⟨⟩, agrees, put⟩ := bind_eq_ok_iff.mp rest
      unfold registered at listed
      cases rows : registrations b h call.manifest.id with
      | error error =>
        rw [rows] at listed
        cases listed
      | ok stored =>
        rw [rows] at listed
        cases listed
        refine ⟨commit, stored, taken_ok put, rfl, ?_⟩
        intro previous chosen
        rw [chosen] at agrees
        exact agrees

variable {id : String}

theorem mem_registrations (homed : Homed b sha256 h)
    (listed : registrations b h id = .ok rows) :
    ∃ dir, repoDir (experimentRepo id) = some dir ∧ ∀ row, row ∈ rows ↔
      (∃ place, b.lists ("repos/" ++ dir ++ "/") place = true ∧ row ∈ h.store.objects place) ∧
        isRegistration row = true := by
  unfold registrations at listed
  cases all : h.rows b (experimentRepo id) with
  | error error =>
    rw [all] at listed
    cases listed
  | ok stored =>
    rw [all] at listed
    cases listed
    have some_ : experimentRepo id ≠ "" := by
      rw [experimentRepo, ne_eq, String.append_eq_empty_iff]
      exact fun both => absurd both.1 (by decide)
    obtain ⟨dir, named, member⟩ := mem_rows homed some_ all
    exact ⟨dir, named, fun row => by rw [mem_filter, member]⟩

private theorem oneQuestion_next (homed : Homed b sha256 h) {after : List Row}
    (before : registrations b h call.manifest.id = .ok rows)
    (listed : registrations b (call.next b sha256 textSha256 linesDigest h) call.manifest.id
      = .ok after) (question : OneQuestion rows) : OneQuestion after := by
  unfold RegisterCall.next at listed
  cases ok : call.register b sha256 textSha256 h with
  | error error =>
    rw [ok] at listed
    cases before.symm.trans listed
    exact question
  | ok row =>
    rw [ok] at listed
    obtain ⟨commit, stored, rfl, again, agrees⟩ := register_ok ok
    cases before.symm.trans again
    obtain ⟨manifest, units⟩ := text_readBack_row sha256 textSha256 call commit
    set new := readBack (call.row sha256 textSha256 commit)
    obtain ⟨dir, named, member⟩ := mem_registrations homed before
    obtain ⟨dirAfter, namedAfter, memberAfter⟩ := mem_registrations (homed_nextAt linesDigest homed _) listed
    cases named.symm.trans namedAfter
    -- The registrations afterwards are the ones before, and the new one.
    have among : after ⊆ new :: rows := by
      intro other inside
      obtain ⟨⟨place, shown, held⟩, isOne⟩ := (memberAfter other).mp inside
      rcases mem_put homed held with old | ⟨given, member_, rfl⟩
      · exact mem_cons_of_mem _ ((member other).mpr ⟨⟨place, shown, old⟩, isOne⟩)
      · rw [mem_singleton.mp member_]
        exact mem_cons_self
    cases chosen : authoritative rows with
    | none =>
      have empty := authoritative_eq_none chosen
      subst empty
      apply OneQuestion.mono _ among
      constructor
      · intro first inFirst second inSecond
        rw [mem_singleton.mp inFirst, mem_singleton.mp inSecond]
      · intro first inFirst second inSecond _ _
        rw [mem_singleton.mp inFirst, mem_singleton.mp inSecond]
    | some previous =>
      obtain ⟨sameManifest, sameUnits⟩ := agrees_ok (agrees previous chosen)
      apply OneQuestion.mono _ among
      apply oneQuestion_cons question chosen
      · rw [manifest, sameManifest]
      · intro frozen
        rw [units, sameUnits frozen]

variable (sha256 textSha256 linesDigest) in
private theorem registrations_ok_next (call : RegisterCall)
    (before : registrations b h id = .ok rows) :
    ∃ after, registrations b (call.next b sha256 textSha256 linesDigest h) id = .ok after := by
  unfold RegisterCall.next
  split
  · exact ⟨rows, before⟩
  · unfold registrations at before ⊢
    cases listed : h.rows b (experimentRepo id) with
    | error error =>
      rw [listed] at before
      cases before
    | ok stored =>
      obtain ⟨after, listedAfter⟩ := rows_ok_put listed
      rw [listedAfter]
      exact ⟨_, rfl⟩

private theorem homed_next (homed : Homed b sha256 h) (call : RegisterCall) :
    Homed b sha256 (call.next b sha256 textSha256 linesDigest h) := by
  unfold RegisterCall.next
  split
  · exact homed
  · exact homed_nextAt linesDigest homed _

variable (textSha256 linesDigest) in
private theorem oneQuestion_registerAll {calls : List RegisterCall}
    (same : ∀ call ∈ calls, call.manifest.id = id) (homed : Homed b sha256 h)
    (before : registrations b h id = .ok rows) (question : OneQuestion rows) :
    ∃ after, registrations b (registerAll b sha256 textSha256 linesDigest calls h) id = .ok after ∧
      OneQuestion after := by
  induction calls generalizing h rows with
  | nil => exact ⟨rows, before, question⟩
  | cons call calls ih =>
    obtain ⟨next, listed⟩ := registrations_ok_next sha256 textSha256 linesDigest call before
    have id_ := same call mem_cons_self
    subst id_
    exact ih (fun later member => same later (mem_cons_of_mem _ member))
      (homed_next homed call) listed (oneQuestion_next homed before listed question)

structure Answers (sha256 : Bytes → String) (rows : List Row) (manifest : Manifest)
    (units : Option Bytes) (needUnits : Bool) : Prop where
  manifest : ∀ row ∈ rows, text row "manifest_digest" = manifest.digest
  units : needUnits = true → ∃ data, units = some data ∧
    (∃ row ∈ rows, text row "units_digest" = sha256 data) ∧
    ∀ row ∈ rows, text row "units_digest" ≠ "" → text row "units_digest" = sha256 data

/-- A check that passes has found the digests that were registered. -/
theorem answers_of_checkRegistered {manifest : Manifest} {units : Option Bytes} {needUnits : Bool}
    (listed : registrations b h manifest.id = .ok rows) (question : OneQuestion rows)
    (ok : checkRegistered b sha256 h manifest units needUnits = .ok row) :
    Answers sha256 rows manifest units needUnits := by
  unfold checkRegistered registered at ok
  rw [listed] at ok
  obtain ⟨found, one, checked⟩ := bind_eq_ok_iff.mp ok
  cases one
  -- the check reads one row only, the authoritative one
  cases chosen : authoritative rows with
  | none =>
    rw [chosen] at checked
    cases checked
  | some row =>
    obtain ⟨inside, -⟩ := authoritative_spec chosen
    rw [chosen] at checked
    simp only at checked
    split at checked
    · cases checked
    next same =>
      constructor
      · -- the other rows carry the same manifest digest
        intro other member
        exact (question.manifest other member row inside).trans (not_not.mp same)
      · intro needed
        rw [if_pos needed] at checked
        cases units with
        | none => cases checked
        | some data =>
          simp only at checked
          split at checked
          · cases checked
          next frozen =>
            split at checked
            · cases checked
            next equal =>
              -- a frozen row that carries units carries those of the authoritative one
              have own := (not_not.mp equal).symm
              refine ⟨data, rfl, ⟨row, inside, own⟩, ?_⟩
              intro other member some_
              exact (question.units other member row inside some_ frozen).trans own

/-- After any registrations of one experiment, on a store that had none, they carry one manifest
digest and at most one units digest, and a check that succeeds is of a manifest, and of the units
file where it needs one, with those digests. -/
theorem registered_question_fixed (events : List Event) {id : String} {calls : List RegisterCall}
    (same : ∀ call ∈ calls, call.manifest.id = id)
    (fresh : registrations b (historyAt b sha256 linesDigest events) id = .ok []) :
    let h := registerAll b sha256 textSha256 linesDigest calls (historyAt b sha256 linesDigest events)
    ∃ rows, registrations b h id = .ok rows ∧ OneQuestion rows ∧
      ∀ (manifest : Manifest) units needUnits row, manifest.id = id →
        checkRegistered b sha256 h manifest units needUnits = .ok row →
        Answers sha256 rows manifest units needUnits := by
  intro h
  have nothing : OneQuestion [] := by
    constructor
    · intro row member
      cases member
    · intro row member
      cases member
  obtain ⟨rows, listed, question⟩ :=
    oneQuestion_registerAll textSha256 linesDigest same (homed_historyAt events) fresh nothing
  refine ⟨rows, listed, question, ?_⟩
  rintro manifest units needUnits row rfl ok
  exact answers_of_checkRegistered listed question ok

end Digest

def question : Manifest where
  id := "question"
  hypothesis := "B is better"
  kind := "program"
  arms := ["A", "B"]
  primary := []
  secondary := []
  mde := 0
  looks := [1]
  boundaries := [2]
  budgetTotalUsd := 0
  families := ["injection"]
  unitsFile := "units.jsonl"
  path := "question.yaml"
  digest := "manifest"

def frozenCall : RegisterCall where
  manifest := question
  commit := some pinned
  units := some [1]
  unitsCommitted := true

def registeredOnce : History :=
  registerAll .bucket contentName id idNames [frozenCall] (historyAt .bucket contentName idNames [])

/-- The registration before there are units, under a commit of one digit. -/
def pendingCall (digit : Char) : RegisterCall where
  manifest := question
  commit := some (String.ofList (List.replicate 40 digit))
  units := none
  unitsCommitted := false
  created := "2026-10-01"

/-- A changed manifest is refused, the units file is added, an edited one is refused, and the question
is registered again. -/
def fiveCalls : List RegisterCall :=
  [pendingCall 'a', { pendingCall 'b' with manifest := { question with digest := "edited" } },
    { pendingCall 'c' with units := some [1], unitsCommitted := true, created := "2026-10-02" },
    { pendingCall 'd' with units := some [2], unitsCommitted := true, created := "2026-10-03" },
    { pendingCall 'e' with units := some [1], unitsCommitted := true, created := "2026-10-04" }]

theorem registered_question_fixed_thrice :
    let h := registerAll .bucket contentName id idNames fiveCalls
      (historyAt .bucket contentName idNames [])
    ∃ rows, registrations .bucket h "question" = .ok rows ∧
      rows.map (fun row => ((text row "pin").toList.head?, text row "units_digest")) =
        [(some 'a', ""), (some 'c', contentName [1]), (some 'e', contentName [1])] ∧
      OneQuestion rows ∧ ∀ (manifest : Manifest) units needUnits row, manifest.id = "question" →
        checkRegistered .bucket contentName h manifest units needUnits = .ok row →
        Answers contentName rows manifest units needUnits := by
  intro h
  have none_ : (registrations .bucket (historyAt .bucket contentName idNames []) "question").toOption.map
      List.length = some 0 := by decide +kernel
  have fresh : registrations .bucket (historyAt .bucket contentName idNames []) "question" = .ok [] := by
    cases listed : registrations .bucket (historyAt .bucket contentName idNames []) "question" with
    | error error =>
      rw [listed] at none_
      cases none_
    | ok rows =>
      rw [listed] at none_
      rw [length_eq_zero_iff.mp (Option.some.inj none_)]
  have one : ∀ call ∈ fiveCalls, call.manifest.id = "question" := by decide
  obtain ⟨rows, listed, fixed⟩ :=
    @registered_question_fixed .bucket contentName id idNames [] "question" fiveCalls one fresh
  have shown : (registrations .bucket h "question").toOption.map (·.map fun row =>
      ((text row "pin").toList.head?, text row "units_digest")) =
        some [(some 'a', ""), (some 'c', contentName [1]), (some 'e', contentName [1])] := by
    decide +kernel
  rw [listed] at shown
  exact ⟨rows, listed, Option.some.inj shown, fixed⟩

/-- A check that does not need the units passes with a units file of another digest. -/
theorem check_passes_other_units : ∃ row,
    checkRegistered .bucket contentName registeredOnce question (some [2]) false = .ok row ∧
      text row "units_digest" ≠ "" ∧ text row "units_digest" ≠ contentName [2] := by
  have units : (checkRegistered .bucket contentName registeredOnce question (some [2])
      false).toOption.map (fun row => text row "units_digest") = some (contentName [1]) := by
    decide +kernel
  cases ok : checkRegistered .bucket contentName registeredOnce question (some [2]) false with
  | error error =>
    rw [ok] at units
    cases units
  | ok row =>
    rw [ok] at units
    have digest : text row "units_digest" = contentName [1] := Option.some.inj units
    refine ⟨row, rfl, ?_⟩
    rw [digest]
    decide +kernel

end OpenUltraSast.Learn.Registration
