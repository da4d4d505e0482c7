import OpenUltraSast.Obligations.Check

/-!
# Operations hidden behind another path

An operation is judged along the first record that ends at its function, so what
another record leaves open is reported only when the first one leaves it open too.
-/

namespace OpenUltraSast.Obligations

open List

namespace CheckInput

variable (input : CheckInput) (operation : Operation) (record : PathRecord)

inductive Reportable : DischargerKind → Prop where
  /-- A handler needs every kind it requires. -/
  | handler {missing : DischargerKind} (kind : input.handlerObligation operation)
      (required : missing ∈ input.required operation (some record))
      (absent : ¬ input.Discharged operation (some record) missing)
      (justified : (input.label operation (some record) true missing true).isSome) :
      Reportable missing
  /-- Any one of the required kinds would do, and none is there. -/
  | operation {missing : DischargerKind} (kind : ¬ input.handlerObligation operation)
      (absent : ∀ k ∈ input.required operation (some record),
        ¬ input.Discharged operation (some record) k)
      (named : input.pickMissing operation.handler (input.required operation (some record)) =
        some missing)
      (justified : (input.label operation (some record) true missing false).isSome) :
      Reportable missing
  /-- The siblings practice a kind beyond those required. -/
  | practiced {missing : DischargerKind}
      (anomaly : (input.anomalyAt operation.handler missing).isSome)
      (beyond : missing ∉ operation.requires)
      (obliged : ¬ input.waived operation (some record) missing)
      (absent : ¬ input.Discharged operation (some record) missing) : Reportable missing

theorem mem_operationFindings (hasPaths : Bool) (record : Option PathRecord)
    (missing : DischargerKind) :
    (∃ f ∈ input.operationFindings hasPaths operation record, f.missing = missing) ↔
      (missing ∈ input.missingKinds operation record ∧
        (input.label operation record hasPaths missing
          (input.handlerObligation operation)).isSome) ∨
      missing ∈ input.practicedKinds operation record := by
  have labelled : (∃ f ∈ input.operationFindings hasPaths operation record, f.missing = missing) ↔
      ∃ label, input.Finds operation record hasPaths missing label := by
    simp only [Finds]
    constructor
    · rintro ⟨f, member, named⟩
      exact ⟨f.label, f, member, named, rfl⟩
    · rintro ⟨_, f, member, named, _⟩
      exact ⟨f, member, named⟩
  rw [labelled]
  simp only [finds_iff, exists_or, exists_and_left, ← Option.isSome_iff_exists]
  refine or_congr Iff.rfl (and_iff_left_of_imp fun practiced => ?_)
  exact input.label_isSome_of_anomaly operation record _ _
    ((input.mem_practicedKinds operation record missing).mp practiced).1

theorem reportable_iff (missing : DischargerKind) :
    input.Reportable operation record missing ↔
      ∃ f ∈ input.operationFindings true operation (some record), f.missing = missing := by
  rw [mem_operationFindings]
  simp only [mem_practicedKinds, missingKinds, mem_dominatedKinds]
  constructor
  · intro reportable
    -- a handler must have each kind, an operation one of its kinds
    cases reportable with
    | handler kind required absent justified =>
      left
      simp only [kind, if_true, mem_filter, decide_eq_true_eq, mem_dominatedKinds]
      exact ⟨⟨required, absent⟩, justified⟩
    | operation kind absent named justified =>
      left
      -- no required kind dominates
      have none_dominates : (input.required operation (some record)).any
          (· ∈ input.dominatedKinds operation (some record)) = false := by
        simpa [mem_dominatedKinds] using absent
      simp only [kind, none_dominates, named]
      simpa using justified
    | practiced anomaly beyond obliged absent =>
      exact Or.inr ⟨anomaly, beyond, absent, obliged⟩
  · rintro (⟨missing_kind, justified⟩ | ⟨anomaly, beyond, absent, obliged⟩)
    · cases kind : input.handlerObligation operation with
      | true =>
        simp only [kind, if_true, mem_filter, decide_eq_true_eq, mem_dominatedKinds]
          at missing_kind justified
        exact .handler kind missing_kind.1 missing_kind.2 justified
      | false =>
        simp only [kind, Bool.false_eq_true, if_false] at missing_kind justified
        split at missing_kind
        next => cases missing_kind
        next none_dominates =>
          refine .operation (by simp [kind]) ?_ (by simpa using missing_kind) justified
          simpa [mem_dominatedKinds] using none_dominates
    · exact .practiced anomaly beyond obliged absent

def Reported (paths : List PathRecord) (missing : DischargerKind) : Prop :=
  ∃ f ∈ (checkObligations input paths).findings, f.key = operation.findingKey missing

/-- No reached operation hides behind another path: what some record leaves open is
reported, and the order of the records does not matter. -/
def NothingHides (paths : List PathRecord) : Prop :=
  (∀ operation ∈ input.operations, ∀ record ∈ paths, endsAt operation record →
    ∀ missing, input.Reportable operation record missing →
      input.Reported operation paths missing) ∧
  ∀ permuted, permuted.Perm paths → ∀ operation missing,
    input.Reported operation permuted missing ↔ input.Reported operation paths missing

/-- What one record leaves open at a place, every record that ends at one of the
functions with an operation at that place leaves open there. -/
def RecordsAgree (paths : List PathRecord) : Prop :=
  ∀ operation ∈ input.operations, ∀ record ∈ paths, endsAt operation record →
    ∀ missing, input.Reportable operation record missing →
      ∃ other ∈ input.operations, (∃ r ∈ paths, endsAt other r) ∧
        ∀ r ∈ paths, endsAt other r → ∃ same ∈ input.operations,
          same.handler = other.handler ∧
          same.findingKey missing = operation.findingKey missing ∧
          input.Reportable same r missing

theorem endsAt_iff (operation : Operation) (record : PathRecord) :
    endsAt operation record ↔ record.hops.getLast?.map (·.1) = some operation.handler := by
  cases h : record.hops.getLast? <;> simp [endsAt, h]

theorem endsAt_congr {operation other : Operation} (same : operation.handler = other.handler) :
    endsAt operation = endsAt other := by
  funext record
  rw [Bool.eq_iff_iff, endsAt_iff, endsAt_iff, same]

private theorem handler_eq_of_endsAt {operation other : Operation} {record : PathRecord}
    (ends : endsAt operation record) (ends' : endsAt other record) :
    operation.handler = other.handler := by
  rw [endsAt_iff] at ends ends'
  exact Option.some.inj (ends.symm.trans ends')

theorem operation_of_mem_operationFindings {hasPaths : Bool} {record : Option PathRecord}
    {f : ObligationFinding} (member : f ∈ input.operationFindings hasPaths operation record) :
    f.operation = operation := by
  simp only [operationFindings, finding, mem_append, mem_filterMap, Option.map_eq_some_iff]
    at member
  rcases member with ⟨_, _, _, _, rfl⟩ | ⟨_, _, _, _, rfl⟩ <;> rfl

theorem reported_iff {paths : List PathRecord} (nonempty : paths ≠ []) (missing : DischargerKind) :
    input.Reported operation paths missing ↔
      ∃ same ∈ input.operations, same.findingKey missing = operation.findingKey missing ∧
        ∃ record, paths.find? (endsAt same) = some record ∧
          input.Reportable same record missing := by
  have keys : input.Reported operation paths missing ↔
      operation.findingKey missing ∈
        (checkObligations input paths).findings.map ObligationFinding.key := by
    simp [Reported]
  rw [keys, checkObligations, Collections.key_mem_dedupeBy]
  simp only [reached, nonempty, if_false, mem_map, mem_flatMap, mem_filterMap,
    Option.map_eq_some_iff]
  constructor
  · rintro ⟨f, ⟨_, ⟨same, member, record, first, rfl⟩, found⟩, key⟩
    have place := input.operation_of_mem_operationFindings _ found
    simp only [ObligationFinding.key, place, Operation.findingKey, FindingKey.mk.injEq] at key
    obtain ⟨path, line, kind, rfl⟩ := key
    refine ⟨same, member, by simp [Operation.findingKey, path, line, kind], record, first, ?_⟩
    rw [reportable_iff]
    exact ⟨f, by simpa [nonempty] using found, rfl⟩
  · rintro ⟨same, member, key, record, first, reportable⟩
    rw [reportable_iff] at reportable
    obtain ⟨f, found, rfl⟩ := reportable
    refine ⟨f, ⟨_, ⟨same, member, record, first, rfl⟩, by simpa [nonempty] using found⟩, ?_⟩
    rw [ObligationFinding.key, input.operation_of_mem_operationFindings _ found, key]

theorem reported_of_recordsAgree {paths permuted : List PathRecord}
    (agree : input.RecordsAgree paths) (perm : permuted.Perm paths)
    {operation : Operation} (member : operation ∈ input.operations) {record : PathRecord}
    (among : record ∈ paths) (ends : endsAt operation record) {missing : DischargerKind}
    (reportable : input.Reportable operation record missing) :
    input.Reported operation permuted missing := by
  obtain ⟨other, _, ⟨r, r_among, r_ends⟩, every⟩ :=
    agree operation member record among ends missing reportable
  have found : (permuted.find? (endsAt other)).isSome :=
    List.find?_isSome.mpr ⟨r, perm.mem_iff.mpr r_among, r_ends⟩
  obtain ⟨first, first_eq⟩ := Option.isSome_iff_exists.mp found
  obtain ⟨same, same_member, handler, key, same_reportable⟩ :=
    every first (perm.mem_iff.mp (mem_of_find?_eq_some first_eq))
      (List.find?_some first_eq)
  rw [reported_iff _ _ (ne_nil_of_mem (perm.mem_iff.mpr among))]
  exact ⟨same, same_member, key, first, endsAt_congr handler ▸ first_eq, same_reportable⟩

private theorem exists_silent_order (paths : List PathRecord) (operation : Operation)
    (missing : DischargerKind)
    (silent : ∀ same ∈ input.operations, (∃ r ∈ paths, endsAt same r) →
      ∃ r ∈ paths, endsAt same r ∧ ∀ other ∈ input.operations, other.handler = same.handler →
        other.findingKey missing = operation.findingKey missing →
          ¬ input.Reportable other r missing) :
    ∃ permuted : List PathRecord, permuted.Perm paths ∧ ∀ same ∈ input.operations,
      same.findingKey missing = operation.findingKey missing → ∀ record,
        permuted.find? (endsAt same) = some record → ¬ input.Reportable same record missing := by
  classical
  let quiet : PathRecord → Bool := fun r => ∀ same ∈ input.operations, endsAt same r →
    same.findingKey missing = operation.findingKey missing → ¬ input.Reportable same r missing
  refine ⟨paths.filter quiet ++ paths.filter fun r => !quiet r,
    filter_append_perm quiet paths, ?_⟩
  intro same member key record first
  have among : record ∈ paths := by
    have := mem_of_find?_eq_some first
    simp only [mem_append, mem_filter] at this
    rcases this with ⟨h, _⟩ | ⟨h, _⟩ <;> exact h
  have ends : endsAt same record := List.find?_some first
  obtain ⟨r, r_among, r_ends, nothing⟩ := silent same member ⟨record, among, ends⟩
  have r_quiet : quiet r = true := by
    simp only [quiet, decide_eq_true_eq]
    intro other other_member other_ends other_key
    exact nothing other other_member (handler_eq_of_endsAt other_ends r_ends) other_key
  -- The first record that ends there is found among the quiet ones.
  have early : ((paths.filter quiet).find? (endsAt same)).isSome :=
    List.find?_isSome.mpr ⟨r, mem_filter.mpr ⟨r_among, r_quiet⟩, r_ends⟩
  obtain ⟨head, head_eq⟩ := Option.isSome_iff_exists.mp early
  rw [List.find?_append, head_eq, Option.some_or, Option.some.injEq] at first
  subst first
  have head_quiet := (mem_filter.mp (mem_of_find?_eq_some head_eq)).2
  simp only [quiet, decide_eq_true_eq] at head_quiet
  exact head_quiet same member ends key

/-- No operation hides behind another path exactly when the records that end at one
place agree on what is open there. -/
theorem nothingHides_iff_recordsAgree (paths : List PathRecord) :
    input.NothingHides paths ↔ input.RecordsAgree paths := by
  constructor
  · rintro ⟨reports, order⟩ operation member record among ends missing reportable
    by_contra hidden
    push Not at hidden
    obtain ⟨permuted, perm, silent⟩ := input.exists_silent_order paths operation missing
      fun same same_member reached => by
        obtain ⟨r, r_among, r_ends, nothing⟩ := hidden same same_member reached
        exact ⟨r, r_among, r_ends, nothing⟩
    have reported := (order permuted perm operation missing).mpr
      (reports operation member record among ends missing reportable)
    have nonempty : permuted ≠ [] := ne_nil_of_mem (perm.mem_iff.mpr among)
    rw [reported_iff _ _ nonempty] at reported
    obtain ⟨same, same_member, key, first, first_eq, same_reportable⟩ := reported
    exact silent same same_member key first first_eq same_reportable
  · intro agree
    refine ⟨fun operation member record among ends missing reportable =>
      input.reported_of_recordsAgree agree (List.Perm.refl _) member among ends reportable, ?_⟩
    intro permuted perm operation missing
    rcases eq_or_ne paths [] with rfl | nonempty
    · rw [perm_nil.mp perm]
    have nonempty' : permuted ≠ [] := fun h => nonempty (perm_nil.mp (h ▸ perm.symm))
    have carry : ∀ {here there : List PathRecord}, here ≠ [] → here.Perm paths →
        there.Perm paths → input.Reported operation here missing →
          input.Reported operation there missing := by
      intro here there here_nonempty here_perm there_perm reported
      rw [reported_iff _ _ here_nonempty] at reported
      obtain ⟨same, member, key, record, first, reportable⟩ := reported
      have := input.reported_of_recordsAgree agree there_perm member
        (here_perm.mem_iff.mp (mem_of_find?_eq_some first)) (List.find?_some first) reportable
      simpa only [Reported, key] using this
    exact ⟨carry nonempty' perm (List.Perm.refl _), carry nonempty (List.Perm.refl _) perm⟩

def twoEntries : CheckInput where
  irs := [("a.py", ⟨"a.py", "python",
    [⟨"safe_view", ["id"], 2, 3, [{ name := "load", line := 3 }], []⟩,
      ⟨"open_view", ["id"], 4, 5, [{ name := "load", line := 5 }], []⟩,
      ⟨"load", ["id"], 6, 7, [{ name := "Book.get", line := 7 }], []⟩], true, none⟩,
    ["@login_required", "def safe_view(id):", "    return load(id)", "def open_view(id):",
      "    return load(id)", "def load(id):", "    return Book.get(id)"])]
  entries := [⟨"a.py", some "safe_view", "/safe", "route", .authenticated, []⟩,
    ⟨"a.py", some "open_view", "/open", "route", .authenticated, []⟩]
  facts := ⟨[⟨"orm-get", .protectedRead, "python", ["Book.get"], none, [.pathGuard], .high, [], none,
      []⟩],
    [{ id := "login", kind := .pathGuard, language := "python", decorators := ["login_required"] }]⟩
  flowFacts := ⟨[]⟩
  policy := none
  dominance := CfgDominance.dominates ⟨fun _ => [], fun _ _ => []⟩
  storeShapes := []
  minSiblings := 3
  assumeEntriesProtected := true
  handlerMatches := fun _ _ => false

def safeRecord : PathRecord :=
  ⟨[("a.py::safe_view", some 3), ("a.py::load", none)], "a.py::safe_view", true⟩

def openRecord : PathRecord :=
  ⟨[("a.py::open_view", some 5), ("a.py::load", none)], "a.py::open_view", true⟩

def bookRead : Operation :=
  ⟨"a.py", 7, "load", .protectedRead, "orm-get", some "book", [.pathGuard]⟩

/-- The guarded record hides the open one. -/
theorem guarded_record_hides_open : ¬ twoEntries.NothingHides [safeRecord, openRecord] := by
  rintro ⟨reports, -⟩
  have open_reportable : twoEntries.Reportable bookRead openRecord .pathGuard := by
    rw [reportable_iff, mem_operationFindings]
    exact Or.inl ⟨by decide, by decide⟩
  obtain ⟨f, member, -⟩ := reports bookRead (by decide) openRecord (by decide) (by decide) _
    open_reportable
  have silent : (checkObligations twoEntries [safeRecord, openRecord]).findings.length = 0 := by
    decide
  rw [length_eq_zero_iff.mp silent] at member
  cases member

end CheckInput

end OpenUltraSast.Obligations
