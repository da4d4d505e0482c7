import OpenUltraSast.Plane.Rows

/-!
# Ingested deliveries

The operations on a store determine what it holds: under an id the last row that was merged and
not removed since, and the facts that were put first and not dropped or decayed since. A
delivery that the index names is skipped, whatever happened to its rows after that entry.
-/

namespace OpenUltraSast.Plane.Memory

open Values Collections List

/-- The row that the operations, the last one first, left under an id. -/
def lastRow (key name : String) : List ObjectStep → Option Row
  | [] => none
  | .merge other rows :: earlier =>
    if other = key then ((lastWith name rows).map line).or (lastRow key name earlier)
    else lastRow key name earlier
  | .remove other ids :: earlier =>
    if other = key ∧ name ∈ ids then none else lastRow key name earlier
  | _ :: earlier => lastRow key name earlier

variable {rows : List Json} {pairs : List (String × Row)} {checked : List Row}

variable {s : Store} {steps : List ObjectStep} {facts : Option Bytes}

section Digest
variable (sha256 : Bytes → String) (linesDigest : List Row → String)

def factsLeft (sha : String) : List ObjectStep → Option Bytes
  | [] => none
  | .putFacts data :: earlier =>
    if sha = sha256 data then some ((factsLeft sha earlier).getD data) else factsLeft sha earlier
  | .check other :: earlier =>
    if sha = other then (factsLeft sha earlier).filter (sha256 · = other)
    else factsLeft sha earlier
  | .decay other data :: earlier => if sha = other then some data else factsLeft sha earlier
  | _ :: earlier => factsLeft sha earlier

def Recorded (run task digest : String) (log : List ObjectStep) : Prop :=
  ∃ entry, .record entry ∈ log ∧ entry.run = run ∧ entry.task = task ∧ entry.sha256 = digest

structure Agrees (h : History) : Prop where
  rows : ∀ key name, h.store.row key name = lastRow key name h.log
  facts : ∀ sha, h.store.facts sha = factsLeft sha256 sha h.log
  entries : ∀ entry, entry ∈ h.store.index ↔ .record entry ∈ h.log
  settled : ∀ key, ∀ row ∈ h.store.objects key, Settled row

def ObjectStep.IsNormal : ObjectStep → Prop
  | merge _ rows => ∀ row ∈ rows, Normal row
  | _ => True

variable {sha256 linesDigest}

/-- Each write of normal rows keeps the store in agreement with its log. -/
theorem agrees_step {log : List ObjectStep} {step : ObjectStep} (agrees : Agrees sha256 ⟨s, log⟩)
    (normal : step.IsNormal) : Agrees sha256 ⟨step.apply sha256 s, step :: log⟩ := by
  obtain ⟨rows, facts, entries, settled⟩ := agrees
  simp only at rows facts entries settled
  cases step with
  | putFacts data =>
    -- A present key keeps its content.
    have kept : ∀ sha, (ObjectStep.apply sha256 s (.putFacts data)).facts sha =
        factsLeft sha256 sha (.putFacts data :: log) := by
      intro sha
      rw [factsLeft, ← facts, ObjectStep.apply]
      by_cases here : sha = sha256 data
      · subst here
        cases present : s.facts (sha256 data) <;> simp [present]
      · by_cases present : (s.facts (sha256 data)).isSome = true <;> simp [here, present]
    have same : (ObjectStep.apply sha256 s (.putFacts data)).objects = s.objects ∧
        (ObjectStep.apply sha256 s (.putFacts data)).index = s.index := by
      rw [ObjectStep.apply]
      split <;> exact ⟨rfl, rfl⟩
    refine ⟨fun key name => ?_, kept, fun entry => ?_, fun key => ?_⟩
    · rw [Store.row, same.1]
      exact rows key name
    · rw [same.2, entries, mem_cons]
      simp
    · rw [same.1]
      exact settled key
  | merge key new =>
    refine ⟨fun other name => ?_, facts, fun entry => ?_, fun other => ?_⟩
    · rw [lastRow, ← rows, Store.row, ObjectStep.apply]
      by_cases here : other = key
      · subst here
        simp only [if_true]
        exact lastWith_mergeRows (settled other) new name
      · simp only [if_neg here, if_neg (Ne.symm here)]
        rfl
    · rw [ObjectStep.apply, entries, mem_cons]
      simp
    · by_cases here : other = key
      · simp only [ObjectStep.apply, here, if_true]
        exact settled_mergeRows (settled key) normal
      · simp only [ObjectStep.apply, if_neg here]
        exact settled other
  | remove key ids =>
    refine ⟨fun other name => ?_, facts, fun entry => ?_, fun other => ?_⟩
    · rw [lastRow, ← rows, Store.row, ObjectStep.apply]
      by_cases here : other = key
      · subst here
        simp only [if_true, true_and]
        exact lastWith_keepRows (settled other) ids name
      · simp only [if_neg here, Ne.symm here, false_and, if_false]
        rfl
    · rw [ObjectStep.apply, entries, mem_cons]
      simp
    · by_cases here : other = key
      · simp only [ObjectStep.apply, here, if_true]
        rw [keepRows_eq (settled key)]
        exact fun row member => settled key row (mem_of_mem_filter member)
      · simp only [ObjectStep.apply, if_neg here]
        exact settled other
  | check sha =>
    refine ⟨rows, fun other => ?_, fun entry => ?_, settled⟩
    · rw [factsLeft, ← facts, ObjectStep.apply]
      by_cases here : other = sha
      · subst here
        simp
      · simp [here]
    · rw [ObjectStep.apply, entries, mem_cons]
      simp
  | record entry =>
    refine ⟨rows, facts, fun other => ?_, settled⟩
    rw [ObjectStep.apply, mem_append, entries, mem_singleton, mem_cons, or_comm]
    simp
  | decay sha data =>
    refine ⟨rows, fun other => ?_, fun entry => ?_, settled⟩
    · rw [factsLeft, ← facts, ObjectStep.apply]
    · rw [ObjectStep.apply, entries, mem_cons]
      simp

variable {h : History}

theorem agrees_extend (agrees : Agrees sha256 h) (normal : ∀ step ∈ steps, step.IsNormal) :
    Agrees sha256 (h.extend sha256 steps) := by
  induction steps generalizing h with
  | nil => exact agrees
  | cons step steps ih =>
    have first : Agrees sha256 ⟨step.apply sha256 h.store, step :: h.log⟩ :=
      agrees_step agrees (normal step mem_cons_self)
    have rest := ih first fun later member => normal later (mem_cons_of_mem _ member)
    unfold History.extend at rest ⊢
    rw [reverse_cons, append_assoc]
    exact rest

theorem key_normaliseRow {row out : Row} (filled : normaliseRow row = .ok out) :
    out.key = row.key := by
  unfold Row.key text
  rw [lookup_normaliseRow filled (by decide), lookup_normaliseRow filled (by decide)]

theorem checkRow_ok {raw : Json} {pair : String × Row} (checked : checkRow raw = .ok pair) :
    ∃ row, validateRow raw = .ok row ∧ normaliseRow row = .ok pair.2 ∧
      row.key = some pair.1 := by
  unfold checkRow at checked
  cases valid : validateRow raw with
  | error => simp [valid, bind, Except.bind] at checked
  | ok row =>
    cases filled : normaliseRow row with
    | error => simp [valid, filled, bind, Except.bind] at checked
    | ok out =>
      cases keyed : out.key with
      | none => simp [valid, filled, keyed, bind, Except.bind] at checked
      | some key =>
        simp only [valid, filled, keyed, bind, Except.bind, Except.ok.injEq] at checked
        subst checked
        exact ⟨row, rfl, filled, (key_normaliseRow filled).symm.trans keyed⟩

def groupOf (pairs : List (String × Row)) (key : String) : List Row :=
  (pairs.filter (·.1 = key)).map (·.2)

def mergesOf (pairs : List (String × Row)) (keys : List String) : List ObjectStep :=
  keys.map fun key => .merge key (groupOf pairs key)

theorem putRows_ok (put : putRows rows = .ok steps) :
    ∃ pairs, rows.mapM checkRow = .ok pairs ∧
      steps = mergesOf pairs (sortedSet (pairs.map (·.1))) := by
  unfold putRows at put
  cases checked : rows.mapM checkRow with
  | error => simp [checked, bind, Except.bind] at put
  | ok pairs =>
    simp only [checked, bind, Except.bind, pure, Except.pure, Except.ok.injEq] at put
    exact ⟨pairs, rfl, put.symm⟩

theorem normal_mergesOf (checked : rows.mapM checkRow = .ok pairs) (keys : List String) :
    ∀ step ∈ mergesOf pairs keys, step.IsNormal := by
  intro step member
  obtain ⟨key, -, rfl⟩ := mem_map.mp member
  intro row grouped
  obtain ⟨pair, kept, rfl⟩ := mem_map.mp grouped
  obtain ⟨raw, -, source⟩ :=
    exists_left_of_forall₂ (mapM_eq_ok_iff.mp checked) (mem_of_mem_filter kept)
  obtain ⟨row, -, filled, -⟩ := checkRow_ok source
  exact normal_of_normaliseRow filled

theorem lastRow_mergesOf (pairs : List (String × Row)) (keys : List String) (key name : String)
    (log : List ObjectStep) :
    lastRow key name ((mergesOf pairs keys).reverse ++ log) =
      if key ∈ keys then ((lastWith name (groupOf pairs key)).map line).or (lastRow key name log)
      else lastRow key name log := by
  induction keys generalizing log with
  | nil => rfl
  | cons first keys ih =>
    rw [mergesOf, map_cons, reverse_cons, append_assoc]
    refine (ih _).trans ?_
    rw [singleton_append, lastRow]
    by_cases here : first = key
    · subst here
      -- The group of an object that comes twice is merged twice, with the same result.
      by_cases again : first ∈ keys
      · rw [if_pos again, if_pos rfl, if_pos mem_cons_self, ← Option.or_assoc, Option.or_self]
      · rw [if_neg again, if_pos rfl, if_pos mem_cons_self]
    · rw [if_neg here]
      simp [Ne.symm here]

theorem validateRow_ok {raw : Json} {row : Row} (valid : validateRow raw = .ok row) :
    raw = .obj row := by
  unfold validateRow at valid
  split at valid
  · simp only at valid
    split at valid
    · cases valid
    · split at valid
      · cases valid
      · split at valid
        · cases valid
        · cases valid
          rfl
  · cases valid

def ChecksTo (row : Row) (pair : String × Row) : Prop :=
  normaliseRow row = .ok pair.2 ∧ row.key = some pair.1

theorem checksTo_of_putRows (put : (checked.map Json.obj).mapM checkRow = .ok pairs) :
    List.Forall₂ ChecksTo checked pairs := by
  have each := forall₂_map_left_iff.mp (mapM_eq_ok_iff.mp put)
  apply forall₂_imp_mem each
  intro row pair member _ source
  obtain ⟨again, validAgain, filled, keyed⟩ := checkRow_ok source
  have same : again = row := Json.obj.inj (validateRow_ok validAgain).symm
  rw [same] at filled keyed
  exact ⟨filled, keyed⟩

theorem lastWith_groupOf (checks : List.Forall₂ ChecksTo checked pairs) {name : String} {row : Row}
    (last : lastWith name checked = some row) :
    ∃ key out, normaliseRow row = .ok out ∧ row.key = some key ∧ key ∈ pairs.map (·.1) ∧
      lastWith name (groupOf pairs key) = some out := by
  induction checks with
  | nil => cases last
  | @cons first pair checked pairs check checks ih =>
    rw [lastWith_cons] at last
    cases later : lastWith name checked with
    | some found =>
      rw [later] at last
      cases last
      obtain ⟨key, out, filled, keyed, member, grouped⟩ := ih later
      refine ⟨key, out, filled, keyed, mem_cons_of_mem _ member, ?_⟩
      unfold groupOf at grouped ⊢
      rw [filter_cons]
      split
      · rw [map_cons, lastWith_cons, grouped]
        rfl
      · exact grouped
    | none =>
      rw [later, Option.none_or] at last
      split at last
      next named =>
        cases last
        refine ⟨pair.1, pair.2, check.1, check.2, mem_cons_self, ?_⟩
        -- No later row of the group has the id.
        have absent : lastWith name (groupOf pairs pair.1) = none := by
          rw [Option.eq_none_iff_forall_ne_some]
          intro other lastOther
          obtain ⟨member, named⟩ := mem_of_lastWith lastOther
          obtain ⟨kept, among, rfl⟩ := mem_map.mp member
          obtain ⟨source, delivered, filled, -⟩ :=
            exists_left_of_forall₂ checks (mem_of_mem_filter among)
          rw [idOf_normaliseRow filled] at named
          have missing := List.find?_eq_none.mp later source (mem_reverse.mpr delivered)
          exact missing (by simpa using named)
        have kept : groupOf (pair :: pairs) pair.1 = pair.2 :: groupOf pairs pair.1 := by
          rw [groupOf, filter_cons, if_pos (by simp)]
          rfl
        rw [kept, lastWith_cons, absent, Option.none_or, idOf_normaliseRow check.1, if_pos named]
      next => cases last

theorem normal_of_putRows (put : putRows rows = .ok steps) : ∀ step ∈ steps, step.IsNormal := by
  obtain ⟨pairs, checked, rfl⟩ := putRows_ok put
  exact normal_mergesOf checked _

section Steps
variable {P : ObjectStep → Prop} (facts_ : ∀ data, P (.putFacts data))
  (merges : ∀ rows steps, putRows rows = .ok steps → ∀ step ∈ steps, P step)
  (entries : ∀ entry, P (.record entry))
include facts_ merges entries

private theorem ingestRows_all (s : Store) (run task now : String) (rows : List Json)
    (facts : Option Bytes) :
    ∀ step ∈ (ingestRows linesDigest s run task now rows facts).1, P step := by
  have kept : ∀ step ∈ (facts.map ObjectStep.putFacts).toList, P step := by
    intro step member
    obtain ⟨data, -, rfl⟩ := Option.map_eq_some_iff.mp (Option.mem_toList.mp member)
    exact facts_ data
  unfold ingestRows
  split
  next => exact nofun
  next checked _ =>
    simp only
    split
    next => exact nofun
    next =>
      split
      next => exact kept
      next steps put =>
        intro step member
        rcases mem_append.mp member with early | last
        · rcases mem_append.mp early with first | merge
          · exact kept step first
          · exact merges _ steps put step merge
        · rw [mem_singleton.mp last]
          exact entries _

theorem steps_all (removes : ∀ key ids, P (.remove key ids)) (checks : ∀ sha, P (.check sha))
    (s : Store) (call : Call) : ∀ step ∈ (call.steps sha256 linesDigest s).1, P step := by
  cases call with
  | ingest run task now rows facts =>
    exact ingestRows_all facts_ merges entries s run task now rows facts
  | put rows =>
    unfold Call.steps
    simp only
    split
    next => exact nofun
    next steps put => exact merges rows steps put
  | drop repo pin ids =>
    unfold Call.steps
    simp only
    split
    next => exact nofun
    next key _ =>
      intro step member
      rw [mem_singleton.mp member]
      exact removes key ids
  | getFacts sha =>
    intro step member
    rw [mem_singleton.mp member]
    exact checks sha

end Steps

theorem normal_steps (s : Store) (call : Call) :
    ∀ step ∈ (call.steps sha256 linesDigest s).1, step.IsNormal :=
  steps_all (fun _ => trivial) (fun _ _ put => normal_of_putRows put) (fun _ => trivial)
    (fun _ _ => trivial) (fun _ => trivial) s call

theorem event_steps_all {P : ObjectStep → Prop}
    (calls : ∀ call : Call, ∀ step ∈ (call.steps sha256 linesDigest s).1, P step)
    (decays : ∀ sha data, P (.decay sha data)) (event : Event) :
    ∀ step ∈ event.steps sha256 linesDigest s, P step := by
  intro step member
  cases event with
  | call c cut =>
    cases cut with
    | none => exact calls c step member
    | some n => exact calls c step (mem_of_mem_take member)
  | decay sha data =>
    rw [mem_singleton.mp member]
    exact decays sha data

theorem agrees_next (linesDigest : List Row → String) (agrees : Agrees sha256 h)
    (event : Event) :
    Agrees sha256 (h.next sha256 linesDigest event) :=
  agrees_extend agrees (event_steps_all (normal_steps h.store) (fun _ _ => trivial) event)

/-- Every history, whatever cuts its calls, leaves what its operations left. -/
theorem agrees_history (events : List Event) : Agrees sha256 (history sha256 linesDigest events) := by
  have kept : ∀ h, Agrees sha256 h →
      Agrees sha256 (events.foldl (History.next sha256 linesDigest) h) := by
    induction events with
    | nil => exact fun _ agrees => agrees
    | cons event events ih => exact fun h agrees => ih _ (agrees_next linesDigest agrees event)
  apply kept
  exact ⟨fun _ _ => rfl, fun _ => rfl, by simp, by simp⟩

theorem hasEntry_iff (agrees : Agrees sha256 h) (run task digest : String) :
    h.store.hasEntry run task digest = true ↔ Recorded run task digest h.log := by
  unfold Store.hasEntry Recorded
  rw [any_eq_true]
  constructor
  · rintro ⟨entry, member, named⟩
    refine ⟨entry, (agrees.entries entry).mp member, ?_⟩
    simpa [and_assoc] using named
  · rintro ⟨entry, member, named⟩
    refine ⟨entry, (agrees.entries entry).mpr member, ?_⟩
    simpa [and_assoc] using named

/-- The operations of an ingest that is not skipped, up to the entry. -/
def delivered (pairs : List (String × Row)) (facts : Option Bytes) : List ObjectStep :=
  (facts.map ObjectStep.putFacts).toList ++ mergesOf pairs (sortedSet (pairs.map (·.1)))

variable {run task now : String}

section
variable (valid : rows.mapM validateRow = .ok checked)
include valid

theorem ingestRows_returned {result : IngestResult}
    (returned : (ingestRows linesDigest s run task now rows facts).2 = .ingested result) :
    (s.hasEntry run task (rowsDigest linesDigest checked) = true ∧
      (ingestRows linesDigest s run task now rows facts).1 = []) ∨
    (s.hasEntry run task (rowsDigest linesDigest checked) = false ∧
      ∃ pairs, (checked.map Json.obj).mapM checkRow = .ok pairs ∧
        (ingestRows linesDigest s run task now rows facts).1 = delivered pairs facts ++
          [.record ⟨run, task, rowsDigest linesDigest checked, checked.length, now⟩]) := by
  unfold ingestRows at returned ⊢
  rw [valid] at returned ⊢
  simp only at returned ⊢
  split at returned
  next skipped =>
    rw [if_pos skipped]
    exact Or.inl ⟨skipped, rfl⟩
  next missing =>
    rw [if_neg missing]
    split at returned
    next => cases returned
    next merges put =>
      obtain ⟨pairs, each, rfl⟩ := putRows_ok put
      exact Or.inr ⟨by simpa using missing, pairs, each, rfl⟩

theorem ingestRows_fresh (missing : s.hasEntry run task (rowsDigest linesDigest checked) = false)
    (each : (checked.map Json.obj).mapM checkRow = .ok pairs) :
    (ingestRows linesDigest s run task now rows facts).1 = delivered pairs facts ++
      [.record ⟨run, task, rowsDigest linesDigest checked, checked.length, now⟩] := by
  have put : putRows (checked.map .obj) =
      .ok (mergesOf pairs (sortedSet (pairs.map (·.1)))) := by
    unfold putRows
    rw [each]
    rfl
  unfold ingestRows
  rw [valid]
  simp only [missing, put]
  rfl

theorem ingestRows_skipped (present : s.hasEntry run task (rowsDigest linesDigest checked) = true) :
    (ingestRows linesDigest s run task now rows facts).1 = [] := by
  unfold ingestRows
  rw [valid]
  simp only [present, if_true]

end

theorem lastRow_putFacts (key name : String) (facts : Option Bytes) (log : List ObjectStep) :
    lastRow key name ((facts.map ObjectStep.putFacts).toList.reverse ++ log) =
      lastRow key name log := by
  cases facts <;> rfl

theorem lastRow_delivered (pairs : List (String × Row)) (facts : Option Bytes)
    (key name : String) (log : List ObjectStep) :
    lastRow key name ((delivered pairs facts).reverse ++ log) =
      if key ∈ pairs.map (·.1) then
        ((lastWith name (groupOf pairs key)).map line).or (lastRow key name log)
      else lastRow key name log := by
  rw [delivered, reverse_append, append_assoc, lastRow_mergesOf, lastRow_putFacts]
  simp only [mem_sortedSet]

theorem lastRow_take_delivered (pairs : List (String × Row)) (facts : Option Bytes) (n : Nat)
    (key name : String) (log : List ObjectStep) :
    lastRow key name (((delivered pairs facts).take n).reverse ++ log) = lastRow key name log ∨
      key ∈ pairs.map (·.1) ∧
        lastRow key name (((delivered pairs facts).take n).reverse ++ log) =
          ((lastWith name (groupOf pairs key)).map line).or (lastRow key name log) := by
  have early : lastRow key name
      ((((facts.map ObjectStep.putFacts).toList).take n).reverse ++ log) = lastRow key name log := by
    cases facts with
    | none => simp
    | some data => cases n <;> simp [lastRow]
  rw [delivered, take_append, reverse_append, append_assoc, mergesOf,
    ← map_take, ← mergesOf, lastRow_mergesOf, early]
  split
  next member => exact Or.inr ⟨(mem_sortedSet _ _).mp (mem_of_mem_take member), rfl⟩
  next => exact Or.inl rfl

end Digest

end OpenUltraSast.Plane.Memory
