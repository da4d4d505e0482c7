import OpenUltraSast.Library.Runs
import OpenUltraSast.Plane.IngestedRows

/-!
# Writers of one store

Clients that each run one call on a store, in turns. A turn reads an object or writes one whole;
no write looks whether the object is still the one that was read. `ingest_rows` reads the index
at its start and writes it at its end.
-/

namespace OpenUltraSast.Plane.Memory.Writers

open Values Collections List Option

variable {ι : Type} [DecidableEq ι]

/-- An operation on the object as it was read: `_put` of what follows from it. -/
def write (sha256 : Bytes → String) (read s : Store) : ObjectStep → Store
  | .merge key rows => { s with
      objects := fun other => if other = key then mergeRows (read.objects key) rows else s.objects other }
  | .record entry => { s with index := read.index ++ [entry] }
  | .putFacts data =>
    if (read.facts (sha256 data)).isSome then s
    else { s with facts := fun sha => if sha = sha256 data then some data else s.facts sha }
  | step => step.apply sha256 s

/-- Where the call of a client is: the store as it began, the store as it read the next object if
it did, and the operations it has done and has left. -/
inductive Phase where
  | idle
  | working (opened : Store) (read : Option Store) (done rest : List ObjectStep)
  | returned (opened : Store) (done : List ObjectStep)

namespace Phase

def done : Phase → List ObjectStep
  | idle => []
  | working _ _ done _ => done
  | returned _ done => done

def rest : Phase → List ObjectStep
  | idle => []
  | working _ _ _ rest => rest
  | returned _ _ => []

def isReturned : Phase → Bool
  | returned _ _ => true
  | _ => false

def opened : Phase → Option Store
  | idle => none
  | working opened _ _ _ => some opened
  | returned opened _ => some opened

end Phase

structure State (ι : Type) where
  store : Store
  phase : ι → Phase

def State.go (s : State ι) (c : ι) (new : Phase) : State ι :=
  { s with phase := fun other => if other = c then new else s.phase other }

def State.hold (s : State ι) (store : Store) : State ι := { s with store }

section Digest
variable (sha256 : Bytes → String) (linesDigest : List Row → String) (calls : ι → Call)

/-- The next turn of a client. -/
def step (c : ι) (s : State ι) : Option (State ι) :=
  match s.phase c with
  | .idle => some (s.go c (.working s.store none [] ((calls c).steps sha256 linesDigest s.store).1))
  | .working opened _ done (.record entry :: rest) =>
    let after := s.hold (write sha256 opened s.store (.record entry))
    some (after.go c (.working opened none (done ++ [.record entry]) rest))
  | .working opened none done (op :: rest) =>
    some (s.go c (.working opened (some s.store) done (op :: rest)))
  | .working opened (some read) done (op :: rest) =>
    some ((s.hold (write sha256 read s.store op)).go c (.working opened none (done ++ [op]) rest))
  | .working opened _ done [] => some (s.go c (.returned opened done))
  | .returned _ _ => none

/-- `put_rows` or `ingest_rows`. -/
def IsWriter : Call → Prop
  | .put _ | .ingest .. => True
  | _ => False

/-- No call has begun on a store that earlier calls left. -/
def Start (s : State ι) : Prop :=
  (∃ events, s.store = (history sha256 linesDigest events).store) ∧ ∀ c, s.phase c = .idle

end Digest

deriving instance DecidableEq for Entry

/-- Whether what the next write replaces is what it was made from. -/
def finds (s : State ι) (c : ι) : Bool :=
  match s.phase c with
  | .working _ (some read) _ (.merge key _ :: _) => s.store.objects key = read.objects key
  | .working opened _ _ (.record _ :: _) => s.store.index = opened.index
  | _ => true

/-- No write replaces what its client has not read. -/
def Orderly (s : State ι) (c : ι) : Prop := finds s c = true

def rowsOf : Call → List Json
  | .put rows => rows
  | .ingest _ _ _ rows _ => rows
  | _ => []

/-- The row that some rows leave under an object and an id: the last one with that id. -/
def written (rows : List Json) (key name : String) : Option Row :=
  match rows.mapM checkRow with
  | .ok pairs => (lastWith name (groupOf pairs key)).map line
  | .error _ => none

def writes : Outcome → Bool
  | .stored => true
  | .ingested result => !result.skipped
  | _ => false

variable {op : ObjectStep}

section Digest
variable (sha256 : Bytes → String) (linesDigest : List Row → String) (calls : ι → Call)

/-- A call that was neither skipped nor refused. -/
def Wrote (s : State ι) (c : ι) : Prop :=
  ∃ opened, (s.phase c).opened = some opened ∧
    writes ((calls c).steps sha256 linesDigest opened).2 = true

/-- Each row that a call wrote is in the store, or that of another call under its id; and each
ingest has its entry. -/
structure Complete (s : State ι) : Prop where
  rows : ∀ c, Wrote sha256 linesDigest calls s c → ∀ key name,
    (written (rowsOf (calls c)) key name).isSome → (s.store.row key name).isSome ∧
      ∃ other, Wrote sha256 linesDigest calls s other ∧
        s.store.row key name = written (rowsOf (calls other)) key name
  entries : ∀ c opened run task now rows facts result checked,
    (s.phase c).opened = some opened → calls c = .ingest run task now rows facts →
    ((calls c).steps sha256 linesDigest opened).2 = .ingested result →
    rows.mapM validateRow = .ok checked →
    s.store.hasEntry run task (rowsDigest linesDigest checked) = true

variable {sha256 linesDigest calls}

/-- An operation of `put_rows` or `ingest_rows`. -/
def IsWrite : ObjectStep → Prop
  | .putFacts _ | .merge _ _ | .record _ => True
  | _ => False

theorem isWrite_putRows {rows : List Json} {steps : List ObjectStep}
    (put : putRows rows = .ok steps) : ∀ op ∈ steps, IsWrite op := by
  obtain ⟨pairs, -, rfl⟩ := putRows_ok put
  intro op member
  obtain ⟨key, -, rfl⟩ := mem_map.mp member
  trivial

variable {call : Call}

private theorem isWrite_steps (writer : IsWriter call) (s : Store) :
    ∀ op ∈ (call.steps sha256 linesDigest s).1, IsWrite op := by
  cases call with
  | put rows =>
    unfold Call.steps
    simp only
    split
    · exact nofun
    next merges put => exact isWrite_putRows put
  | ingest run task now rows facts =>
    have kept : ∀ op ∈ (facts.map ObjectStep.putFacts).toList, IsWrite op := by
      intro op member
      obtain ⟨data, -, rfl⟩ := map_eq_some_iff.mp (mem_toList.mp member)
      trivial
    unfold Call.steps ingestRows
    simp only
    split
    · exact nofun
    split
    · exact nofun
    split
    · exact kept
    next merges put =>
    intro op member
    rcases mem_append.mp member with early | last
    · rcases mem_append.mp early with first | merge
      · exact kept op first
      · exact isWrite_putRows put op merge
    · rw [mem_singleton.mp last]
      trivial
  | drop repo pin ids => exact writer.elim
  | getFacts sha => exact writer.elim

theorem go_self (s : State ι) (c : ι) (new : Phase) : (s.go c new).phase c = new := if_pos rfl

theorem go_of_ne (s : State ι) {c other : ι} (new : Phase) (apart : other ≠ c) :
    (s.go c new).phase other = s.phase other := if_neg apart

variable {c : ι}

private theorem step_cases {s next : State ι}
    (taken : step sha256 linesDigest calls c s = some next) :
    (s.phase c = .idle ∧ next =
      s.go c (.working s.store none [] ((calls c).steps sha256 linesDigest s.store).1)) ∨
    (∃ opened new, (s.phase c).opened = some opened ∧ next = s.go c new ∧
      new.opened = some opened ∧ new.done = (s.phase c).done ∧ new.rest = (s.phase c).rest) ∨
    (∃ opened seen read done op rest, s.phase c = .working opened seen done (op :: rest) ∧
      ((∃ entry, op = .record entry ∧ read = opened) ∨
        (seen = some read ∧ ∀ entry, op ≠ .record entry)) ∧
      next = (s.hold (write sha256 read s.store op)).go c
        (.working opened none (done ++ [op]) rest)) := by
  unfold step at taken
  split at taken
  next idle =>
    cases taken
    exact .inl ⟨idle, rfl⟩
  -- the record of the call itself needs no read
  next opened seen done entry rest working =>
    cases taken
    exact .inr (.inr ⟨opened, seen, opened, done, _, rest, working, .inl ⟨entry, rfl, rfl⟩, rfl⟩)
  -- the turn reads
  next opened done op rest other working =>
    cases taken
    refine .inr (.inl ⟨opened, _, ?_, rfl, rfl, ?_, ?_⟩)
    · rw [working]
      rfl
    · rw [working]
      rfl
    · rw [working]
      rfl
  -- the turn writes
  next opened read done op rest other working =>
    cases taken
    refine .inr (.inr ⟨opened, _, read, done, op, rest, working, .inr ⟨rfl, ?_⟩, rfl⟩)
    exact fun entry same => other entry same
  -- the turn returns
  next opened seen done working =>
    cases taken
    refine .inr (.inl ⟨opened, _, ?_, rfl, rfl, ?_, ?_⟩)
    · rw [working]
      rfl
    · rw [working]
      rfl
    · rw [working]
      rfl
  next => cases taken

variable (sha256 linesDigest calls) in
structure Kept (s : State ι) : Prop where
  settled : ∀ key, ∀ row ∈ s.store.objects key, Settled row
  split : ∀ c opened, (s.phase c).opened = some opened →
    ((calls c).steps sha256 linesDigest opened).1 = (s.phase c).done ++ (s.phase c).rest
  rows : ∀ c key new name, .merge key new ∈ (s.phase c).done → (lastWith name new).isSome →
    ∃ other merged row, .merge key merged ∈ (s.phase other).done ∧
      lastWith name merged = some row ∧ s.store.row key name = some (line row)
  entries : ∀ c entry, .record entry ∈ (s.phase c).done → entry ∈ s.store.index
  grown : ∀ c opened, (s.phase c).opened = some opened → opened.index ⊆ s.store.index

theorem Kept.go {s : State ι} (kept : Kept sha256 linesDigest calls s) {new : Phase}
    {opened : Store} (opens : new.opened = some opened) (done : new.done = (s.phase c).done)
    (split : ((calls c).steps sha256 linesDigest opened).1 = new.done ++ new.rest)
    (grown : opened.index ⊆ s.store.index) : Kept sha256 linesDigest calls (s.go c new) := by
  have same (other : ι) : ((s.go c new).phase other).done = (s.phase other).done := by
    by_cases here : other = c
    · rw [here, go_self, done]
    · rw [go_of_ne s new here]
  refine ⟨kept.settled, fun other seen is => ?_, ?_, fun other entry => ?_, fun other seen is => ?_⟩
  · by_cases here : other = c
    · subst here
      rw [go_self] at is ⊢
      rw [opens] at is
      cases is
      exact split
    · rw [go_of_ne s new here] at is ⊢
      exact kept.split other seen is
  · simp only [same]
    exact kept.rows
  · rw [same]
    exact kept.entries other entry
  · by_cases here : other = c
    · subst here
      rw [go_self, opens] at is
      cases is
      exact grown
    · rw [go_of_ne s new here] at is
      exact kept.grown other seen is

variable (sha256) in
private theorem write_eq {read s : Store}
    (objects : ∀ key rows, op = .merge key rows → s.objects key = read.objects key)
    (index : ∀ entry, op = .record entry → s.index = read.index) :
    (write sha256 read s op).objects = (op.apply sha256 s).objects ∧
      (write sha256 read s op).index = (op.apply sha256 s).index := by
  cases op with
  | merge key rows =>
    rw [write, ← objects key rows rfl]
    exact ⟨rfl, rfl⟩
  | record entry =>
    rw [write, ← index entry rfl]
    exact ⟨rfl, rfl⟩
  | putFacts data =>
    rw [write, ObjectStep.apply]
    split <;> split <;> exact ⟨rfl, rfl⟩
  | _ => exact ⟨rfl, rfl⟩

variable {s : Store}

variable (sha256) in
theorem row_apply (writes : IsWrite op) (settled : ∀ key, ∀ row ∈ s.objects key, Settled row)
    (key name : String) :
    (∃ new row, op = .merge key new ∧ lastWith name new = some row ∧
      (op.apply sha256 s).row key name = some (line row)) ∨
    ((op.apply sha256 s).row key name = s.row key name ∧
      ∀ new, op = .merge key new → lastWith name new = none) := by
  cases op with
  | merge other new =>
    by_cases here : key = other
    · subst here
      -- the merge puts the last new line of the name, or keeps the stored one
      have after : (ObjectStep.apply sha256 s (.merge key new)).row key name =
          ((lastWith name new).map line).or (s.row key name) := by
        unfold Store.row
        rw [ObjectStep.apply]
        simp only [if_true]
        exact lastWith_mergeRows (settled key) new name
      cases last : lastWith name new with
      | some row =>
        rw [last] at after
        exact .inl ⟨new, row, rfl, last, after⟩
      | none =>
        rw [last] at after
        refine .inr ⟨after, fun merged same => ?_⟩
        cases same
        exact last
    · -- another key is untouched by the merge
      refine .inr ⟨?_, fun merged same => ?_⟩
      · unfold Store.row
        rw [ObjectStep.apply]
        simp only [if_neg here]
      · cases same
        exact absurd rfl here
  | putFacts data =>
    -- facts live beside the objects
    refine .inr ⟨?_, fun merged same => by cases same⟩
    unfold Store.row
    rw [ObjectStep.apply]
    split <;> rfl
  | record entry => exact .inr ⟨rfl, fun merged same => by cases same⟩
  | remove key ids => exact writes.elim
  | check sha => exact writes.elim
  | decay sha data => exact writes.elim

private theorem settled_apply (writes : IsWrite op) (normal : op.IsNormal)
    (settled : ∀ key, ∀ row ∈ s.objects key, Settled row) :
    ∀ key, ∀ row ∈ (op.apply sha256 s).objects key, Settled row := by
  cases op with
  | merge other new =>
    intro key
    rw [ObjectStep.apply]
    by_cases here : key = other
    · simp only [if_pos here]
      exact settled_mergeRows (settled other) normal
    · simp only [if_neg here]
      exact settled key
  | putFacts data =>
    rw [ObjectStep.apply]
    split <;> exact settled
  | record entry => exact settled
  | remove key ids => exact writes.elim
  | check sha => exact writes.elim
  | decay sha data => exact writes.elim

theorem Kept.write {s : State ι} (kept : Kept sha256 linesDigest calls s) {opened read : Store}
    {seen : Option Store} {done rest : List ObjectStep}
    (working : s.phase c = .working opened seen done (op :: rest)) (writes : IsWrite op)
    (normal : op.IsNormal)
    (objects : ∀ key rows, op = .merge key rows → s.store.objects key = read.objects key)
    (index : ∀ entry, op = .record entry → s.store.index = read.index) :
    Kept sha256 linesDigest calls ((s.hold (Writers.write sha256 read s.store op)).go c
      (.working opened none (done ++ [op]) rest)) := by
  obtain ⟨sameObjects, sameIndex⟩ := write_eq sha256 objects index
  generalize held : Writers.write sha256 read s.store op = store at sameObjects sameIndex
  have sameRow (key name : String) : store.row key name = (op.apply sha256 s.store).row key name := by
    unfold Store.row
    rw [sameObjects]
  -- The index only grows.
  have grows : s.store.index ⊆ store.index := by
    rw [sameIndex]
    cases op with
    | record entry => exact subset_append_left _ _
    | putFacts data =>
      rw [ObjectStep.apply]
      split <;> exact List.Subset.refl _
    | _ => exact List.Subset.refl _
  have dones (other : ι) : ((((s.hold store).go c (.working opened none (done ++ [op]) rest)).phase
      other).done) = if other = c then done ++ [op] else (s.phase other).done := by
    by_cases here : other = c
    · rw [here, go_self, if_pos rfl]
      rfl
    · rw [go_of_ne _ _ here, if_neg here]
      rfl
  have before : (s.phase c).done = done := by rw [working, Phase.done]
  -- What a client had done it still has done.
  have stays {other : ι} {step : ObjectStep} (member : step ∈ (s.phase other).done) :
      step ∈ if other = c then done ++ [op] else (s.phase other).done := by
    split
    next here =>
      rw [here, before] at member
      exact mem_append_left _ member
    next => exact member
  have fresh {other : ι} {step : ObjectStep}
      (member : step ∈ if other = c then done ++ [op] else (s.phase other).done) :
      step ∈ (s.phase other).done ∨ step = op := by
    split at member
    next here =>
      rw [here, before]
      exact (mem_append.mp member).imp_right mem_singleton.mp
    next => exact .inl member
  have opens (other : ι) (store' : Store)
      (is : (((s.hold store).go c (.working opened none (done ++ [op]) rest)).phase
        other).opened = some store') : (s.phase other).opened = some store' := by
    by_cases here : other = c
    · rw [here, go_self] at is
      rw [here, working]
      exact is
    · rwa [go_of_ne _ _ here] at is
  refine ⟨fun key row member => ?_, fun other store' is => ?_, fun other key new name member some => ?_,
    fun other entry member => ?_, fun other store' is => ?_⟩
  · change row ∈ store.objects key at member
    rw [sameObjects] at member
    exact settled_apply writes normal kept.settled key row member
  · have split := kept.split other store' (opens other store' is)
    by_cases here : other = c
    · subst here
      rw [split, go_self, working]
      simp [Phase.done, Phase.rest]
    · rw [split, go_of_ne _ _ here]
      rfl
  · rw [dones] at member
    rcases row_apply sha256 writes kept.settled key name with
      ⟨merged, row, rfl, last, now⟩ | ⟨now, free⟩
    · refine ⟨c, merged, row, ?_, last, (sameRow key name).trans now⟩
      rw [dones, if_pos rfl]
      exact mem_append_right _ (mem_singleton_self _)
    · rcases fresh member with old | own
      · obtain ⟨another, merged, row, there, last, stored⟩ := kept.rows other key new name old some
        refine ⟨another, merged, row, ?_, last, ?_⟩
        · rw [dones]
          exact stays there
        · exact (sameRow key name).trans (now.trans stored)
      · rw [free new own.symm] at some
        cases some
  · rw [dones] at member
    change entry ∈ store.index
    rcases fresh member with old | own
    · exact grows (kept.entries other entry old)
    · rw [sameIndex, ← own]
      exact mem_append_right _ (mem_singleton_self _)
  · exact List.Subset.trans (kept.grown other store' (opens other store' is)) grows

/-- Each orderly step keeps what the writers have written. -/
theorem kept_step (writers : ∀ c, IsWriter (calls c)) {s next : State ι}
    (kept : Kept sha256 linesDigest calls s) (orderly : Orderly s c)
    (taken : step sha256 linesDigest calls c s = some next) :
    Kept sha256 linesDigest calls next := by
  rcases step_cases taken with ⟨idle, rfl⟩ | ⟨opened, new, opens, rfl, still, done, rest⟩ |
    ⟨opened, seen, read, done, op, rest, working, from_, rfl⟩
  · have split : ((calls c).steps sha256 linesDigest s.store).1 =
        (s.phase c).done ++ ((calls c).steps sha256 linesDigest s.store).1 := by
      rw [idle]
      rfl
    have done : (s.phase c).done = [] := by
      rw [idle]
      rfl
    rw [done] at split
    exact kept.go rfl done.symm split (List.Subset.refl _)
  · refine kept.go still done ?_ (kept.grown c opened opens)
    rw [done, rest]
    exact kept.split c opened opens
  · have split := kept.split c opened (by rw [working]; rfl)
    have member : op ∈ ((calls c).steps sha256 linesDigest opened).1 := by
      rw [split, working]
      exact mem_append_right _ mem_cons_self
    rw [Orderly, finds, working] at orderly
    refine kept.write working (isWrite_steps (writers c) opened op member)
      (normal_steps opened (calls c) op member) ?_ ?_
    · rintro key rows rfl
      rcases from_ with ⟨entry, same, -⟩ | ⟨rfl, -⟩
      · cases same
      · exact of_decide_eq_true orderly
    · rintro entry rfl
      rcases from_ with ⟨_, _, rfl⟩ | ⟨-, other⟩
      · cases seen <;> exact of_decide_eq_true orderly
      · exact absurd rfl (other entry)

omit [DecidableEq ι] in
theorem kept_start {s : State ι} (start : Start sha256 linesDigest s) :
    Kept sha256 linesDigest calls s := by
  obtain ⟨⟨events, held⟩, idle⟩ := start
  have agrees : Agrees sha256 (history sha256 linesDigest events) := agrees_history events
  constructor
  case settled =>
    rw [held]
    exact agrees.settled
  case split =>
    intro c opened opens
    rw [idle] at opens
    cases opens
  case rows =>
    intro c key new name member
    rw [idle] at member
    exact absurd member not_mem_nil
  case entries =>
    intro c entry member
    rw [idle] at member
    exact absurd member not_mem_nil
  case grown =>
    intro c opened opens
    rw [idle] at opens
    cases opens

theorem rows_of_validated {rows : List Json} {checked : List Row}
    (valid : rows.mapM validateRow = .ok checked) : checked.map .obj = rows := by
  have each := mapM_eq_ok_iff.mp valid
  induction each with
  | nil => rfl
  | @cons raw row rows checked first each ih =>
    rw [map_cons, ih (mapM_eq_ok_iff.mpr each), validateRow_ok first]

private theorem merges_steps (writer : IsWriter call)
    (wrote : writes (call.steps sha256 linesDigest s).2 = true) :
    ∃ pairs, (rowsOf call).mapM checkRow = .ok pairs ∧ ∀ key ∈ pairs.map (·.1),
      .merge key (groupOf pairs key) ∈ (call.steps sha256 linesDigest s).1 := by
  have grouped (pairs : List (String × Row)) (key : String) (there : key ∈ pairs.map (·.1)) :
      .merge key (groupOf pairs key) ∈ mergesOf pairs (sortedSet (pairs.map (·.1))) :=
    mem_map_of_mem ((mem_sortedSet _ _).mpr there)
  cases call with
  | put rows =>
    cases put : putRows rows with
    | error error =>
      simp only [Call.steps, put] at wrote
      -- what was refused writes nothing
      cases wrote
    | ok merges =>
      obtain ⟨pairs, checked, rfl⟩ := putRows_ok put
      refine ⟨pairs, checked, fun key there => ?_⟩
      simp only [Call.steps, put]
      exact grouped pairs key there
  | ingest run task now rows facts =>
    change writes (ingestRows linesDigest s run task now rows facts).2 = true at wrote
    change ∃ pairs, _ ∧ ∀ key ∈ pairs.map (·.1),
      .merge key (groupOf pairs key) ∈ (ingestRows linesDigest s run task now rows facts).1
    cases valid : rows.mapM validateRow with
    | error error =>
      rw [ingestRows, valid] at wrote
      cases wrote
    | ok checked =>
      rw [ingestRows, valid] at wrote ⊢
      simp only at wrote ⊢
      split at wrote
      · cases wrote
      next missing =>
      rw [if_neg missing]
      split at wrote
      · cases wrote
      next merges put =>
      obtain ⟨pairs, each, rfl⟩ := putRows_ok put
      rw [rows_of_validated valid] at each
      refine ⟨pairs, each, fun key there => ?_⟩
      exact mem_append_left _ (mem_append_right _ (grouped pairs key there))
  | drop repo pin ids => exact writer.elim
  | getFacts sha => exact writer.elim

private theorem of_merge_mem {key : String} {new : List Row}
    (writer : IsWriter call) (member : .merge key new ∈ (call.steps sha256 linesDigest s).1) :
    writes (call.steps sha256 linesDigest s).2 = true ∧
      ∃ pairs, (rowsOf call).mapM checkRow = .ok pairs ∧ new = groupOf pairs key := by
  -- each merge is that of the rows of its key
  have grouped {pairs : List (String × Row)} {keys : List String}
      (member : .merge key new ∈ mergesOf pairs keys) : new = groupOf pairs key := by
    obtain ⟨other, -, same⟩ := mem_map.mp member
    cases same
    rfl
  cases call with
  | put rows =>
    cases put : putRows rows with
    | error error =>
      simp only [Call.steps, put] at member
      cases member
    | ok merges =>
      obtain ⟨pairs, checked, rfl⟩ := putRows_ok put
      simp only [Call.steps, put] at member ⊢
      exact ⟨rfl, pairs, checked, grouped member⟩
  | ingest run task now rows facts =>
    change .merge key new ∈ (ingestRows linesDigest s run task now rows facts).1 at member
    change writes (ingestRows linesDigest s run task now rows facts).2 = true ∧ _
    cases valid : rows.mapM validateRow with
    | error error =>
      rw [ingestRows, valid] at member
      cases member
    | ok checked =>
      rw [ingestRows, valid] at member ⊢
      simp only at member ⊢
      split at member
      · cases member
      next missing =>
      -- the facts are put by another step, which is no merge
      have notFacts : .merge key new ∉ (facts.map ObjectStep.putFacts).toList := by
        intro there
        obtain ⟨data, -, same⟩ := map_eq_some_iff.mp (mem_toList.mp there)
        cases same
      rw [if_neg missing]
      split at member
      · exact absurd member notFacts
      next merges put =>
      obtain ⟨pairs, each, rfl⟩ := putRows_ok put
      rw [rows_of_validated valid] at each
      refine ⟨rfl, pairs, each, ?_⟩
      rcases mem_append.mp member with early | last
      · exact grouped ((mem_append.mp early).resolve_left notFacts)
      · cases mem_singleton.mp last
  | drop repo pin ids => exact writer.elim
  | getFacts sha => exact writer.elim

/-- Whatever the turns of the clients: if each write finds its object as it was read, what every
call wrote is in the store once all of them have returned. -/
theorem writers_lose_nothing (writers : ∀ c, IsWriter (calls c)) {first last : State ι}
    {turns : List ι} (start : Start sha256 linesDigest first)
    (orderly : Runs.Meets (step sha256 linesDigest calls) Orderly turns first)
    (ran : Runs.run (step sha256 linesDigest calls) turns first = some last)
    (returned : ∀ c, (last.phase c).isReturned = true) :
    Complete sha256 linesDigest calls last := by
  have kept : Kept sha256 linesDigest calls last :=
    Runs.run_invariant (fun _ _ _ kept orderly taken => kept_step writers kept orderly taken)
      (kept_start start) orderly ran
  have ends (c : ι) : ∃ opened done, last.phase c = .returned opened done := by
    have returned := returned c
    unfold Phase.isReturned at returned
    split at returned
    next opened done ended => exact ⟨opened, done, ended⟩
    next => cases returned
  -- A call that has returned has done all its operations.
  have all {c : ι} {opened : Store} (opens : (last.phase c).opened = some opened) :
      ((calls c).steps sha256 linesDigest opened).1 = (last.phase c).done := by
    obtain ⟨opened', done, ended⟩ := ends c
    rw [kept.split c opened opens, ended, Phase.rest, append_nil]
  constructor
  case rows =>
    rintro c ⟨opened, opens, wrote⟩ key name some
    obtain ⟨pairs, checked, merges⟩ := merges_steps (writers c) wrote
    rw [written, checked] at some
    have found : (lastWith name (groupOf pairs key)).isSome := by simpa using some
    have there : key ∈ pairs.map (·.1) := by
      obtain ⟨row, last⟩ := isSome_iff_exists.mp found
      obtain ⟨pair, kept, -⟩ := mem_map.mp (mem_of_lastWith last).1
      obtain ⟨member, same⟩ := mem_filter.mp kept
      exact of_decide_eq_true same ▸ mem_map_of_mem member
    have done := merges key there
    rw [all opens] at done
    obtain ⟨other, merged, row, there, its, stored⟩ := kept.rows c key _ name done found
    obtain ⟨opened', done', ended⟩ := ends other
    have opens' : (last.phase other).opened = Option.some opened' := by rw [ended]; rfl
    rw [← all opens'] at there
    obtain ⟨wrote', pairs', checked', rfl⟩ := of_merge_mem (writers other) there
    refine ⟨by rw [stored]; rfl, other, ⟨opened', opens', wrote'⟩, ?_⟩
    rw [stored, written, checked']
    exact (congrArg (Option.map line) its).symm
  case entries =>
    intro c opened run task now rows facts result checked opens is outcome valid
    have done := all opens
    rw [is] at outcome done
    rcases ingestRows_returned valid outcome with ⟨present, -⟩ | ⟨-, pairs, -, steps⟩
    · obtain ⟨entry, member, named⟩ := any_eq_true.mp present
      exact any_eq_true.mpr ⟨entry, kept.grown c opened opens member, named⟩
    · have member : ObjectStep.record ⟨run, task, rowsDigest linesDigest checked, checked.length, now⟩
          ∈ (last.phase c).done := by
        rw [← done]
        change _ ∈ (ingestRows linesDigest opened run task now rows facts).1
        rw [steps]
        exact mem_append_right _ (mem_singleton_self _)
      exact any_eq_true.mpr ⟨_, kept.entries c _ member, by simp⟩

end Digest

def otherRow : Row := [("id", .str "b")] ++ verdictRow.drop 1

def bothPut : Bool → Call
  | true => .put [.obj verdictRow]
  | false => .ingest "run" "task" "now" [.obj otherRow] none

def unwritten : State Bool := { store := {}, phase := fun _ => .idle }

def turnsOf (turns : List Bool) : Option (State Bool) :=
  Runs.run (step contentName idNames bothPut) turns unwritten

/-- The second client begins after the first one, and reads the object when it is written. -/
def inOrder : List Bool := [true, false, true, true, true, false, false, false, false]

/-- The second client reads the object before the first one writes it. -/
def crossed : List Bool := [true, false, true, false, true, true, false, false, false]

theorem writers_lose_nothing_inOrder :
    ∃ last, turnsOf inOrder = some last ∧ Complete contentName idNames bothPut last := by
  obtain ⟨last, ran⟩ : ∃ last, turnsOf inOrder = some last :=
    isSome_iff_exists.mp (by decide +kernel)
  have returned : ∀ c, ((turnsOf inOrder).map fun last => (last.phase c).isReturned) = some true := by
    decide +kernel
  refine ⟨last, ran, writers_lose_nothing ?_ ⟨⟨[], rfl⟩, fun _ => rfl⟩ ?_ ran fun c => ?_⟩
  · exact fun c => by cases c <;> trivial
  · exact Runs.meets_of_allowed (fun _ _ => id) (by decide +kernel)
  · have ended := returned c
    rw [ran] at ended
    exact some.inj ended

/-- Both clients have returned, and the row of the first one is gone. -/
theorem crossed_loses_row :
    ∃ last, turnsOf crossed = some last ∧ (∀ c, (last.phase c).isReturned = true) ∧
      ¬ Complete contentName idNames bothPut last := by
  obtain ⟨last, ran⟩ : ∃ last, turnsOf crossed = some last :=
    isSome_iff_exists.mp (by decide +kernel)
  have returned : ∀ c, ((turnsOf crossed).map fun last => (last.phase c).isReturned) = some true := by
    decide +kernel
  have missing : ((turnsOf crossed).map fun last => last.store.row verdictKey "a") = some none := by
    decide +kernel
  have put : (turnsOf crossed).all fun last => (last.phase true).opened.any fun opened =>
      writes ((bothPut true).steps contentName idNames opened).2 := by decide +kernel
  rw [ran] at missing put
  refine ⟨last, ran, fun c => ?_, fun complete => ?_⟩
  · have ended := returned c
    rw [ran] at ended
    exact some.inj ended
  · have wrote : Wrote contentName idNames bothPut last true := by
      change ((last.phase true).opened.any _) = true at put
      cases opens : (last.phase true).opened with
      | none =>
        rw [opens] at put
        cases put
      | some opened =>
        rw [opens] at put
        exact ⟨opened, opens, put⟩
    obtain ⟨there, -⟩ := complete.rows true wrote verdictKey "a" (by decide +kernel)
    have gone : last.store.row verdictKey "a" = none := some.inj missing
    rw [gone] at there
    cases there

end OpenUltraSast.Plane.Memory.Writers
