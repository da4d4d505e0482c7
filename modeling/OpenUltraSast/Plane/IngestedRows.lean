import OpenUltraSast.Plane.Ingest

/-!
# What an ingest promises

When an ingest returns, the store holds the rows and the facts of the delivery exactly if the index
did not name it, or its rows still stand, and no other content lies under the hash of its facts.
-/

namespace OpenUltraSast.Plane.Memory

open Values Collections List Option

def storedForm (row : Row) : Option Row := (normaliseRow row).toOption.map line

section Digest
variable (sha256 : Bytes → String) (linesDigest : List Row → String)

def Holds (s : Store) (rows : List Row) (facts : Option Bytes) : Prop :=
  (∀ name row, lastWith name rows = some row →
    ∃ key form, row.key = some key ∧ storedForm row = some form ∧ s.row key name = some form) ∧
  ∀ data ∈ facts, s.facts (sha256 data) = some data

/-- The last operation on each row of a delivery wrote what the delivery says. -/
def StillStand (log : List ObjectStep) (rows : List Row) : Prop :=
  ∀ name row, lastWith name rows = some row →
    ∃ key form, row.key = some key ∧ storedForm row = some form ∧
      lastRow key name log = some form

/-- If the index names the delivery, nothing replaced or dropped its rows or facts since; and no
other content lies where the facts belong. -/
def Unharmed (log : List ObjectStep) (run task : String) (rows : List Row)
    (facts : Option Bytes) : Prop :=
  (Recorded run task (rowsDigest linesDigest rows) log → StillStand log rows) ∧
  ∀ data ∈ facts,
    (Recorded run task (rowsDigest linesDigest rows) log →
      (factsLeft sha256 (sha256 data) log).isSome) ∧
    ∀ other, factsLeft sha256 (sha256 data) log = some other → other = data

/-- Whatever cuts an ingest, repeating it leaves the rows that the ingest alone leaves. -/
def Repeatable (h : History) (run task now : String) (rows : List Json) (facts : Option Bytes) :
    Prop :=
  ∀ n later key name,
    (((h.next sha256 linesDigest (.call (.ingest run task now rows facts) (some n))).next sha256
      linesDigest (.call (.ingest run task later rows facts) none)).store.row key name) =
    (h.next sha256 linesDigest (.call (.ingest run task now rows facts) none)).store.row key name

variable {sha256 linesDigest}

theorem log_next (h : History) (c : Call) :
    (h.next sha256 linesDigest (.call c none)).log =
      (c.steps sha256 linesDigest h.store).1.reverse ++ h.log := rfl

theorem log_cut (h : History) (c : Call) (n : Nat) :
    (h.next sha256 linesDigest (.call c (some n))).log =
      ((c.steps sha256 linesDigest h.store).1.take n).reverse ++ h.log := rfl

variable {facts : Option Bytes}

private theorem not_recorded_delivered {pairs : List (String × Row)}
    {entry : Entry} : ObjectStep.record entry ∉ delivered pairs facts := by
  intro member
  rcases mem_append.mp member with first | merge
  · obtain ⟨data, -, same⟩ := map_eq_some_iff.mp (mem_toList.mp first)
    cases same
  · obtain ⟨key, -, same⟩ := mem_map.mp merge
    cases same

theorem lastRow_record (key name : String) (steps log : List ObjectStep) (entry : Entry) :
    lastRow key name ((steps ++ [ObjectStep.record entry]).reverse ++ log) =
      lastRow key name (steps.reverse ++ log) := by
  rw [reverse_append, append_assoc]
  rfl

private theorem factsLeft_record (sha : String) (steps log : List ObjectStep) (entry : Entry) :
    factsLeft sha256 sha ((steps ++ [ObjectStep.record entry]).reverse ++ log) =
      factsLeft sha256 sha (steps.reverse ++ log) := by
  rw [reverse_append, append_assoc]
  rfl

private theorem repeatable {h : History} (agrees : Agrees sha256 h) {run task now : String}
    {rows : List Json} {checked : List Row} {result : IngestResult}
    (valid : rows.mapM validateRow = .ok checked)
    (returned : (ingestRows linesDigest h.store run task now rows facts).2 = .ingested result) :
    Repeatable sha256 linesDigest h run task now rows facts := by
  intro n later key name
  have cut := agrees_next linesDigest agrees
    (.call (.ingest run task now rows facts) (some n))
  have twice := agrees_next linesDigest cut
    (.call (.ingest run task later rows facts) none)
  have once := agrees_next linesDigest agrees
    (.call (.ingest run task now rows facts) none)
  rw [twice.rows, once.rows, log_next, log_next]
  simp only [Call.steps]
  rcases ingestRows_returned valid returned with ⟨present, idle⟩ | ⟨missing, pairs, each, all⟩
  · -- Skipped each time: the history stays as it is.
    have same : h.next sha256 linesDigest (.call (.ingest run task now rows facts) (some n)) =
        h := by
      simp only [History.next, Event.steps, Call.steps, idle, take_nil]
      rfl
    rw [same, idle, ingestRows_skipped valid present]
  · have unrecorded : ¬ Recorded run task (rowsDigest linesDigest checked) h.log := by
      rw [← hasEntry_iff agrees, missing]
      exact Bool.false_ne_true
    by_cases early : n ≤ (delivered pairs facts).length
    · -- No entry was written, so the repeat does everything again.
      have log : (h.next sha256 linesDigest
          (.call (.ingest run task now rows facts) (some n))).log =
            ((delivered pairs facts).take n).reverse ++ h.log := by
        rw [log_cut]
        simp only [Call.steps]
        rw [all, take_append_of_le_length early]
      have again : (h.next sha256 linesDigest
          (.call (.ingest run task now rows facts) (some n))).store.hasEntry run task
            (rowsDigest linesDigest checked) = false := by
        rw [Bool.eq_false_iff, ne_eq, hasEntry_iff cut, log]
        rintro ⟨entry, member, named⟩
        rcases mem_append.mp member with fresh | older
        · exact not_recorded_delivered (mem_of_mem_take (mem_reverse.mp fresh))
        · exact unrecorded ⟨entry, older, named⟩
      rw [ingestRows_fresh valid again each, all, log, lastRow_record, lastRow_record,
        lastRow_delivered, lastRow_delivered]
      rcases lastRow_take_delivered pairs facts n key name h.log with same | ⟨member, merged⟩
      · rw [same]
      · rw [merged, if_pos member, if_pos member, ← Option.or_assoc, Option.or_self]
    · -- The entry was written, so the repeat is skipped.
      have whole : (delivered pairs facts ++
          [ObjectStep.record ⟨run, task, rowsDigest linesDigest checked, checked.length, now⟩]).take
            n = delivered pairs facts ++
          [.record ⟨run, task, rowsDigest linesDigest checked, checked.length, now⟩] := by
        apply take_of_length_le
        rw [length_append, length_singleton]
        omega
      have log : (h.next sha256 linesDigest
          (.call (.ingest run task now rows facts) (some n))).log =
            (ingestRows linesDigest h.store run task now rows facts).1.reverse ++ h.log := by
        rw [log_cut]
        simp only [Call.steps]
        rw [all, whole]
      have again : (h.next sha256 linesDigest
          (.call (.ingest run task now rows facts) (some n))).store.hasEntry run task
            (rowsDigest linesDigest checked) = true := by
        rw [hasEntry_iff cut, log, all]
        exact ⟨⟨run, task, rowsDigest linesDigest checked, checked.length, now⟩, by simp, rfl, rfl,
          rfl⟩
      rw [ingestRows_skipped valid again, log]
      rfl

theorem factsLeft_delivered (pairs : List (String × Row)) (data : Bytes) (log : List ObjectStep) :
    factsLeft sha256 (sha256 data) ((delivered pairs (some data)).reverse ++ log) =
      some ((factsLeft sha256 (sha256 data) log).getD data) := by
  have merges : ∀ keys log, factsLeft sha256 (sha256 data) ((mergesOf pairs keys).reverse ++ log) =
      factsLeft sha256 (sha256 data) log := by
    intro keys
    induction keys with
    | nil => exact fun _ => rfl
    | cons key keys ih =>
      intro log
      rw [mergesOf, map_cons, reverse_cons, append_assoc]
      exact (ih _).trans rfl
  rw [delivered, reverse_append, append_assoc, merges]
  simp [factsLeft]

/-- An ingest that returns leaves its delivery in the store, and can be cut and repeated, exactly
if nothing harmed what the index says is there. -/
theorem ingest_holds_iff (events : List Event) {run task now : String} {rows : List Json}
    {facts : Option Bytes} {checked : List Row} {result : IngestResult}
    (valid : rows.mapM validateRow = .ok checked)
    (returned : ((Call.ingest run task now rows facts).steps sha256 linesDigest
      (history sha256 linesDigest events).store).2 = .ingested result) :
    (Holds sha256
        ((history sha256 linesDigest events).next sha256 linesDigest
          (.call (.ingest run task now rows facts) none)).store checked facts ∧
      Repeatable sha256 linesDigest (history sha256 linesDigest events) run task now rows facts) ↔
    Unharmed sha256 linesDigest (history sha256 linesDigest events).log run task checked facts := by
  have agrees : Agrees sha256 (history sha256 linesDigest events) := agrees_history events
  generalize history sha256 linesDigest events = h at agrees returned
  have after := agrees_next linesDigest agrees
    (.call (.ingest run task now rows facts) none)
  rw [and_iff_left (repeatable agrees valid returned)]
  unfold Holds Unharmed StillStand
  simp only [after.rows, after.facts, log_next, Call.steps]
  rcases ingestRows_returned valid returned with ⟨present, idle⟩ | ⟨missing, pairs, each, all⟩
  · -- Skipped: the store is what it was before.
    have recorded := (hasEntry_iff agrees _ _ _).mp present
    rw [idle, reverse_nil, nil_append]
    simp only [recorded, forall_const]
    apply and_congr_right
    intro _
    constructor
    · intro kept data given
      rw [kept data given]
      exact ⟨rfl, fun other same => (some.inj same).symm⟩
    · intro stands data given
      obtain ⟨there, only⟩ := stands data given
      obtain ⟨other, found⟩ := isSome_iff_exists.mp there
      rw [found, only other found]
  · have unrecorded : ¬ Recorded run task (rowsDigest linesDigest checked) h.log := by
      rw [← hasEntry_iff agrees, missing]
      exact Bool.false_ne_true
    simp only [unrecorded, false_implies, true_and]
    rw [all]
    simp only [lastRow_record, factsLeft_record]
    have stored : ∀ name row, lastWith name checked = some row →
        ∃ key form, row.key = some key ∧ storedForm row = some form ∧
          lastRow key name ((delivered pairs facts).reverse ++ h.log) = some form := by
      intro name row last
      obtain ⟨key, out, filled, keyed, member, grouped⟩ :=
        lastWith_groupOf (checksTo_of_putRows each) last
      refine ⟨key, line out, keyed, by rw [storedForm, filled]; rfl, ?_⟩
      rw [lastRow_delivered, if_pos member, grouped]
      rfl
    rw [and_iff_right stored]
    apply forall₂_congr
    intro data given
    rw [mem_def.mp given, factsLeft_delivered]
    cases factsLeft sha256 (sha256 data) h.log with
    | none => simp
    | some other => simp

end Digest

def pinned : String := "0123456789abcdef0123456789abcdef01234567"

def verdictRow : Row :=
  [("id", .str "a"), ("kind", .str "verdict"), ("repo", .str "https://host/owner/name.git"),
    ("pin", .str pinned), ("run", .str "run"), ("task", .str "task"), ("population", .str "p"),
    ("split", .str "test"), ("image", .str "image")]

def verdictDelivery (now : String) : Call := .ingest "run" "task" now [.obj verdictRow] none

/-- The content itself, in place of its hash. -/
def contentName (data : Bytes) : String := String.ofList (data.map fun b => Char.ofNat b.toNat)

def idNames (lines : List Row) : String := ",".intercalate (lines.map idOf)

/-- A delivery with the facts of an empty object. -/
def factsDelivery (now : String) : Call :=
  .ingest "run" "task" now [.obj verdictRow] (some [123, 125])

def verdictKey : String := "repos/host__owner__name/" ++ pinned ++ ".jsonl"

/-- The first ingest is cut behind its facts and repeated; then the row is dropped and put again. -/
def repairedRow : List Event :=
  [.call (factsDelivery "first") (some 1), .call (factsDelivery "second") none,
    .call (.drop "https://host/owner/name.git" pinned ["a"]) none,
    .call (.put [.obj verdictRow]) none, .call (.getFacts (contentName [123, 125])) none]

/-- The next ingest is skipped, and what it delivers is there. -/
theorem ingest_holds_iff_repaired :
    let h := history contentName idNames repairedRow
    ((factsDelivery "later").steps contentName idNames h.store).2 =
      .ingested ⟨"run", "task", 1, true, [("verdict", 1)]⟩ ∧
    Holds contentName (h.next contentName idNames (.call (factsDelivery "later") none)).store
      [verdictRow] (some [123, 125]) ∧
    Repeatable contentName idNames h "run" "task" "later" [.obj verdictRow] (some [123, 125]) := by
  intro h
  have returned : ((factsDelivery "later").steps contentName idNames h.store).2 =
      .ingested ⟨"run", "task", 1, true, [("verdict", 1)]⟩ := by decide +kernel
  refine ⟨returned, (ingest_holds_iff repairedRow rfl returned).mpr
    ⟨fun _ name row last => ?_, ?_⟩⟩
  · have named := List.find?_some last
    obtain rfl := mem_singleton.mp (mem_of_find?_eq_some last)
    obtain rfl : "a" = name := of_decide_eq_true named
    obtain ⟨form, stored⟩ := isSome_iff_exists.mp
      (show (storedForm verdictRow).isSome = true by decide +kernel)
    have put : lastRow verdictKey "a" h.log = storedForm verdictRow := by decide +kernel
    exact ⟨verdictKey, form, by decide +kernel, stored, put.trans stored⟩
  · rintro data ⟨⟩
    have left : factsLeft contentName (contentName [123, 125]) h.log = some [123, 125] := by
      decide +kernel
    rw [left]
    exact ⟨fun _ => rfl, fun other same => (some.inj same).symm⟩

/-- After an ingest and a drop, the same ingest is skipped and the row is missing. -/
theorem dropped_row_not_held :
    let dropped := history contentName idNames
      [.call (verdictDelivery "first") none,
        .call (.drop "https://host/owner/name.git" pinned ["a"]) none]
    ((verdictDelivery "later").steps contentName idNames dropped.store).2 =
      .ingested ⟨"run", "task", 1, true, [("verdict", 1)]⟩ ∧
    ¬ Holds contentName (dropped.next contentName idNames
      (.call (verdictDelivery "later") none)).store [verdictRow] none := by
  intro dropped
  constructor
  · decide +kernel
  · rintro ⟨rows, -⟩
    obtain ⟨key, form, keyed, -, held⟩ := rows "a" verdictRow rfl
    have named : verdictRow.key = some verdictKey := by decide +kernel
    have missing : ((dropped.next contentName idNames
        (.call (verdictDelivery "later") none)).store.row verdictKey "a").isNone := by
      decide +kernel
    rw [some.inj (keyed.symm.trans named)] at held
    rw [held] at missing
    cases missing

end OpenUltraSast.Plane.Memory
