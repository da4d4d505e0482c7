import OpenUltraSast.Search.Checkpoints
import OpenUltraSast.Plane.Rows

/-!
# The check of a stored state

The check of a state gives the same answer for the text that is stored and read back: it looks
only at values under keys, and reading back changes the order of keys alone.
-/

namespace OpenUltraSast.Search.Checkpoints

open Values Plane.Memory List

/-- The fields that reading the stored text gives back. -/
def sortedFields (fields : Fields) : Fields := inKeyOrder (Json.sortedValues fields)

@[simp] theorem sorted_obj (fields : Fields) :
    (Json.obj fields).sorted = .obj (sortedFields fields) := rfl

theorem lookup_sortedFields (fields : Fields) (key : String) :
    (sortedFields fields).lookup key = (fields.lookup key).map Json.sorted := by
  rw [sortedFields, lookup_inKeyOrder, lookup_sortedValues]

theorem field_sortedFields (fields : Fields) (key : String) :
    Json.field (sortedFields fields) key = (Json.field fields key).sorted := by
  unfold Json.field
  rw [lookup_sortedFields]
  cases fields.lookup key <;> rfl

theorem sortedFields_eq_nil {fields : Fields} : sortedFields fields = [] ↔ fields = [] := by
  rw [← length_eq_zero_iff, ← length_eq_zero_iff, sortedFields, inKeyOrder,
    length_insertionSort, Json.sortedValues_eq, length_map]

@[simp] theorem isText_sorted (value : Json) : isText value.sorted = isText value := by
  cases value <;> rfl

@[simp] theorem isStr_sorted (value : Json) (text : String) :
    value.sorted.isStr text = value.isStr text := by
  cases value <;> rfl

@[simp] theorem unhashable_sorted (value : Json) : value.sorted.unhashable = value.unhashable := by
  cases value <;> rfl

@[simp] theorem truthy_sorted (value : Json) : value.sorted.truthy = value.truthy := by
  cases value with
  | arr items => rw [Json.sorted, Json.truthy, Json.truthy, Json.sortedItems_eq, isEmpty_map]
  | obj fields =>
    rw [sorted_obj, Json.truthy, Json.truthy]
    congr 1
    rw [Bool.eq_iff_iff, List.isEmpty_iff, List.isEmpty_iff, sortedFields_eq_nil]
  | _ => rfl

theorem entries_sorted (value : Json) :
    entries value.sorted = (entries value).map (List.map Json.sorted) := by
  cases value with
  | arr items =>
    rw [Json.sorted, Json.sortedItems_eq]
    rfl
  | str text =>
    rw [Json.sorted, entries]
    split <;> rfl
  | obj fields =>
    rw [sorted_obj]
    cases fields with
    | nil => rfl
    | cons field fields =>
      cases sorted : sortedFields (field :: fields) with
      | nil => exact absurd (sortedFields_eq_nil.mp sorted) (cons_ne_nil _ _)
      | cons => rfl
  | _ => rfl

private theorem addId_sorted (kind : String) (ids : List String) (row : Json) :
    addId kind ids row.sorted = addId kind ids row := by
  cases row with
  | obj fields =>
    rw [sorted_obj, addId, addId]
    simp only [field_sortedFields, isText_sorted]
    cases Json.field fields "id" <;> rfl
  | _ => rfl

private theorem idsOf_sorted (state : Fields) (kind : String) :
    idsOf (sortedFields state) kind = idsOf state kind := by
  unfold idsOf
  rw [field_sortedFields, entries_sorted]
  cases entries (Json.field state kind) with
  | error => rfl
  | ok rows =>
    change (rows.map Json.sorted).foldlM (addId kind) [] = rows.foldlM (addId kind) []
    rw [foldlM_map]
    simp only [addId_sorted]

theorem knownIn_sorted (ids : List String) (text : String) (value : Json) :
    knownIn ids text value.sorted = knownIn ids text value := by
  cases value with
  | arr items =>
    rw [Json.sorted, Json.sortedItems_eq, knownIn, knownIn]
    simp [any_map, all_map, Function.comp_def]
  | _ => rfl

private theorem checkFact_sorted (intents : List String) (row : Json) :
    checkFact intents row.sorted = checkFact intents row := by
  cases row with
  | obj fact =>
    rw [sorted_obj, checkFact, checkFact]
    simp only [field_sortedFields]
    cases Json.field fact "evidence_refs" with
    | arr items =>
      cases items with
      | nil => rfl
      | cons ref refs =>
        simp [Json.sorted, Json.sortedItems, Json.sortedItems_eq, knownIn_sorted, all_map,
          Function.comp_def]
    | _ => rfl
  | _ => rfl

private theorem checkIntent_sorted (facts : List String) (row : Json) :
    checkIntent facts row.sorted = checkIntent facts row := by
  cases row with
  | obj intent =>
    rw [sorted_obj, checkIntent, checkIntent]
    simp only [field_sortedFields, isStr_sorted, truthy_sorted, knownIn_sorted]
    cases Json.field intent "claimant" <;> rfl
  | _ => rfl

theorem checkEach_sorted {check : Json → Except Error Unit}
    (same : ∀ row, check row.sorted = check row) (rows : Json) :
    checkEach check rows.sorted = checkEach check rows := by
  unfold checkEach
  rw [entries_sorted]
  cases entries rows with
  | error => rfl
  | ok items =>
    change forM (items.map Json.sorted) check = forM items check
    rw [forM_map]
    simp only [same]

private theorem checkEndReason_sorted (state : Fields) :
    checkEndReason (sortedFields state) = checkEndReason state := by
  unfold checkEndReason
  rw [lookup_sortedFields]
  cases state.lookup "end_reason" with
  | none => rfl
  | some reason => cases reason <;> rfl

/-- The writer's check and the resumer's check accept the same states. -/
theorem validate_sorted (state : Fields) : validate (sortedFields state) = validate state := by
  unfold validate
  simp only [checkEndReason_sorted, idsOf_sorted, field_sortedFields,
    checkEach_sorted (checkFact_sorted _), checkEach_sorted (checkIntent_sorted _)]

end OpenUltraSast.Search.Checkpoints

/-!
## The chain of checkpoints

What a commit drafts, what lies in the store after it is put there, and where `previous` leads
from a checkpoint.
-/

namespace OpenUltraSast.Search.Checkpoints

open Values Plane.Memory List

variable {sha256 : Json → String} {size : Json → Nat}

/-- What a commit that comes to its write has made. -/
structure Drafted (size : Json → Nat) (b : Board) (state : Fields) (data : Json) : Prop where
  open_ : b.state.lookup "end_reason" = some .null
  owner : state.lookup "search_id" = b.state.lookup "search_id"
  version : ∀ n : Int, b.state.lookup "version" = some (.int n) →
    state.lookup "version" = some (.int (n + 1))
  previous : Json.field state "previous" = headJson b.head
  valid : validate state = .ok ()
  text : data = .obj (sortedFields state)
  small : size data ≤ b.maxBytes

variable {state : Fields} {blobs : Blobs} {searchId : String} {changes : Fields}

private theorem lookup_merged {key : String} (apart : ∀ change ∈ changes, change.1 ≠ key) :
    (changes.foldl (fun state change => setField state change.1 change.2) state).lookup key =
      state.lookup key := by
  induction changes generalizing state with
  | nil => rfl
  | cons change changes ih =>
    rw [foldl_cons, ih fun other member => apart other (mem_cons_of_mem _ member),
      lookup_setField, if_neg (apart change mem_cons_self).symm]

variable {b : Board} {data : Json}

private theorem checkWriter_ok {writer : String}
    (passes : checkWriter b writer changes = .ok ()) :
    b.state.lookup "end_reason" = some .null ∧ ∀ change ∈ changes, change.1 ∈ changeable := by
  unfold checkWriter at passes
  split at passes
  next => cases passes
  next =>
    split at passes
    next => cases passes
    next open_ =>
      split at passes
      next => cases passes
      next known => exact ⟨open_, by simpa using known⟩
    next => cases passes

theorem draft_ok {writer : String}
    (ok : draft size b writer changes = .ok (state, data)) : Drafted size b state data := by
  unfold draft at ok
  obtain ⟨⟨⟩, passes, ok⟩ := Collections.bind_eq_ok_iff.mp ok
  obtain ⟨version, next, ok⟩ := Collections.bind_eq_ok_iff.mp ok
  obtain ⟨⟨⟩, valid, ok⟩ := Collections.bind_eq_ok_iff.mp ok
  obtain ⟨text, dumped, ok⟩ := Collections.bind_eq_ok_iff.mp ok
  obtain ⟨data', kept, ok⟩ := Collections.bind_eq_ok_iff.mp ok
  cases ok
  obtain ⟨open_, known⟩ := checkWriter_ok passes
  -- a change touches only the fields that may change, then the version and the previous state
  have untouched (key : String) (other : key ∉ changeable) (first : key ≠ "version")
      (second : key ≠ "previous") :
      (changed b changes version).lookup key = b.state.lookup key := by
    unfold changed
    rw [lookup_setField, if_neg second, lookup_setField, if_neg first]
    exact lookup_merged fun change member same => other (same ▸ known change member)
  have capped : text = data ∧ size data ≤ b.maxBytes := by
    unfold capped at kept
    split at kept
    next => cases kept
    next small =>
      cases kept
      exact ⟨rfl, not_lt.mp small⟩
  have written : (Json.obj (changed b changes version)).sorted = text := by
    unfold dumps at dumped
    split at dumped <;> cases dumped
    rfl
  refine
    { open_
      owner := untouched "search_id" (by decide) (by decide) (by decide)
      version := fun n before => ?_
      previous := ?_
      valid
      text := capped.1 ▸ written.symm
      small := capped.2 }
  · unfold changed
    rw [lookup_setField, if_neg (by decide), lookup_setField, if_pos rfl]
    rw [Json.field, before] at next
    cases next
    rfl
  · unfold changed
    rw [Json.field, lookup_setField, if_pos rfl]
    rfl

/-- No two of the texts have one hash. -/
def CollisionFree (sha256 : Json → String) (texts : List Json) : Prop :=
  ∀ a ∈ texts, ∀ b ∈ texts, sha256 a = sha256 b → a = b

def Filed (sha256 : Json → String) (blobs : Blobs) (texts : List Json) : Prop :=
  ∀ name data, blobs.lookup name = some data → sha256 data = name ∧ data ∈ texts

variable {name : String}

theorem lookup_putBlob (blobs : Blobs) (data : Json) {old : Json}
    (found : blobs.lookup name = some old) :
    (putBlob sha256 blobs data).1.lookup name = some old := by
  simp only [putBlob]
  split
  · rw [lookup_append, found]
    rfl
  · exact found

theorem getBlob_putBlob_old (blobs : Blobs) (data : Json) {old : Json}
    (found : getBlob sha256 blobs name = some old) :
    getBlob sha256 (putBlob sha256 blobs data).1 name = some old := by
  unfold getBlob at found ⊢
  rw [Option.filter_eq_some_iff] at found ⊢
  exact ⟨lookup_putBlob blobs data found.1, found.2⟩

variable {texts : List Json}

theorem getBlob_putBlob (filed : Filed sha256 blobs texts) (member : data ∈ texts)
    (free : CollisionFree sha256 texts) :
    getBlob sha256 (putBlob sha256 blobs data).1 (sha256 data) = some data := by
  unfold getBlob
  rw [Option.filter_eq_some_iff]
  refine ⟨?_, by simp⟩
  cases found : blobs.lookup (sha256 data) with
  | some old =>
    obtain ⟨same, among⟩ := filed _ _ found
    rw [lookup_putBlob blobs data found, free old among data member same]
  | none =>
    simp only [putBlob, found, Option.isNone_none, if_true, lookup_append, Option.none_or]
    simp

theorem filed_putBlob (filed : Filed sha256 blobs texts) (member : data ∈ texts) :
    Filed sha256 (putBlob sha256 blobs data).1 texts := by
  intro name old found
  simp only [putBlob] at found
  split at found
  next =>
    rw [lookup_append] at found
    cases first : blobs.lookup name with
    | some other =>
      rw [first] at found
      cases found
      exact filed name old first
    | none =>
      rw [first, Option.none_or, lookup_cons] at found
      split at found
      next same =>
        cases found
        exact ⟨(beq_iff_eq.mp same).symm, member⟩
      next => cases found
  next => exact filed name old found

structure Good (searchId : String) (n : Nat) (state : Fields) : Prop where
  owner : state.lookup "search_id" = some (.str searchId)
  version : state.lookup "version" = some (.int n)
  valid : validate state = .ok ()

/-- A checkpoint whose `previous` leads through all earlier versions. -/
inductive Linked (sha256 : Json → String) (blobs : Blobs) (searchId : String) :
    Nat → Fields → Prop where
  | first {state : Fields} (good : Good searchId 1 state)
      (previous : Json.field state "previous" = .null) : Linked sha256 blobs searchId 1 state
  | next {n : Nat} {head : String} {before state : Fields}
      (linked : Linked sha256 blobs searchId n before)
      (found : getBlob sha256 blobs head = some (.obj before))
      (open_ : before.lookup "end_reason" = some .null) (good : Good searchId (n + 1) state)
      (previous : Json.field state "previous" = .str head) :
      Linked sha256 blobs searchId (n + 1) state

variable {n : Nat}

theorem good_sorted (good : Good searchId n state) :
    Good searchId n (sortedFields state) := by
  refine ⟨?_, ?_, (validate_sorted state).trans good.valid⟩
  · rw [lookup_sortedFields, good.owner]
    rfl
  · rw [lookup_sortedFields, good.version]
    rfl

theorem Linked.good {blobs : Blobs} {searchId : String} {state : Fields}
    (linked : Linked sha256 blobs searchId n state) : Good searchId n state := by
  cases linked with
  | first good => exact good
  | next _ _ _ good => exact good

theorem linked_putBlob (linked : Linked sha256 blobs searchId n state) (data : Json) :
    Linked sha256 (putBlob sha256 blobs data).1 searchId n state := by
  induction linked with
  | first good previous => exact .first good previous
  | next _ found open_ good previous ih =>
    exact .next ih (getBlob_putBlob_old blobs data found) open_ good previous

structure Visits (sha256 : Json → String) (blobs : Blobs) (head : String) (n : Nat) : Prop where
  versions : ∀ fuel, n ≤ fuel → (walk sha256 blobs fuel (some head)).map (part "version") =
    (List.range' 1 n).reverse.map fun version => Json.int version
  earlierOpen : ∀ fuel, ∀ data ∈ (walk sha256 blobs fuel (some head)).tail,
    part "end_reason" data = .null

theorem visits_of_linked (linked : Linked sha256 blobs searchId n state) {head : String}
    (found : getBlob sha256 blobs head = some (.obj state)) : Visits sha256 blobs head n := by
  induction linked generalizing head with
  | @first state good previous =>
    -- the first state has no previous one, so the walk ends here
    have walks (fuel : Nat) : walk sha256 blobs (fuel + 1) (some head) = [.obj state] := by
      rw [walk, found]
      simp only [previousOf, part, previous]
      cases fuel <;> rfl
    constructor
    · intro fuel enough
      obtain ⟨fuel, rfl⟩ := Nat.exists_eq_add_of_le' enough
      rw [walks]
      simp [part, Json.field, good.version]
    · intro fuel data member
      cases fuel with
      | zero => cases member
      | succ fuel =>
        rw [walks] at member
        cases member
  | @next n earlier before state _ back open_ good previous ih =>
    have walks (fuel : Nat) : walk sha256 blobs (fuel + 1) (some head) =
        .obj state :: walk sha256 blobs fuel (some earlier) := by
      rw [walk, found]
      simp only [previousOf, part, previous]
    -- the walk goes on at the previous state, which is linked itself
    obtain ⟨versions, earlierOpen⟩ := ih back
    constructor
    · intro fuel enough
      obtain ⟨fuel, rfl⟩ := Nat.exists_eq_add_of_le' (Nat.le_of_add_left_le enough)
      rw [walks, map_cons, versions fuel (by omega), List.range'_1_concat, reverse_append]
      simp [part, Json.field, good.version, Nat.add_comm]
    · intro fuel data member
      cases fuel with
      | zero => cases member
      | succ fuel =>
        rw [walks, tail_cons] at member
        cases fuel with
        | zero => cases member
        | succ fuel =>
          have rest := earlierOpen (fuel + 1)
          rw [walk, back] at member rest
          -- the state before this one was open, since this one follows it
          rcases mem_cons.mp member with rfl | later
          · simp [part, Json.field, open_]
          · exact rest data later

theorem getBlob_putBlob_cases {other : Json}
    (found : getBlob sha256 (putBlob sha256 blobs data).1 name = some other) :
    getBlob sha256 blobs name = some other ∨ other = data := by
  simp only [putBlob] at found
  split at found
  next =>
    unfold getBlob at found ⊢
    rw [Option.filter_eq_some_iff, lookup_append] at found
    cases first : blobs.lookup name with
    | some old =>
      rw [first] at found
      left
      rw [Option.filter_eq_some_iff]
      exact found
    | none =>
      rw [first, Option.none_or, lookup_cons] at found
      right
      split at found
      next => exact (Option.some.inj found.1).symm
      next => cases found.1
  next => exact Or.inl found

structure Held (sha256 : Json → String) (blobs : Blobs) (b : Board) : Prop where
  configured : ∃ first, newBoard b.searchId b.coordinator b.maxBytes = .ok first
  owner : b.state.lookup "search_id" = some (.str b.searchId)
  state : (b.head = none ∧ b.state.lookup "version" = some (.int (0 : Nat))) ∨
    ∃ head n, b.head = some head ∧ b.state.lookup "version" = some (.int (n : Nat)) ∧
      getBlob sha256 blobs head = some (.obj (sortedFields b.state)) ∧
      Linked sha256 blobs b.searchId n (sortedFields b.state)

theorem held_putBlob (held : Held sha256 blobs b) (data : Json) :
    Held sha256 (putBlob sha256 blobs data).1 b := by
  refine ⟨held.configured, held.owner, ?_⟩
  rcases held.state with first | ⟨head, n, named, version, found, linked⟩
  · exact Or.inl first
  · exact Or.inr ⟨head, n, named, version, getBlob_putBlob_old blobs data found,
      linked_putBlob linked data⟩

/-- A draft has the next version and links to the head. -/
theorem linked_draft (held : Held sha256 blobs b) (drafted : Drafted size b state data) :
    ∃ n : Nat, b.state.lookup "version" = some (.int n) ∧
      state.lookup "version" = some (.int (n + 1)) ∧
      Linked sha256 blobs b.searchId (n + 1) (sortedFields state) := by
  have owner := drafted.owner.trans held.owner
  have previous (json : Json) (same : headJson b.head = json) :
      Json.field (sortedFields state) "previous" = json.sorted := by
    rw [field_sortedFields, drafted.previous, same]
  rcases held.state with ⟨none, version⟩ | ⟨head, n, named, version, found, linked⟩
  · have next := drafted.version 0 version
    have good : Good b.searchId 1 state := ⟨owner, next, drafted.valid⟩
    refine ⟨0, version, next, .first (good_sorted good) (previous .null ?_)⟩
    rw [none]
    rfl
  · have next := drafted.version n version
    have good : Good b.searchId (n + 1) state := ⟨owner, next, drafted.valid⟩
    refine ⟨n, version, next, .next linked found ?_ (good_sorted good) (previous (.str head) ?_)⟩
    · rw [lookup_sortedFields, drafted.open_]
      rfl
    · rw [named]
      rfl

theorem newBoard_ok {coordinator : String} {maxBytes : Nat}
    (ok : newBoard searchId coordinator maxBytes = .ok b) :
    b.searchId = searchId ∧ b.coordinator = coordinator ∧ b.maxBytes = maxBytes ∧
      b.head = none ∧ b.state.lookup "search_id" = some (.str searchId) ∧
      b.state.lookup "version" = some (.int (0 : Nat)) := by
  unfold newBoard at ok
  split at ok <;> cases ok
  exact ⟨rfl, rfl, rfl, rfl, rfl, rfl⟩

theorem restored_ok (read : restored searchId data = .ok state) : data = .obj state := by
  cases data with
  | obj fields =>
    rw [restored] at read
    split at read
    next => cases read
    next =>
      split at read
      next =>
        cases valid : validate fields <;> rw [valid] at read <;> cases read
        rfl
      next => cases read
  | _ => cases read

variable {head coordinator : String}

theorem resume_ok {maxBytes : Nat}
    (ok : resume sha256 size blobs searchId head coordinator maxBytes = .ok b) :
    ∃ first, newBoard searchId coordinator maxBytes = .ok first ∧
      getBlob sha256 blobs head = some (.obj b.state) ∧
      b = { first with state := b.state, head := some head } := by
  unfold resume at ok
  obtain ⟨first, configured, ok⟩ := Collections.bind_eq_ok_iff.mp ok
  split at ok
  next => cases ok
  next data found =>
    split at ok
    next => cases ok
    next =>
      obtain ⟨state, read, ok⟩ := Collections.bind_eq_ok_iff.mp ok
      cases ok
      exact ⟨first, configured, found.trans (congrArg some (restored_ok read)), rfl⟩

/-- A linked state that is found is resumed as it is. -/
theorem resume_linked {maxBytes n : Nat}
    (linked : Linked sha256 blobs searchId n state)
    (found : getBlob sha256 blobs head = some (.obj state)) (small : size (.obj state) ≤ maxBytes)
    {first : Board} (configured : newBoard searchId coordinator maxBytes = .ok first) :
    resume sha256 size blobs searchId head coordinator maxBytes =
      .ok { first with state, head := some head } := by
  have good := linked.good
  have kept : restored searchId (.obj state) = .ok state := by
    unfold restored
    simp only [good.owner, Json.isStr, decide_true, if_true, good.valid]
    rfl
  unfold resume
  rw [configured]
  simp only [found, if_neg (not_lt.mpr small), kept]
  rfl

end OpenUltraSast.Search.Checkpoints
