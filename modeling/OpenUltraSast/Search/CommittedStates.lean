import OpenUltraSast.Library.Runs
import OpenUltraSast.Search.BoardChain

/-!
# Committed states

Commits and resumptions of one search, from its first board on.
-/

namespace OpenUltraSast.Search.Checkpoints

open Values List

structure Attempt where
  before : Board
  after : Board
  result : Except Error String

/-- The blobs of a search, the board that commits, the texts that were to be stored, and the
commits so far. -/
structure World where
  blobs : Blobs := []
  board : Board
  written : List Json := []
  log : List Attempt := []

inductive Action where
  | commit (writer : String) (changes : Fields) (fault : Option Fault)
  | resume (head coordinator : String) (maxBytes : Nat)
  | fresh (coordinator : String) (maxBytes : Nat)

/-- The text that a commit stores. -/
def drafted (size : Json → Nat) (b : Board) (writer : String) (changes : Fields) : List Json :=
  match draft size b writer changes with
  | .ok (_, data) => [data]
  | .error _ => []

def step (sha256 : Json → String) (size : Json → Nat) (action : Action) (w : World) :
    Option World :=
  match action with
  | .commit writer changes fault =>
    let done := commit sha256 size w.blobs w.board writer changes fault
    some
      { blobs := done.1, board := done.2.1
        written := w.written ++ drafted size w.board writer changes
        log := w.log ++ [⟨w.board, done.2.1, done.2.2⟩] }
  -- A board that cannot be resumed leaves the one there is.
  | .resume head coordinator maxBytes =>
    match resume sha256 size w.blobs w.board.searchId head coordinator maxBytes with
    | .ok board => some { w with board }
    | .error _ => some w
  -- A fresh board of the search finds the blobs that are there.
  | .fresh coordinator maxBytes =>
    match newBoard w.board.searchId coordinator maxBytes with
    | .ok board => some { w with board }
    | .error _ => some w

def IsFirst (w : World) : Prop :=
  ∃ searchId coordinator maxBytes board,
    newBoard searchId coordinator maxBytes = .ok board ∧ w = { board }

/-- A world that commits, resumptions and fresh boards lead to from the first board of a search. -/
def Reached (sha256 : Json → String) (size : Json → Nat) (w : World) : Prop :=
  Runs.Reachable (step sha256 size) IsFirst w

variable {sha256 : Json → String} {size : Json → Nat} {w : World}

structure Committed (sha256 : Json → String) (size : Json → Nat) (blobs : Blobs) (a : Attempt)
    (head : String) (n : Nat) : Prop where
  drafted : Drafted size a.before a.after.state (.obj (sortedFields a.after.state))
  oldVersion : a.before.state.lookup "version" = some (.int n)
  version : a.after.state.lookup "version" = some (.int (n + 1))
  same : a.after = { a.before with state := a.after.state, head := some head }
  configured : ∃ first,
    newBoard a.before.searchId a.before.coordinator a.before.maxBytes = .ok first
  found : getBlob sha256 blobs head = some (.obj (sortedFields a.after.state))
  linked : Linked sha256 blobs a.before.searchId (n + 1) (sortedFields a.after.state)

def Attempt.Kept (sha256 : Json → String) (size : Json → Nat) (blobs : Blobs) (a : Attempt) :
    Prop :=
  match a.result with
  | .error _ => a.after = a.before
  | .ok head => ∃ n, Committed sha256 size blobs a head n

structure Kept (sha256 : Json → String) (size : Json → Nat) (w : World) : Prop where
  filed : Filed sha256 w.blobs w.written
  chained : ∀ name data, getBlob sha256 w.blobs name = some data →
    ∃ n state, data = .obj state ∧ sortedFields state = state ∧
      Linked sha256 w.blobs w.board.searchId n state
  held : Held sha256 w.blobs w.board
  attempts : ∀ a ∈ w.log, a.Kept sha256 size w.blobs

private theorem kept_first {w : World} (first : IsFirst w) : Kept sha256 size w := by
  obtain ⟨searchId, coordinator, maxBytes, board, ok, rfl⟩ := first
  obtain ⟨rfl, rfl, rfl, none, owner, version⟩ := newBoard_ok ok
  exact ⟨nofun, nofun, ⟨⟨board, ok⟩, owner, Or.inl ⟨none, version⟩⟩, nofun⟩

variable {blobs : Blobs}

theorem Filed.mono {texts : List Json} (filed : Filed sha256 blobs texts)
    (more : List Json) : Filed sha256 blobs (texts ++ more) := fun name data found =>
  ⟨(filed name data found).1, mem_append_left _ (filed name data found).2⟩

private theorem attempt_putBlob {a : Attempt} (kept : a.Kept sha256 size blobs)
    (data : Json) : a.Kept sha256 size (putBlob sha256 blobs data).1 := by
  unfold Attempt.Kept at kept ⊢
  cases result : a.result with
  | error error =>
    rw [result] at kept
    exact kept
  | ok head =>
    rw [result] at kept
    obtain ⟨n, committed⟩ := kept
    exact ⟨n, { committed with
      found := getBlob_putBlob_old blobs data committed.found
      linked := linked_putBlob committed.linked data }⟩

private theorem sortedFields_idem (fields : Fields) :
    sortedFields (sortedFields fields) = sortedFields fields :=
  Json.obj.inj (Json.sorted_idem (.obj fields))

section
variable (kept : Kept sha256 size w)
include kept

theorem kept_put {state : Fields} {data : Json}
    (made : Drafted size w.board state data) :
    Kept sha256 size
      { w with blobs := (putBlob sha256 w.blobs data).1, written := w.written ++ [data] } := by
  obtain ⟨filed, chained, held, attempts⟩ := kept
  refine ⟨filed_putBlob (filed.mono [data]) (mem_append_right _ (mem_singleton_self _)),
    fun name other found => ?_, held_putBlob held data,
    fun a member => attempt_putBlob (attempts a member) data⟩
  rcases getBlob_putBlob_cases found with old | rfl
  · obtain ⟨n, state, same, ordered, linked⟩ := chained name other old
    exact ⟨n, state, same, ordered, linked_putBlob linked data⟩
  · obtain ⟨n, -, -, linked⟩ := linked_draft held made
    exact ⟨n + 1, _, made.text, sortedFields_idem state, linked_putBlob linked other⟩

theorem kept_failed (error : Error) :
    Kept sha256 size { w with log := w.log ++ [⟨w.board, w.board, .error error⟩] } := by
  refine { kept with attempts := fun a member => ?_ }
  rcases mem_append.mp member with old | new
  · exact kept.attempts a old
  · rw [mem_singleton.mp new]
    rfl

private theorem kept_committed {state : Fields} {data : Json}
    (made : Drafted size w.board state data)
    (free : CollisionFree sha256 (w.written ++ [data])) :
    let board : Board := { w.board with state, head := some (sha256 data) }
    Kept sha256 size
      { blobs := (putBlob sha256 w.blobs data).1, board, written := w.written ++ [data]
        log := w.log ++ [⟨w.board, board, .ok (sha256 data)⟩] } := by
  intro board
  have put := kept_put kept made
  have found : getBlob sha256 (putBlob sha256 w.blobs data).1 (sha256 data) =
      some (.obj (sortedFields state)) := by
    rw [← made.text]
    exact getBlob_putBlob (kept.filed.mono [data])
      (mem_append_right _ (mem_singleton_self _)) free
  obtain ⟨n, oldVersion, version, linked⟩ := linked_draft kept.held made
  have linked := linked_putBlob linked data
  refine ⟨put.filed, put.chained, ⟨kept.held.configured, made.owner.trans kept.held.owner,
    Or.inr ⟨_, n + 1, rfl, version, found, linked⟩⟩, fun a member => ?_⟩
  rcases mem_append.mp member with old | new
  · exact put.attempts a old
  · rw [mem_singleton.mp new]
    exact ⟨n,
      { drafted := made.text ▸ made, oldVersion, version, same := rfl
        configured := kept.held.configured, found, linked }⟩

private theorem kept_resume {head coordinator : String} {maxBytes : Nat}
    {board : Board}
    (ok : resume sha256 size w.blobs w.board.searchId head coordinator maxBytes = .ok board) :
    Kept sha256 size { w with board } := by
  obtain ⟨first, configured, found, same⟩ := resume_ok ok
  obtain ⟨owned, coordinated, cap, -⟩ := newBoard_ok configured
  obtain ⟨n, state, data, ordered, linked⟩ := kept.chained head _ found
  have here : board.state = state := Json.obj.inj data
  have id : board.searchId = w.board.searchId := by
    rw [same]
    exact owned
  rw [← here] at ordered linked
  refine ⟨kept.filed, id ▸ kept.chained, ⟨⟨first, ?_⟩, ?_, Or.inr ⟨head, n, ?_, ?_, ?_, ?_⟩⟩,
    kept.attempts⟩
  · rw [same]
    change newBoard first.searchId first.coordinator first.maxBytes = .ok first
    rw [owned, coordinated, cap]
    exact configured
  · rw [id]
    exact linked.good.owner
  · rw [same]
  · exact linked.good.version
  · rw [ordered]
    exact found
  · rw [ordered, id]
    exact linked

private theorem kept_fresh {coordinator : String} {maxBytes : Nat}
    {board : Board} (ok : newBoard w.board.searchId coordinator maxBytes = .ok board) :
    Kept sha256 size { w with board } := by
  obtain ⟨owned, rfl, rfl, none, owner, version⟩ := newBoard_ok ok
  rw [← owned] at ok owner
  exact ⟨kept.filed, owned ▸ kept.chained, ⟨⟨board, ok⟩, owner, Or.inl ⟨none, version⟩⟩,
    kept.attempts⟩

/-- Each step keeps the blobs linked and every commit recoverable. -/
theorem kept_step {action : Action} {next : World}
    (taken : step sha256 size action w = some next) (free : CollisionFree sha256 next.written) :
    Kept sha256 size next := by
  cases action with
  | resume head coordinator maxBytes =>
    rw [step] at taken
    split at taken
    next board ok =>
      cases taken
      -- a resumed board holds what its head names
      exact kept_resume kept ok
    next =>
      cases taken
      exact kept
  | fresh coordinator maxBytes =>
    rw [step] at taken
    split at taken
    next board ok =>
      cases taken
      exact kept_fresh kept ok
    next =>
      cases taken
      exact kept
  | commit writer changes fault =>
    simp only [step, drafted, commit] at taken
    cases made : draft size w.board writer changes with
    | error error =>
      rw [made] at taken
      cases taken
      -- a refused draft writes no blob
      rw [append_nil]
      exact kept_failed kept error
    | ok made' =>
      obtain ⟨state, data⟩ := made'
      rw [made] at taken
      have made := draft_ok made
      cases fault with
      | none =>
        cases taken
        exact kept_committed kept made free
      | some fault =>
        cases fault with
        | before =>
          cases taken
          -- the blob may be filed although the writer saw a failure
          have failed := kept_failed kept .other
          exact { failed with filed := failed.filed.mono [data] }
        | landed =>
          cases taken
          exact kept_failed (kept_put kept made) .other

end

theorem written_step {action : Action} {next : World}
    (taken : step sha256 size action w = some next) : w.written ⊆ next.written := by
  cases action with
  | resume | fresh =>
    rw [step] at taken
    split at taken <;> cases taken <;> exact List.Subset.refl _
  | commit writer changes fault =>
    cases taken
    exact subset_append_left _ _

/-- A successful commit: it goes on from an open state, its state is in order and of the next
version, and resuming its head gives that state back, with its keys in order. -/
structure Recoverable (sha256 : Json → String) (size : Json → Nat) (blobs : Blobs) (a : Attempt)
    (head : String) : Prop where
  open_ : a.before.state.lookup "end_reason" = some .null
  valid : validate a.after.state = .ok ()
  version : ∃ n : Nat, a.before.state.lookup "version" = some (.int n) ∧
    a.after.state.lookup "version" = some (.int (n + 1))
  previous : Json.field a.after.state "previous" = headJson a.before.head
  newHead : a.after.head = some head
  resumed : resume sha256 size blobs a.after.searchId head a.after.coordinator a.after.maxBytes =
    .ok { a.after with state := sortedFields a.after.state }

structure World.Sound (sha256 : Json → String) (size : Json → Nat) (w : World) : Prop where
  failed : ∀ a ∈ w.log, ∀ error, a.result = .error error → a.after = a.before
  committed : ∀ a ∈ w.log, ∀ head, a.result = .ok head → Recoverable sha256 size w.blobs a head
  chained : ∀ head data, getBlob sha256 w.blobs head = some data →
    ∃ n : Nat, part "version" data = .int n ∧ Visits sha256 w.blobs head n

private theorem recoverable {a : Attempt} {head : String} {n : Nat}
    (committed : Committed sha256 size blobs a head n) : Recoverable sha256 size blobs a head := by
  obtain ⟨made, oldVersion, version, same, ⟨first, configured⟩, found, linked⟩ := committed
  have small : size (.obj (sortedFields a.after.state)) ≤ a.before.maxBytes := made.small
  have resumed := resume_linked linked found small configured
  obtain ⟨owned, coordinated, cap, -⟩ := newBoard_ok configured
  refine ⟨made.open_, made.valid, ⟨n, oldVersion, version⟩, made.previous, by rw [same], ?_⟩
  rw [same]
  simp only
  rw [resumed, ← owned, ← coordinated, ← cap]

/-- Whatever is committed, resumed and begun anew from the first board of a search on, the versions of the
board form a chain that can be recovered, if no two of its texts have one hash. -/
theorem commits_recoverable (reached : Reached sha256 size w)
    (free : CollisionFree sha256 w.written) : w.Sound sha256 size := by
  have invariant : CollisionFree sha256 w.written → Kept sha256 size w := by
    apply Runs.reachable_invariant _ _ reached
    · exact fun _ first _ => kept_first first
    · intro s action next kept taken free
      have grows := written_step taken
      exact kept_step (kept fun a first b second => free a (grows first) b (grows second)) taken free
  have kept := invariant free
  refine ⟨fun a member error failed => ?_, fun a member head ok => ?_, fun head data found => ?_⟩
  · have kept := kept.attempts a member
    rw [Attempt.Kept, failed] at kept
    exact kept
  · have kept := kept.attempts a member
    rw [Attempt.Kept, ok] at kept
    obtain ⟨n, committed⟩ := kept
    exact recoverable committed
  · obtain ⟨n, state, rfl, -, linked⟩ := kept.chained head data found
    refine ⟨n, ?_, visits_of_linked linked found⟩
    rw [part, Json.field, linked.good.version]
    rfl

/-- The sha256 of the texts of the three versions below. -/
def versionDigest (data : Json) : String :=
  match part "version" data with
  | .int 1 => "2334f570138cb13048107093af09d8f7795aa401d349a1a894d7fba81fc98a72"
  | .int 2 => "589f7293d19c5ec4e7850fa99e99536abfe787089e8fa875db7078e59f7cb1ea"
  | .int 3 => "8050b57faed5d8114e47afa31a6a09cd8b1544aefbff388412e101a46ebfff95"
  | _ => ""

/-- The lengths of these texts. -/
def versionSize (data : Json) : Nat :=
  match part "version" data with
  | .int 1 => 287
  | .int 2 => 482
  | _ => 489

def openIntent : Json := .obj
  [("id", .str "i1"), ("step", .str "reason-1"), ("task_id", .str "host"),
    ("description", .str "read save"), ("from_facts", .arr []), ("status", .str "open"),
    ("claimant", .null)]

def factFrom (intent : String) : Json := .obj
  [("id", .str "f1"), ("step", .str "explore-1"), ("task_id", .str "t1"),
    ("text", .str "save is public"), ("evidence_refs", .arr [.str "page.php:5"]),
    ("from_intents", .arr [.str intent])]

/-- A fact of an unknown intent is refused. Another process begins a board anew, resumes the first
head, commits twice, and is refused once the search has ended. -/
def threeVersions : List Action :=
  [.commit "host" [("intents", .arr [openIntent])] none,
    .commit "host" [("facts", .arr [factFrom "i9"])] none, .fresh "host" 512,
    .resume "2334f570138cb13048107093af09d8f7795aa401d349a1a894d7fba81fc98a72" "host" 512,
    .commit "host" [("facts", .arr [factFrom "i1"])] none,
    .commit "host" [("end_reason", .str "exhausted")] none,
    .commit "host" [("facts", .arr [])] none]

theorem commits_recoverable_thrice :
    ∃ last, Runs.run (step versionDigest versionSize) threeVersions
        ⟨[], ⟨"search", "host", 4096, none, firstState "search"⟩, [], []⟩ = some last ∧
      last.blobs.length = 3 ∧ last.log.map (·.result.toOption.isSome) =
        [true, false, true, true, false] ∧ last.Sound versionDigest versionSize := by
  have shown : ((Runs.run (step versionDigest versionSize) threeVersions
      ⟨[], ⟨"search", "host", 4096, none, firstState "search"⟩, [], []⟩).map fun last =>
        (last.blobs.length, last.log.map (·.result.toOption.isSome),
          decide (last.written.map versionDigest).Nodup)) =
      some (3, [true, false, true, true, false], true) := by decide +kernel
  obtain ⟨last, ran, shown⟩ := Option.map_eq_some_iff.mp shown
  simp only [Prod.mk.injEq, decide_eq_true_eq] at shown
  obtain ⟨stored, results, apart⟩ := shown
  refine ⟨last, ran, stored, results, commits_recoverable
    ⟨_, threeVersions, ⟨"search", "host", 4096, _, rfl, rfl⟩, ran⟩ ?_⟩
  exact fun a first b second same => inj_on_of_nodup_map apart first second same

end OpenUltraSast.Search.Checkpoints
