import OpenUltraSast.Plane.Backends
import OpenUltraSast.Plane.IngestedRows

/-!
# The rows of a repository

Reads and removals name a repository by its directory alone. They keep to the repository exactly
as long as no other one has rows at the places that the directory reaches.
-/

namespace OpenUltraSast.Plane.Memory

open Values Collections List

/-- The operations at their places; a key outside the store is refused, which ends the call. -/
def placedSteps (b : Backend) : List ObjectStep → List ObjectStep
  | [] => []
  | .merge key rows :: rest =>
    match b.place key with
    | some place => .merge place rows :: placedSteps b rest
    | none => []
  | .remove key ids :: rest =>
    match b.place key with
    | some place => .remove place ids :: placedSteps b rest
    | none => []
  | step :: rest => step :: placedSteps b rest

def ObjectStep.written : ObjectStep → Option String
  | merge place _ => some place
  | _ => none

def History.present (h : History) : List String :=
  (sortedSet (h.log.filterMap ObjectStep.written)).filter fun place =>
    h.store.objects place ≠ []

def History.stored (h : History) : List Row := h.present.flatMap h.store.objects

/-- What `rows` raises: the repository is none, or something without an id is listed. -/
inductive RowsError where
  | notRepository (repo : String)
  | noId

/-- `rows(repo)`. -/
def History.rows (b : Backend) (h : History) (repo : String) : Except RowsError (List Row) :=
  match if repo = "" then some "repos/" else (repoDir repo).map ("repos/" ++ · ++ "/") with
  | none => .error (.notRepository repo)
  | some start =>
    -- The entries of the index are JSON lines too, and have no id to sort by.
    if h.store.index ≠ [] ∧ b.lists start "index.jsonl" = true then .error .noId
    else .ok ((h.present.filter (b.lists start)).flatMap fun place =>
      (h.store.objects place).insertionSort fun row other => idOf row ≤ idOf other)

section Digest
variable (b : Backend) (sha256 : Bytes → String) (linesDigest : List Row → String)

def History.nextAt (h : History) (event : Event) : History :=
  h.extend sha256 (placedSteps b (event.steps sha256 linesDigest h.store))

def historyAt (events : List Event) : History :=
  events.foldl (History.nextAt b sha256 linesDigest) {}

end Digest

def At (b : Backend) (place : String) (row : Row) : Prop :=
  ∃ dir, repoDir (text row "repo") = some dir ∧ isPin (text row "pin") = true ∧
    b.place ("repos/" ++ dir ++ "/" ++ text row "pin" ++ ".jsonl") = some place

def ObjectStep.IsKeyed : ObjectStep → Prop
  | merge key rows => ∀ row ∈ rows, row.key = some key ∧ isPin (text row "pin") = true
  | _ => True

def ObjectStep.IsPlaced (b : Backend) : ObjectStep → Prop
  | merge place rows => ∀ row ∈ rows, At b place row
  | _ => True

structure Homed (b : Backend) (sha256 : Bytes → String) (h : History) : Prop where
  agrees : Agrees sha256 h
  homed : ∀ place, ∀ row ∈ h.store.objects place, At b place row
  written : ∀ place, h.store.objects place ≠ [] → place ∈ h.log.filterMap ObjectStep.written

theorem At.congr {b : Backend} {place : String} {row other : Row} (home : At b place row)
    (repo : text other "repo" = text row "repo") (pin : text other "pin" = text row "pin") :
    At b place other := by
  obtain ⟨dir, named, pinned, placed⟩ := home
  exact ⟨dir, by rw [repo, named], by rw [pin, pinned], by rw [pin, placed]⟩

theorem isPin_of_validateRow {raw : Json} {row : Row} (valid : validateRow raw = .ok row) :
    isPin (text row "pin") = true := by
  unfold validateRow at valid
  split at valid
  next =>
    simp only at valid
    split at valid
    next => cases valid
    next =>
      split at valid
      next => cases valid
      next =>
        split at valid
        next => cases valid
        next pinned =>
          cases valid
          simpa using pinned
  next => cases valid

variable {steps : List ObjectStep}

private theorem keyed_of_putRows {rows : List Json} (put : putRows rows = .ok steps) :
    ∀ step ∈ steps, step.IsKeyed := by
  obtain ⟨pairs, checked, rfl⟩ := putRows_ok put
  intro step member
  obtain ⟨key, -, rfl⟩ := mem_map.mp member
  intro row grouped
  obtain ⟨pair, kept, rfl⟩ := mem_map.mp grouped
  rw [mem_filter, decide_eq_true_eq] at kept
  obtain ⟨raw, -, source⟩ := exists_left_of_forall₂ (mapM_eq_ok_iff.mp checked) kept.1
  obtain ⟨row, valid, filled, keyed⟩ := checkRow_ok source
  have pin : text pair.2 "pin" = text row "pin" := by
    rw [text, text, lookup_normaliseRow filled (by decide)]
  rw [key_normaliseRow filled, keyed, pin, kept.2]
  exact ⟨rfl, isPin_of_validateRow valid⟩

theorem keyed_steps {sha256 : Bytes → String} {linesDigest : List Row → String} (s : Store)
    (call : Call) : ∀ step ∈ (call.steps sha256 linesDigest s).1, step.IsKeyed :=
  steps_all (fun _ => trivial) (fun _ _ put => keyed_of_putRows put) (fun _ => trivial)
    (fun _ _ => trivial) (fun _ => trivial) s call

theorem placed_placedSteps {b : Backend} (sound : ∀ step ∈ steps, step.IsNormal ∧ step.IsKeyed) :
    ∀ step ∈ placedSteps b steps, step.IsNormal ∧ step.IsPlaced b := by
  induction steps with
  | nil => intro step member; cases member
  | cons first rest ih =>
    have others := ih fun step member => sound step (mem_cons_of_mem _ member)
    have own := sound first mem_cons_self
    intro step member
    cases first with
    | merge key rows =>
      unfold placedSteps at member
      split at member
      -- a row is merged under its own key, which has this place
      next place placed =>
        rcases mem_cons.mp member with rfl | later
        · refine ⟨own.1, fun row among => ?_⟩
          obtain ⟨keyed, pinned⟩ := own.2 row among
          rw [Row.key, objectKey, Option.map_eq_some_iff] at keyed
          obtain ⟨dir, named, same⟩ := keyed
          exact ⟨dir, named, pinned, same ▸ placed⟩
        · exact others step later
      next => cases member
    | remove key ids =>
      unfold placedSteps at member
      split at member
      next =>
        rcases mem_cons.mp member with rfl | later
        · exact ⟨trivial, trivial⟩
        · exact others step later
      next => cases member
    | _ =>
      rcases mem_cons.mp member with rfl | later
      · exact ⟨trivial, trivial⟩
      · exact others step later

variable {h : History}

section Digest
variable {b : Backend} {sha256 : Bytes → String} {linesDigest : List Row → String}

/-- Each placed write keeps every row at the place of its repository. -/
theorem homed_step {s : Store} {log : List ObjectStep} {step : ObjectStep}
    (homed : Homed b sha256 ⟨s, log⟩) (sound : step.IsNormal ∧ step.IsPlaced b) :
    Homed b sha256 ⟨step.apply sha256 s, step :: log⟩ := by
  have settled := homed.agrees.settled
  -- An operation that touches no rows.
  have other (same : (step.apply sha256 s).objects = s.objects)
      (unwritten : step.written = none) :
      Homed b sha256 ⟨step.apply sha256 s, step :: log⟩ := by
    constructor
    · exact agrees_step homed.agrees sound.1
    · intro place
      simp only [same]
      exact homed.homed place
    · intro place filled
      simp only [same] at filled
      rw [filterMap_cons_none unwritten]
      exact homed.written place filled
  cases step with
  | merge place new =>
    constructor
    · exact agrees_step homed.agrees sound.1
    · intro asked row member
      by_cases here : asked = place
      · subst here
        simp only [ObjectStep.apply, if_true] at member
        rcases mem_mergeRows (settled asked) member with older | ⟨source, among, rfl⟩
        · exact homed.homed asked row older
        · exact (sound.2 source among).congr (text_line source _) (text_line source _)
      · simp only [ObjectStep.apply, if_neg here] at member
        exact homed.homed asked row member
    · intro asked filled
      change asked ∈ place :: log.filterMap ObjectStep.written
      rw [mem_cons]
      by_cases here : asked = place
      · exact .inl here
      · simp only [ObjectStep.apply, if_neg here] at filled
        exact .inr (homed.written asked filled)
  | remove place ids =>
    have fewer (asked : String) :
        ((ObjectStep.remove place ids).apply sha256 s).objects asked ⊆ s.objects asked := by
      by_cases here : asked = place
      · subst here
        simp only [ObjectStep.apply, if_true]
        rw [keepRows_eq (settled asked)]
        exact filter_subset_self _
      · simp only [ObjectStep.apply, if_neg here]
        exact List.Subset.refl _
    constructor
    · exact agrees_step homed.agrees sound.1
    · exact fun asked row member => homed.homed asked row (fewer asked member)
    · intro asked filled
      apply homed.written asked
      intro empty
      exact filled (subset_nil.mp (empty ▸ fewer asked))
  | putFacts data =>
    apply other
    · rw [ObjectStep.apply]
      split <;> rfl
    · rfl
  | check sha => exact other rfl rfl
  | record entry => exact other rfl rfl
  | decay sha data => exact other rfl rfl

theorem homed_extend (homed : Homed b sha256 h) (sound : ∀ step ∈ steps, step.IsNormal ∧ step.IsPlaced b) :
    Homed b sha256 (h.extend sha256 steps) := by
  induction steps generalizing h with
  | nil => exact homed
  | cons step steps ih =>
    have first : Homed b sha256 ⟨step.apply sha256 h.store, step :: h.log⟩ :=
      homed_step homed (sound step mem_cons_self)
    have rest := ih first fun later member => sound later (mem_cons_of_mem _ member)
    unfold History.extend at rest ⊢
    rw [reverse_cons, append_assoc]
    exact rest

theorem homed_nextAt (linesDigest : List Row → String) (homed : Homed b sha256 h) (event : Event) :
    Homed b sha256 (h.nextAt b sha256 linesDigest event) := by
  apply homed_extend homed
  apply placed_placedSteps
  exact event_steps_all (fun c step member => ⟨normal_steps h.store c step member,
    keyed_steps h.store c step member⟩) (fun _ _ => ⟨trivial, trivial⟩) event

theorem homed_historyAt (events : List Event) :
    Homed b sha256 (historyAt b sha256 linesDigest events) := by
  have kept : ∀ h, Homed b sha256 h →
      Homed b sha256 (events.foldl (History.nextAt b sha256 linesDigest) h) := by
    induction events with
    | nil => exact fun _ homed => homed
    | cons event events ih => exact fun h homed => ih _ (homed_nextAt linesDigest homed event)
  apply kept
  constructor
  · exact ⟨fun _ _ => rfl, fun _ => rfl, by simp, by simp⟩
  · intro place row member
    cases member
  · intro place filled
    exact absurd rfl filled

variable (b)

/-- `rows` gives the stored rows of the repositories with the same key, and no others. -/
def GivesOwn (h : History) (repo : String) : Prop :=
  ∃ rows, h.rows b repo = .ok rows ∧
    rows.Perm (h.stored.filter fun row => repoKey (text row "repo") = repoKey repo)

/-- `drop_rows` leaves the rows of the repositories with another key. -/
def LeavesOthers (sha256 : Bytes → String) (linesDigest : List Row → String) (h : History)
    (repo pin : String) (ids : List String) : Prop :=
  ∀ place, ∀ row ∈ h.store.objects place, repoKey (text row "repo") ≠ repoKey repo →
    row ∈ (h.nextAt b sha256 linesDigest (.call (.drop repo pin ids) none)).store.objects place

structure Apart (h : History) (repo dir : String) : Prop where
  rows : ∀ row ∈ h.stored, ∀ other, repoDir (text row "repo") = some other →
    b.Reaches dir other → repoKey (text row "repo") = repoKey repo
  index : b.ReachesIndex dir → h.store.index = []

/-- A repository and a pin lead to no row of another repository that some ids name. -/
def NamesOwn (h : History) (repo pin : String) (ids : List String) : Prop :=
  ∀ row ∈ h.stored, idOf row ∈ ids → row.key.bind b.place = (objectKey repo pin).bind b.place →
    repoKey (text row "repo") = repoKey repo

variable {b}

theorem mem_present (homed : Homed b sha256 h) (place : String) :
    place ∈ h.present ↔ h.store.objects place ≠ [] := by
  rw [History.present, mem_filter, decide_eq_true_eq, mem_sortedSet]
  exact ⟨And.right, fun filled => ⟨homed.written place filled, filled⟩⟩

theorem mem_stored (homed : Homed b sha256 h) (row : Row) :
    row ∈ h.stored ↔ ∃ place, row ∈ h.store.objects place := by
  rw [History.stored, mem_flatMap]
  constructor
  · rintro ⟨place, -, member⟩
    exact ⟨place, member⟩
  · rintro ⟨place, member⟩
    exact ⟨place, (mem_present homed place).mpr (ne_nil_of_mem member), member⟩

private theorem repoDir_of_repoKey {repo other : String} (same : repoKey repo = repoKey other) :
    repoDir repo = repoDir other := by
  rw [repoDir, repoDir, same]

variable {repo dir : String}

private theorem ne_empty_of_repoDir (named : repoDir repo = some dir) : repo ≠ "" := by
  rintro rfl
  have none_ : repoDir "" = none := by decide
  rw [none_] at named
  cases named

theorem rows_eq (h : History) (named : repoDir repo = some dir) :
    h.rows b repo =
      if h.store.index ≠ [] ∧ b.lists ("repos/" ++ dir ++ "/") "index.jsonl" = true then
        .error .noId
      else .ok ((h.present.filter (b.lists ("repos/" ++ dir ++ "/"))).flatMap fun place =>
        (h.store.objects place).insertionSort fun row other => idOf row ≤ idOf other) := by
  rw [History.rows, if_neg (ne_empty_of_repoDir named), named, Option.map_some]

theorem flatMap_filter {listed : String → Bool} (f : String → List Row) (places : List String) :
    (places.filter listed).flatMap f =
      places.flatMap fun place => if listed place then f place else [] := by
  induction places with
  | nil => rfl
  | cons place places ih =>
    rw [flatMap_cons, ← ih, filter_cons]
    by_cases here : listed place = true
    · rw [if_pos here, if_pos here, flatMap_cons]
    · rw [if_neg here, if_neg here, nil_append]

theorem lists_place {place : String} {row : Row} (home : At b place row) {dir other : String}
    (plain : '/' ∉ dir.toList ∧ dir ≠ "") (named : repoDir (text row "repo") = some other) :
    b.lists ("repos/" ++ dir ++ "/") place = true ↔ b.Reaches dir other := by
  obtain ⟨own, ownNamed, pinned, placed⟩ := home
  cases ownNamed.symm.trans named
  exact lists_row b plain (plain_repoDir named) pinned placed

private theorem reaches_self (b : Backend) (dir : String) : b.Reaches dir dir := by
  cases b with
  | bucket => rfl
  | directory root => exact .inl rfl

theorem givesOwn_iff (homed : Homed b sha256 h) (named : repoDir repo = some dir) :
    GivesOwn b h repo ↔ Apart b h repo dir := by
  have plain := plain_repoDir named
  rw [GivesOwn, rows_eq h named]
  constructor
  · rintro ⟨rows, given, perm⟩
    split at given
    next => cases given
    next clear =>
      cases given
      constructor
      · intro row member other otherNamed reached
        obtain ⟨place, among⟩ := (mem_stored homed row).mp member
        have listed := (lists_place (homed.homed place row among) plain otherNamed).mpr reached
        have given := perm.mem_iff.mp (mem_flatMap.mpr
          ⟨place, mem_filter.mpr ⟨(mem_present homed place).mpr (ne_nil_of_mem among),
            listed⟩, (mem_insertionSort _).mpr among⟩)
        exact of_decide_eq_true (mem_filter.mp given).2
      · intro reached
        by_contra filled
        exact clear ⟨filled, (lists_index b plain).mpr reached⟩
  · rintro ⟨own, index⟩
    have clear : ¬ (h.store.index ≠ [] ∧ b.lists ("repos/" ++ dir ++ "/") "index.jsonl" = true) :=
      fun both => both.1 (index ((lists_index b plain).mp both.2))
    rw [if_neg clear]
    refine ⟨_, rfl, ?_⟩
    have sorted := List.Perm.flatMap_left (h.present.filter (b.lists ("repos/" ++ dir ++ "/")))
      fun place _ => perm_insertionSort (fun row other => idOf row ≤ idOf other)
        (h.store.objects place)
    refine sorted.trans (List.Perm.of_eq ?_)
    rw [flatMap_filter, History.stored, filter_flatMap]
    -- All rows of an object that is listed are the repository's, and none of the others.
    apply flatMap_congr
    intro place present
    split
    next listed =>
      symm
      rw [filter_eq_self]
      intro row among
      obtain ⟨other, otherNamed, -⟩ := homed.homed place row among
      have reached := (lists_place (homed.homed place row among) plain otherNamed).mp listed
      exact decide_eq_true (own row ((mem_stored homed row).mpr ⟨place, among⟩) other otherNamed
        reached)
    next unlisted =>
      symm
      rw [filter_eq_nil_iff]
      intro row among same
      have otherNamed := (repoDir_of_repoKey (of_decide_eq_true same)).trans named
      exact unlisted ((lists_place (homed.homed place row among) plain otherNamed).mpr
        (reaches_self b dir))

theorem objects_drop (homed : Homed b sha256 h) (repo pin : String) (ids : List String) (place : String) :
    (h.nextAt b sha256 linesDigest (.call (.drop repo pin ids) none)).store.objects place =
      if (objectKey repo pin).bind b.place = some place then
        (h.store.objects place).filter fun row => idOf row ∉ ids
      else h.store.objects place := by
  rw [History.nextAt, History.extend, Event.steps, Call.steps]
  cases keyed : objectKey repo pin with
  | none => rfl
  | some key =>
    rw [Option.bind_some, placedSteps]
    cases placed : b.place key with
    | none => rfl
    | some own =>
      change (if place = own then keepRows (h.store.objects own) ids else h.store.objects place) = _
      by_cases here : place = own
      · subst here
        rw [if_pos rfl, if_pos rfl, keepRows_eq (homed.agrees.settled place)]
      · rw [if_neg here, if_neg fun same => here (Option.some.inj same).symm]

/-- A drop leaves the rows of others exactly where it names none of them. -/
theorem leavesOthers_iff (homed : Homed b sha256 h) (repo pin : String) (ids : List String) :
    LeavesOthers b sha256 linesDigest h repo pin ids ↔ NamesOwn b h repo pin ids := by
  have keyed {place : String} {row : Row} (member : row ∈ h.store.objects place) :
      row.key.bind b.place = some place := by
    obtain ⟨dir, named, -, placed⟩ := homed.homed place row member
    rw [Row.key, objectKey, named]
    exact placed
  unfold LeavesOthers NamesOwn
  simp only [objects_drop homed, mem_stored homed]
  constructor
  · rintro leaves row ⟨place, member⟩ dropped same
    by_contra other
    have kept := leaves place row member other
    rw [if_pos (same.symm.trans (keyed member)), mem_filter, decide_eq_true_eq] at kept
    exact kept.2 dropped
  · intro own place row member other
    split
    next here =>
      rw [mem_filter, decide_eq_true_eq]
      refine ⟨member, fun dropped => ?_⟩
      exact other (own row ⟨place, member⟩ dropped ((keyed member).trans here.symm))
    next => exact member

/-- After any calls on a store, a repository is read exactly if its directory reaches no row of
another one, and a removal leaves the other repositories exactly if it names none of their rows at
the place of its key. -/
theorem repositories_isolated_iff (b : Backend) (events : List Event) {repo dir : String}
    (named : repoDir repo = some dir) :
    let h := historyAt b sha256 linesDigest events
    (GivesOwn b h repo ↔ Apart b h repo dir) ∧ ∀ pin ids,
      (LeavesOthers b sha256 linesDigest h repo pin ids ↔ NamesOwn b h repo pin ids) :=
  ⟨givesOwn_iff (homed_historyAt events) named, leavesOthers_iff (homed_historyAt events) repo⟩

end Digest

def labelRow (id repo : String) : Row :=
  [("candidate", .str ""), ("candidates_digest", .str ""), ("final", .str ""), ("id", .str id),
    ("image", .str "image"), ("kind", .str "label"), ("pin", .str pinned), ("population", .str "p"),
    ("profile", .str ""), ("repo", .str repo), ("run", .str "run"), ("split", .str "test"),
    ("task", .str "task")]

/-- A row of `c` of the owner `a__b`, and one of `b__c` of the owner `a`. -/
def sharedDirectory : History :=
  historyAt .bucket contentName idNames
    [.call (.put [.obj (labelRow "x" "host/a__b/c"), .obj (labelRow "y" "host/a/b__c")]) none]

private theorem sharedDirectory_row : ∃ row ∈ sharedDirectory.store.objects
      ("repos/host__a__b__c/" ++ pinned ++ ".jsonl"),
    idOf row = "y" ∧ text row "repo" = "host/a/b__c" ∧ text row "pin" = pinned := by
  have rows : ((sharedDirectory.store.objects ("repos/host__a__b__c/" ++ pinned ++ ".jsonl")).map
      fun row => (idOf row, text row "repo", text row "pin")) =
        [("x", "host/a__b/c", pinned), ("y", "host/a/b__c", pinned)] := by decide +kernel
  have second : ("y", "host/a/b__c", pinned) ∈
      [("x", "host/a__b/c", pinned), ("y", "host/a/b__c", pinned)] := by simp
  rw [← rows, mem_map] at second
  obtain ⟨row, member, fields⟩ := second
  rw [Prod.mk.injEq, Prod.mk.injEq] at fields
  exact ⟨row, member, fields⟩

/-- The rows of the one are read with those of the other, and a removal takes them. -/
theorem shared_directory_not_isolated :
    ¬ GivesOwn .bucket sharedDirectory "host/a__b/c" ∧
    ¬ LeavesOthers .bucket contentName idNames sharedDirectory "host/a__b/c" pinned ["y"] := by
  have homed : Homed .bucket contentName sharedDirectory := homed_historyAt _
  have directory : repoDir "host/a__b/c" = some "host__a__b__c" := by decide +kernel
  have otherDirectory : repoDir "host/a/b__c" = some "host__a__b__c" := by decide +kernel
  have apart : repoKey "host/a/b__c" ≠ repoKey "host/a__b/c" := by decide +kernel
  obtain ⟨row, member, named, repo, pin⟩ := sharedDirectory_row
  have stored := (mem_stored homed row).mpr ⟨_, member⟩
  rw [givesOwn_iff homed directory, leavesOthers_iff homed]
  constructor
  · intro alone
    have same := alone.rows row stored "host__a__b__c" (by rw [repo, otherDirectory]) rfl
    exact apart (repo ▸ same)
  · intro own
    have same := own row stored (by simp [named])
      (by rw [Row.key, repo, pin, objectKey, objectKey, directory, otherDirectory])
    exact apart (repo ▸ same)

def threeCalls : List Event :=
  [.call (.put [.obj (labelRow "x" "host/a__b/c"), .obj (labelRow "y" "host/a/b__c")]) none,
    .call (.put [.obj (labelRow "z" "host/d/e"), .obj (labelRow "old" "host/d/e")]) none,
    .call (.drop "host/d/e" pinned ["old"]) none]

/-- Beside the two that share a directory, a third repository is read alone, and a removal from it that
also names a row of the second leaves that row. -/
theorem repositories_isolated_iff_shared :
    let h := historyAt .bucket contentName idNames threeCalls
    h.stored.map idOf = ["x", "y", "z"] ∧ GivesOwn .bucket h "host/d/e" ∧
      ¬ GivesOwn .bucket h "host/a__b/c" ∧
      LeavesOthers .bucket contentName idNames h "host/d/e" pinned ["y", "z"] := by
  intro h
  have third : repoDir "host/d/e" = some "host__d__e" := by decide +kernel
  have first : repoDir "host/a__b/c" = some "host__a__b__c" := by decide +kernel
  obtain ⟨own, leaves⟩ :=
    @repositories_isolated_iff contentName idNames .bucket threeCalls "host/d/e" _ third
  obtain ⟨shared, -⟩ :=
    @repositories_isolated_iff contentName idNames .bucket threeCalls "host/a__b/c" _ first
  have apart : ∀ row ∈ h.stored, repoKey (text row "repo") = repoKey "host/d/e" ∨
      repoDir (text row "repo") ≠ some "host__d__e" ∧
        row.key.bind Backend.bucket.place ≠ (objectKey "host/d/e" pinned).bind Backend.bucket.place := by
    decide +kernel
  refine ⟨by decide +kernel, own.mpr ⟨?_, False.elim⟩, fun given => ?_, (leaves pinned _).mpr ?_⟩
  · rintro row member other named rfl
    exact (apart row member).resolve_right fun others => others.1 named
  · have among : ∃ row ∈ h.stored, repoDir (text row "repo") = some "host__a__b__c" ∧
        repoKey (text row "repo") ≠ repoKey "host/a__b/c" := by decide +kernel
    obtain ⟨row, member, directory, other⟩ := among
    exact other ((shared.mp given).rows row member _ directory rfl)
  · intro row member _ here
    exact (apart row member).resolve_right fun others => others.2 here

end OpenUltraSast.Plane.Memory
