import OpenUltraSast.Hunt.Losses

/-!
# A failing candidate

Losing records never turns a rejection by the differences into an acceptance. It can take a family
out of the comparison that only the lost records reported, and with it the rejection for the interval
that such a family lacks.
-/

namespace OpenUltraSast.Hunt.Rounds

open Collections Dicts List

/-- The family of a result, where `pooled` stands for all. -/
def familyOf (family : String) : Option String := if family = "pooled" then none else some family

section Results
variable {generator : Generator} {resamples : Nat} {scope : Scope} {units : List Paired}

variable (generator resamples scope units) in
def resultOf (family : String) : FoldResult :=
  ⟨scope, family, (paired generator resamples units (familyOf family)).1,
    (paired generator resamples units (familyOf family)).2⟩

private theorem familyResults_eq : familyResults generator resamples scope units =
    ofEntries (("pooled" :: families units).map fun family =>
      (family, resultOf generator resamples scope units family)) := rfl

theorem mem_familyResults {entry : String × FoldResult}
    (member : entry ∈ familyResults generator resamples scope units) :
    entry.1 ∈ "pooled" :: families units ∧
      entry.2 = resultOf generator resamples scope units entry.1 := by
  obtain ⟨family, among, rfl⟩ := mem_map.mp (mem_of_mem_ofEntries member)
  exact ⟨among, rfl⟩

theorem mem_keys_familyResults {family : String} :
    family ∈ keys (familyResults generator resamples scope units) ↔
      family ∈ "pooled" :: families units := by
  rw [familyResults_eq, mem_keys_ofEntries, Dicts.keys, map_map]
  simp

theorem lookup_familyResults {family : String} (among : family ∈ "pooled" :: families units) :
    (familyResults generator resamples scope units).lookup family =
      some (resultOf generator resamples scope units family) := by
  obtain ⟨result, found⟩ := mem_keys_iff.mp (mem_keys_familyResults.mpr among)
  exact found.trans (congrArg some (mem_familyResults (mem_of_lookup found)).2)

private theorem pooledDiff_familyResults :
    pooledDiff (familyResults generator resamples scope units) = recallDiff units none := by
  rw [pooledDiff, lookup_familyResults mem_cons_self]
  rfl

structure Compared (units : List Paired) : Prop where
  positive : ∀ family ∈ "pooled" :: families units, positives units (familyOf family) ≠ []
  ordinary : ordinaries units ≠ []

theorem familyReasons_eq_nil_iff (enough : 2 ≤ resamples) (family : String) :
    familyReasons scope family (resultOf generator resamples scope units family) = [] ↔
      positives units (familyOf family) ≠ [] ∧ ordinaries units ≠ [] := by
  have recall_ : intervalPresent (resultOf generator resamples scope units family).recall_ = true ↔
      positives units (familyOf family) ≠ [] := by
    rw [resultOf, paired, intervalPresent_iff enough, ne_eq, map_eq_nil_iff]
  have suspicion : intervalPresent (resultOf generator resamples scope units family).suspicionsPerPush
      = true ↔ ordinaries units ≠ [] := by
    rw [resultOf, paired, intervalPresent_iff enough, ne_eq, map_eq_nil_iff]
  have own : ¬ ((resultOf generator resamples scope units family).scope ≠ scope ∨
      (resultOf generator resamples scope units family).family ≠ family) := by simp [resultOf]
  rw [familyReasons, if_neg own, ← recall_, ← suspicion, nil_append, append_eq_nil_iff]
  simp only [ite_eq_left_iff, cons_ne_nil, imp_false, not_not]

theorem scopeReasons_eq_nil_iff (enough : 2 ≤ resamples) :
    scopeReasons scope (familyResults generator resamples scope units) = [] ↔ Compared units := by
  have pooled : ¬ "pooled" ∉ keys (familyResults generator resamples scope units) :=
    not_not.mpr (mem_keys_familyResults.mpr mem_cons_self)
  rw [scopeReasons, if_neg pooled, append_nil, flatMap_eq_nil_iff]
  constructor
  · intro all
    have among (family : String) (member : family ∈ "pooled" :: families units) :=
      (familyReasons_eq_nil_iff enough family).mp (all _ (mem_of_lookup (lookup_familyResults member)))
    exact ⟨fun family member => (among family member).1, (among "pooled" mem_cons_self).2⟩
  · intro compared entry member
    obtain ⟨among, same⟩ := mem_familyResults member
    rw [same]
    exact (familyReasons_eq_nil_iff enough entry.1).mpr ⟨compared.positive _ among, compared.ordinary⟩

end Results

structure Improves (rule : Rule) (compile holdout : List Paired) : Prop where
  same : ∀ family, family ∈ "pooled" :: families compile ↔ family ∈ "pooled" :: families holdout
  compiled : ∀ d, recallDiff compile none = some d → 0 ≤ d
  heldout : ∀ d, recallDiff holdout none = some d → 0 ≤ d
  positive : (∃ d, recallDiff compile none = some d ∧ 0 < d) ∨
    ∃ d, recallDiff holdout none = some d ∧ 0 < d
  apart : ∀ d, recallDiff holdout none = some d → rule.tolerance < |d|
  floors : ∀ family ∈ families holdout, family ≠ "pooled" →
    ∀ d, recallDiff holdout (some family) = some d → rule.floor family ≤ d

section Decision
variable {generator : Generator} {resamples : Nat} {compile holdout : List Paired} {rule : Rule}

theorem differenceReasons_eq_nil_iff :
    differenceReasons rule (familyResults generator resamples .compile compile)
      (familyResults generator resamples .holdout holdout) = [] ↔ Improves rule compile holdout := by
  have any_ {p : ℚ → Bool} {o : Option ℚ} : o.any p = true ↔ ∃ d, o = some d ∧ p d = true := by
    cases o <;> simp
  have if_ {p : Prop} [Decidable p] {reason : String} :
      (if p then [reason] else []) = [] ↔ ¬ p := by
    by_cases p <;> simp [*]
  have else_ {p : Prop} [Decidable p] {reason : String} :
      (if p then [] else [reason]) = [] ↔ p := by
    by_cases p <;> simp [*]
  -- the empty list: none of the checks in turn appends its reason
  simp only [differenceReasons, append_eq_nil_iff, if_, else_, ne_eq, not_not,
    pooledDiff_familyResults, any_, decide_eq_true_eq, not_exists, not_and, not_lt, not_le,
    flatMap_eq_nil_iff]
  constructor
  · rintro ⟨⟨⟨⟨⟨same, compiled⟩, heldout⟩, positive⟩, apart⟩, floors⟩
    refine ⟨fun family => ?_, compiled, heldout, positive, apart, fun family among other d found => ?_⟩
    · rw [← mem_keys_familyResults, sortedSet_eq_iff.mp same family, mem_keys_familyResults]
    · -- a floor over the entries of the dictionary is one over the families
      have entry := mem_of_lookup (@lookup_familyResults generator resamples .holdout holdout family
        (mem_cons_of_mem _ among))
      have named : recallDiff holdout (some family) =
          (resultOf generator resamples .holdout holdout family).recall_.diff := by
        rw [resultOf, paired, familyOf, if_neg other]
        rfl
      rw [named] at found
      exact floors _ entry other d found
  · rintro ⟨same, compiled, heldout, positive, apart, floors⟩
    refine ⟨⟨⟨⟨⟨?_, compiled⟩, heldout⟩, positive⟩, apart⟩, fun entry member other d found => ?_⟩
    · rw [sortedSet_eq_iff]
      intro family
      rw [mem_keys_familyResults, mem_keys_familyResults, same]
    · obtain ⟨among, result⟩ := mem_familyResults member
      have named : recallDiff holdout (some entry.1) = entry.2.recall_.diff := by
        rw [result, resultOf, paired, familyOf, if_neg other]
        rfl
      rw [← named] at found
      exact floors _ (mem_of_ne_of_mem other among) other d found

end Decision

def unitOf (current candidate : Arm) (tolerance : Int) (key : Change × Nat) : Paired :=
  ⟨key.1, key.2, outcome (current.record key.1.id key.2) key.1 tolerance,
    outcome (candidate.record key.1.id key.2) key.1 tolerance⟩

section Units
variable (inputDigest : Change → String → List String → String)

/-- The records of a program that a comparison reads belong to its study. -/
def Belong (arm : Arm) (read : List (Change × Nat)) : Prop :=
  ∀ key ∈ read, checkRecord inputDigest arm.study key.1 (arm.record key.1.id key.2) = .ok ()

variable {inputDigest} {current candidate : Arm} {changes : List Change} {tolerance : Int}
  {resamples : Nat}

theorem pairUnit_eq_ok_iff {change : Change} {number : Nat} {unit : Paired} :
    pairUnit inputDigest current candidate tolerance change number = .ok unit ↔
      checkRecord inputDigest current.study change (current.record change.id number) = .ok () ∧
        checkRecord inputDigest candidate.study change (candidate.record change.id number) = .ok () ∧
          unitOf current candidate tolerance (change, number) = unit := by
  rw [pairUnit]
  simp only [bind_eq_ok_iff, Except.ok.injEq]
  constructor
  · rintro ⟨⟨⟩, own, ⟨⟩, other, same⟩
    exact ⟨own, other, same⟩
  · rintro ⟨own, other, same⟩
    exact ⟨(), own, (), other, same⟩

theorem pairUnits_eq_ok_iff {units : List Paired} :
    pairUnits inputDigest current candidate changes tolerance resamples = .ok units ↔
      checkInputs current.study candidate.study changes tolerance resamples = .ok () ∧
        Belong inputDigest current (unitKeys current candidate changes) ∧
        Belong inputDigest candidate (unitKeys current candidate changes) ∧
        (unitKeys current candidate changes).map (unitOf current candidate tolerance) = units := by
  rw [pairUnits, bind_eq_ok_iff]
  simp only [mapM_eq_ok_iff, pairUnit_eq_ok_iff]
  generalize unitKeys current candidate changes = read
  have split : List.Forall₂ (fun key unit =>
      checkRecord inputDigest current.study key.1 (current.record key.1.id key.2) = .ok () ∧
        checkRecord inputDigest candidate.study key.1 (candidate.record key.1.id key.2) = .ok () ∧
          unitOf current candidate tolerance (key.1, key.2) = unit) read units ↔
      Belong inputDigest current read ∧ Belong inputDigest candidate read ∧
        read.map (unitOf current candidate tolerance) = units := by
    induction read generalizing units with
    | nil => cases units <;> simp [Belong]
    | cons key rest ih =>
      cases units with
      | nil => simp
      | cons unit others =>
        rw [forall₂_cons, ih]
        simp only [Belong, forall_mem_cons, map_cons, List.cons.injEq]
        tauto
  rw [split]
  constructor
  · rintro ⟨⟨⟩, checked, rest⟩
    exact ⟨checked, rest⟩
  · rintro ⟨checked, rest⟩
    exact ⟨(), checked, rest⟩

theorem enough_of_checkInputs {a b : Option Study}
    (checked : checkInputs a b changes tolerance resamples = .ok ()) : 2 ≤ resamples := by
  unfold checkInputs at checked
  split at checked
  next => cases checked
  next fits => omega

end Units

def Record.Fails (record : Record) : Prop :=
  record.done = false ∨ record.status = "instrument_failure" ∨ record.parseFailed = true

inductive RecordLost (before : Option Record) : Option Record → Prop where
  | same : RecordLost before before
  | missing : RecordLost before none
  | failed (record : Record) (fails : record.Fails)
      (identity : ∀ old, before = some old → record.id = old.id ∧ record.programId = old.programId ∧
        record.mask = old.mask ∧ record.inputDigest = old.inputDigest) :
      RecordLost before (some record)

structure Arm.Lost (before after : Arm) : Prop where
  study : after.study = before.study
  directories : after.directories = before.directories
  record : ∀ id number, RecordLost (before.record id number) (after.record id number)

theorem counted_of_lost {before after : Option Record} (lost : RecordLost before after) :
    after = before ∨ counted after = [] := by
  cases lost with
  | same => exact .inl rfl
  | missing => exact .inr rfl
  | failed record fails =>
    right
    rw [counted]
    rcases fails with unfinished | instrument | unparsed
    · simp [unfinished]
    · simp [instrument]
    · simp [unparsed]

theorem unitOf_lost {current before after : Arm} (lost : before.Lost after) (tolerance : Int)
    (key : Change × Nat) :
    (unitOf current before tolerance key).Lost (unitOf current after tolerance key) where
  change := rfl
  current := rfl
  candidate := by
    rcases counted_of_lost (lost.record key.1.id key.2) with same | none_
    · exact .inl (by rw [unitOf, unitOf, same])
    · right
      simp [unitOf, outcome, none_, searchHit, findings]

/-- One scope of a comparison: both programs over its changes. -/
structure Fold where
  current : Arm
  candidate : Arm
  changes : List Change

def Fold.read (fold : Fold) : List (Change × Nat) := unitKeys fold.current fold.candidate fold.changes

/-- Every family that the candidate reports in a record that counts is the label of a change. -/
def Fold.Labelled (fold : Fold) : Prop :=
  ∀ key ∈ fold.read, ∀ defect ∈ counted (fold.candidate.record key.1.id key.2),
    defect.family = "" ∨ defect.family = "pooled" ∨
      ∃ change ∈ fold.changes, change.family = defect.family

def Fold.units (fold : Fold) (tolerance : Int) : List Paired :=
  fold.read.map (unitOf fold.current fold.candidate tolerance)

structure Fold.Lost (before after : Fold) : Prop where
  current : after.current = before.current
  changes : after.changes = before.changes
  candidate : before.candidate.Lost after.candidate

section Folds
variable {before after : Fold} {tolerance : Int}

theorem Fold.read_lost (lost : before.Lost after) : after.read = before.read := by
  have same : after.candidate.repeats = before.candidate.repeats := by
    rw [Arm.repeats, Arm.repeats, lost.candidate.study, lost.candidate.directories]
  rw [Fold.read, Fold.read, unitKeys, unitKeys, lost.changes, repeats, repeats, lost.current, same]

variable (tolerance) in
theorem Fold.units_lost (lost : before.Lost after) :
    List.Forall₂ Paired.Lost (before.units tolerance) (after.units tolerance) := by
  rw [Fold.units, Fold.units, Fold.read_lost lost, lost.current, forall₂_map_left_iff,
    forall₂_map_right_iff, forall₂_same]
  exact fun key _ => unitOf_lost lost.candidate tolerance key

theorem Fold.exists_read {fold : Fold} {change : Change} (member : change ∈ fold.changes) :
    ∃ number, (change, number) ∈ fold.read := by
  have some_ : repeats fold.current fold.candidate ≠ [] := by
    have either (all : List Nat) : (if all = [] then [0] else all) ≠ [] := by
      split
      next => simp
      next other => exact other
    exact either _
  obtain ⟨number, among⟩ := exists_mem_of_ne_nil _ some_
  exact ⟨number, mem_flatMap.mpr ⟨change, member, mem_map.mpr ⟨number, among, rfl⟩⟩⟩

theorem mem_families {units : List Paired} {family : String} :
    family ∈ families units ↔ family ≠ "" ∧ ((∃ unit ∈ units, unit.change.family = family) ∨
      ∃ unit ∈ units, ∃ defect ∈ unit.a.defects ++ unit.b.defects, defect.family = family) := by
  simp only [families, mem_sortedSet, mem_filter, mem_append, mem_map,
    mem_flatMap, decide_eq_true_eq]
  exact and_comm

theorem mem_families_of_labelled (lost : before.Lost after) (labelled : before.Labelled)
    (family : String) : family ∈ "pooled" :: families (before.units tolerance) ↔
      family ∈ "pooled" :: families (after.units tolerance) := by
  have units := Fold.units_lost tolerance lost
  have label {change : Change} (among : change ∈ before.changes) (named : change.family ≠ "") :
      change.family ∈ families (after.units tolerance) := by
    rw [← lost.changes] at among
    obtain ⟨number, read⟩ := Fold.exists_read among
    exact mem_families.mpr ⟨named, .inl ⟨_, mem_map_of_mem read, rfl⟩⟩
  rw [mem_cons, mem_cons]
  refine ⟨fun held => ?_, fun held => held.imp_right (mem_families_lost units)⟩
  rcases held with pooled | held
  · exact .inl pooled
  · obtain ⟨named, held⟩ := mem_families.mp held
    rcases held with ⟨unit, member, rfl⟩ | ⟨unit, member, defect, reported, rfl⟩
    · obtain ⟨key, read, rfl⟩ := mem_map.mp member
      obtain ⟨change, among, inside⟩ := mem_flatMap.mp read
      obtain ⟨number, -, rfl⟩ := mem_map.mp inside
      exact .inr (label among named)
    · rcases mem_append.mp reported with own | candidate
      · obtain ⟨new, among, is⟩ := exists_right_of_forall₂ units member
        refine .inr (mem_families.mpr ⟨named, .inr ⟨new, among, defect, ?_, rfl⟩⟩)
        rw [is.current]
        exact mem_append_left _ own
      · obtain ⟨key, read, rfl⟩ := mem_map.mp member
        rcases labelled key read defect candidate with empty | pooled | ⟨change, among, same⟩
        · exact absurd empty named
        · exact .inl pooled
        · rw [← same] at named ⊢
          exact .inr (label among named)

theorem labelled_of_compared {fold : Fold} (compared : Compared (fold.units tolerance)) :
    fold.Labelled := by
  intro key read defect held
  by_cases empty : defect.family = ""
  · exact .inl empty
  by_cases pooled : defect.family = "pooled"
  · exact .inr (.inl pooled)
  have reported : defect.family ∈ families (fold.units tolerance) :=
    mem_families.mpr ⟨empty, .inr ⟨_, mem_map_of_mem read, defect,
      mem_append_right _ held, rfl⟩⟩
  obtain ⟨unit, member⟩ := exists_mem_of_ne_nil _
    (compared.positive _ (mem_cons_of_mem "pooled" reported))
  rw [positives, familyOf, if_neg pooled] at member
  obtain ⟨inside, is⟩ := mem_filter.mp member
  obtain ⟨own, among, rfl⟩ := mem_map.mp inside
  obtain ⟨change, listed, place⟩ := mem_flatMap.mp among
  obtain ⟨number, -, rfl⟩ := mem_map.mp place
  simp only [Option.all_some, Bool.and_eq_true, decide_eq_true_eq] at is
  exact .inr (.inr ⟨change, listed, is.2⟩)

theorem Compared.lost (lost : before.Lost after) (labelled : before.Labelled)
    (compared : Compared (after.units tolerance)) : Compared (before.units tolerance) where
  positive family among none_ := by
    have kept := positives_lost (Fold.units_lost tolerance lost) (familyOf family)
    rw [none_] at kept
    exact compared.positive family ((mem_families_of_labelled lost labelled family).mp among)
      (forall₂_nil_left_iff.mp kept)
  ordinary none_ := by
    have kept := ordinaries_lost (Fold.units_lost tolerance lost)
    rw [none_] at kept
    exact compared.ordinary (forall₂_nil_left_iff.mp kept)

theorem recallDiff_of_compared (lost : before.Lost after) (compared : Compared (after.units tolerance))
    (family : String) (among : family ∈ "pooled" :: families (after.units tolerance)) {d : ℚ}
    (found : recallDiff (before.units tolerance) (familyOf family) = some d) :
    ∃ lower, recallDiff (after.units tolerance) (familyOf family) = some lower ∧ lower ≤ d := by
  have some_ : (positives (after.units tolerance) (familyOf family)).map recallRow ≠ [] := by
    rw [ne_eq, map_eq_nil_iff]
    exact compared.positive family among
  obtain ⟨lower, low⟩ := Option.isSome_iff_exists.mp (difference_isSome some_)
  obtain ⟨same, kept, le⟩ := recallDiff_lost (Fold.units_lost tolerance lost) low
  rw [found] at kept
  cases kept
  exact ⟨lower, low, le⟩

end Folds

section Acceptance
variable {State : Type} (inputDigest : Change → String → List String → String) (generator : Generator)
  (tolerance : Int) (resamples : Nat) (surfaces : Surfaces State) (currentId : String)
  (candidate : Candidate State) (rule : Rule)

/-- `fold_results` on both scopes followed by `decide` accepts the candidate. -/
def Accepts (compile holdout : Fold) : Prop :=
  ∃ compiled heldout decided,
    foldResults inputDigest generator compile.current compile.candidate compile.changes .compile
        tolerance resamples = .ok compiled ∧
      foldResults inputDigest generator holdout.current holdout.candidate holdout.changes .holdout
          tolerance resamples = .ok heldout ∧
        decision surfaces currentId candidate compiled heldout rule = .ok decided ∧
          decided.accepted = true

/-- A scope whose inputs and records are not refused. -/
structure Fold.Readable (fold : Fold) : Prop where
  checked : checkInputs fold.current.study fold.candidate.study fold.changes tolerance resamples =
    .ok ()
  current : Belong inputDigest fold.current fold.read
  candidate : Belong inputDigest fold.candidate fold.read

variable {inputDigest generator tolerance resamples surfaces currentId candidate rule}

theorem foldResults_eq_ok_iff {fold : Fold} {scope : Scope} {results : List (String × FoldResult)} :
    foldResults inputDigest generator fold.current fold.candidate fold.changes scope tolerance
        resamples = .ok results ↔
      fold.Readable inputDigest tolerance resamples ∧
        familyResults generator resamples scope (fold.units tolerance) = results := by
  simp only [foldResults, bind_eq_ok_iff, pairUnits_eq_ok_iff, Except.ok.injEq]
  constructor
  · rintro ⟨_, ⟨checked, current, candidate, rfl⟩, rfl⟩
    exact ⟨⟨checked, current, candidate⟩, rfl⟩
  · rintro ⟨readable, rfl⟩
    exact ⟨_, ⟨readable.checked, readable.current, readable.candidate, rfl⟩, rfl⟩

/-- A candidate is accepted exactly where its rule is fit and both folds are readable, comparable
and improved. -/
theorem accepts_iff {compile holdout : Fold} :
    Accepts inputDigest generator tolerance resamples surfaces currentId candidate rule compile
        holdout ↔
      (compile.Readable inputDigest tolerance resamples ∧
        holdout.Readable inputDigest tolerance resamples) ∧
      (rule.check = .ok () ∧ proposalReasons surfaces currentId candidate rule = []) ∧
      (Compared (compile.units tolerance) ∧ Compared (holdout.units tolerance)) ∧
      Improves rule (compile.units tolerance) (holdout.units tolerance) := by
  simp only [Accepts, foldResults_eq_ok_iff, decision, bind_eq_ok_iff, Except.ok.injEq]
  constructor
  · rintro ⟨_, _, _, ⟨readable, rfl⟩, ⟨readable', rfl⟩, ⟨⟨⟩, fixed, rfl⟩, accepted⟩
    have enough := enough_of_checkInputs readable.checked
    simp only [decide_eq_true_eq, append_eq_nil_iff, scopeReasons_eq_nil_iff enough,
      differenceReasons_eq_nil_iff] at accepted
    obtain ⟨⟨⟨proposed, compared⟩, compared'⟩, improves⟩ := accepted
    exact ⟨⟨readable, readable'⟩, ⟨fixed, proposed⟩, ⟨compared, compared'⟩, improves⟩
  · rintro ⟨⟨readable, readable'⟩, ⟨fixed, proposed⟩, ⟨compared, compared'⟩, improves⟩
    have enough := enough_of_checkInputs readable.checked
    refine ⟨_, _, _, ⟨readable, rfl⟩, ⟨readable', rfl⟩, ⟨(), fixed, rfl⟩, ?_⟩
    simp only [decide_eq_true_eq, append_eq_nil_iff, scopeReasons_eq_nil_iff enough,
      differenceReasons_eq_nil_iff]
    exact ⟨⟨⟨proposed, compared⟩, compared'⟩, improves⟩

theorem Fold.Readable.lost {before after : Fold} (lost : before.Lost after)
    (belong : Belong inputDigest before.candidate before.read)
    (readable : after.Readable inputDigest tolerance resamples) :
    before.Readable inputDigest tolerance resamples where
  checked := by
    rw [← lost.current, ← lost.changes, ← lost.candidate.study]
    exact readable.checked
  current := by
    rw [← lost.current, ← Fold.read_lost lost]
    exact readable.current
  candidate := belong

section Lost
variable {compile compile' holdout holdout' : Fold} (compileLost : compile.Lost compile')
  (holdoutLost : holdout.Lost holdout')
include compileLost holdoutLost

/-- What improves with units lost improves with them. -/
theorem Improves.lost (labelled : compile.Labelled) (labelled' : holdout.Labelled)
    (compared : Compared (compile'.units tolerance)) (compared' : Compared (holdout'.units tolerance))
    (improves : Improves rule (compile'.units tolerance) (holdout'.units tolerance)) :
    Improves rule (compile.units tolerance) (holdout.units tolerance) where
  same family := by
    rw [mem_families_of_labelled compileLost labelled, mem_families_of_labelled holdoutLost labelled']
    exact improves.same family
  compiled d found := by
    obtain ⟨lower, low, le⟩ :=
      recallDiff_of_compared compileLost compared "pooled" mem_cons_self found
    exact (improves.compiled lower low).trans le
  heldout d found := by
    obtain ⟨lower, low, le⟩ :=
      recallDiff_of_compared holdoutLost compared' "pooled" mem_cons_self found
    exact (improves.heldout lower low).trans le
  positive := by
    rcases improves.positive with ⟨d, low, gain⟩ | ⟨d, low, gain⟩
    · obtain ⟨more, found, le⟩ := recallDiff_lost (Fold.units_lost tolerance compileLost) low
      exact .inl ⟨more, found, gain.trans_le le⟩
    · obtain ⟨more, found, le⟩ := recallDiff_lost (Fold.units_lost tolerance holdoutLost) low
      exact .inr ⟨more, found, gain.trans_le le⟩
  apart d found := by
    obtain ⟨lower, low, le⟩ :=
      recallDiff_of_compared holdoutLost compared' "pooled" mem_cons_self found
    -- the lower difference is not negative, so its distance from zero is itself
    have far := improves.apart lower low
    rw [abs_of_nonneg (improves.heldout lower low)] at far
    exact far.trans_le (le.trans (le_abs_self d))
  floors family among other d found := by
    have kept : family ∈ "pooled" :: families (holdout'.units tolerance) :=
      (mem_families_of_labelled holdoutLost labelled' family).mp (mem_cons_of_mem _ among)
    have own : familyOf family = some family := if_neg other
    rw [← own] at found
    obtain ⟨lower, low, le⟩ := recallDiff_of_compared holdoutLost compared' family kept found
    rw [own] at low
    exact (improves.floors family (mem_of_ne_of_mem other kept) other lower low).trans le

/-- A candidate that is accepted with some of its records lost is accepted with all of them exactly
when the lost ones belong to its study and report labelled families only. -/
theorem accepts_iff_of_lost
    (accepted : Accepts inputDigest generator tolerance resamples surfaces currentId candidate rule
      compile' holdout') :
    Accepts inputDigest generator tolerance resamples surfaces currentId candidate rule compile
        holdout ↔
      (Belong inputDigest compile.candidate compile.read ∧ compile.Labelled) ∧
        Belong inputDigest holdout.candidate holdout.read ∧ holdout.Labelled := by
  obtain ⟨⟨read, read'⟩, fixed, ⟨compared, compared'⟩, improves⟩ := accepts_iff.mp accepted
  constructor
  · intro kept
    obtain ⟨⟨readable, readable'⟩, -, ⟨whole, whole'⟩, -⟩ := accepts_iff.mp kept
    exact ⟨⟨readable.candidate, labelled_of_compared whole⟩, readable'.candidate,
      labelled_of_compared whole'⟩
  · rintro ⟨⟨belong, labelled⟩, belong', labelled'⟩
    apply accepts_iff.mpr
    exact ⟨⟨read.lost compileLost belong, read'.lost holdoutLost belong'⟩, fixed,
      ⟨compared.lost compileLost labelled, compared'.lost holdoutLost labelled'⟩,
      improves.lost compileLost holdoutLost labelled labelled' compared compared'⟩

end Lost
end Acceptance

def injection : Change where
  id := "v"
  repo := "r"
  kind := .vulnerability
  family := "sqli"
  fold := some 0
  files := [{ path := "a", headLines := [(1, 1)] }]

def refactoring : Change where
  id := "o"
  repo := "r"
  kind := .ordinary
  family := ""
  fold := some 0

def reporting (id family : String) : Record where
  id := id
  programId := "p"
  mask := []
  inputDigest := ""
  status := "complete"
  done := true
  parseFailed := false
  defects := [{ family := family, locations := [("a", 1)] }]

def pushes (other : Option String) : Fold where
  current := ⟨none, [0], fun _ _ => none⟩
  candidate := ⟨none, [0], fun id _ =>
    if id = "v" then some (reporting "v" "sqli") else other.map (reporting "o")⟩
  changes := [injection, refactoring]

def inOrder : Generator where
  choice names _ := names
  length _ _ := rfl
  among _ _ _ member := member

def rewording : Candidate Unit where
  programId := "q"
  kind := "instructions"
  change := ["instructions"]
  state := ()
  baseProgramId := "p"
  baseState := ()
  mask := []
  baseMask := []

def instructionsOnly : Surfaces Unit where
  changed _ _ _ _ := some ["instructions"]
  instructions _ := [some "look"]

def strict : Rule where
  tolerance := 1 / 10
  regressionBudget := []
  instructionCap := 10

def accepted (other : Option String) : Prop :=
  Accepts (fun _ _ _ => "") inOrder 0 2 instructionsOnly "p" rewording strict (pushes other)
    (pushes other)

theorem pushes_lost (other : Option String) : (pushes other).Lost (pushes none) where
  current := rfl
  changes := rfl
  candidate := by
    refine ⟨rfl, rfl, fun id number => ?_⟩
    dsimp only [pushes]
    split
    · exact .same
    · exact .missing

theorem accepted_none : accepted none := by
  have readable : (pushes none).Readable (fun _ _ _ => "") 0 2 :=
    ⟨rfl, fun _ _ => rfl, fun _ _ => rfl⟩
  have labels : families ((pushes none).units 0) = ["sqli"] := by decide +kernel
  have gain : recallDiff ((pushes none).units 0) none = some 1 := by decide +kernel
  have own : recallDiff ((pushes none).units 0) (some "sqli") = some 1 := by decide +kernel
  have compared : Compared ((pushes none).units 0) := by
    constructor
    · rw [labels]
      intro family among
      rcases mem_pair.mp among with rfl | rfl <;> decide +kernel
    · decide +kernel
  apply accepts_iff.mpr
  refine ⟨⟨readable, readable⟩, ⟨by decide +kernel, by decide +kernel⟩, ⟨compared, compared⟩, ?_⟩
  constructor
  · exact fun _ => Iff.rfl
  · rw [gain]; rintro _ ⟨⟩; norm_num
  · rw [gain]; rintro _ ⟨⟩; norm_num
  · exact .inl ⟨1, gain, by norm_num⟩
  · rw [gain]; rintro _ ⟨⟩; norm_num [strict]
  · rw [labels]
    intro family among _
    rw [mem_singleton.mp among, own]
    rintro _ ⟨⟩
    norm_num [strict, Rule.floor]

/-- A labelled report that is lost keeps the candidate accepted. -/
theorem accepts_iff_of_lost_labelled : accepted (some "sqli") :=
  (accepts_iff_of_lost (pushes_lost (some "sqli")) (pushes_lost (some "sqli")) accepted_none).mpr
    (by
      have labelled : (pushes (some "sqli")).Labelled := by
        unfold Fold.Labelled
        decide +kernel
      exact ⟨⟨fun _ _ => rfl, labelled⟩, fun _ _ => rfl, labelled⟩)

/-- An ordinary push with a report of an unlabelled family stops the candidate, until its record is
lost. -/
theorem accepted_of_lost_report :
    (pushes (some "xss")).Lost (pushes none) ∧ accepted none ∧ ¬ accepted (some "xss") := by
  refine ⟨pushes_lost (some "xss"), accepted_none, fun kept => ?_⟩
  have compared := (accepts_iff.mp kept).2.2.1.1
  exact compared.positive "xss" (by decide +kernel) (by decide +kernel)

end OpenUltraSast.Hunt.Rounds
