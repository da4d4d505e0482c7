import Mathlib.Algebra.Order.BigOperators.Group.List
import Mathlib.Data.List.Perm.Subperm
import OpenUltraSast.Hunt.Rounds

/-!
# Acceptance of a candidate

A proposal is accepted when no clause of the rule has a reason against it: about the proposal itself,
about the intervals and families of both scopes, or about the recall differences.
-/

namespace OpenUltraSast.Hunt.Rounds

open Collections Dicts

structure Rule where
  tolerance : ℚ
  regressionBudget : List (String × ℚ)
  instructionCap : Int
  version : String := "accept-v1"

def Rule.check (rule : Rule) : Except String Unit :=
  if rule.version ≠ "accept-v1" then .error "unsupported acceptance rule version"
  else if rule.tolerance < 0 then .error "tolerance must be finite and non-negative"
  else if rule.instructionCap < 0 then .error "instruction cap must be a non-negative integer"
  else if rule.regressionBudget.any fun entry => !(-1 ≤ entry.2 && entry.2 ≤ 0) then
    .error "regression budgets must be signed differences between -1 and zero"
  else .ok ()

structure Candidate (State : Type) where
  programId : String
  kind : String
  change : List String
  state : State
  baseProgramId : String
  baseState : State
  mask : List String
  baseMask : List String

/-- What the clauses read in saved states: the surfaces that differ, where the states differ in
nothing else, and the instructions, none of which need be a text. -/
structure Surfaces (State : Type) where
  changed : State → State → List String → List String → Option (List String)
  instructions : State → List (Option String)

structure Decision where
  accepted : Bool
  reasons : List String
  currentId : String
  candidateId : String
  compileResults : List (String × FoldResult)
  holdoutResults : List (String × FoldResult)
  rule : Rule

def intervalPresent (estimate : Estimate) : Bool :=
  estimate.ci.any (fun ci => ci.1 ≤ ci.2) && estimate.diff.isSome && 0 < estimate.groups &&
    estimate.groups ≤ estimate.units

def Scope.name : Scope → String
  | .compile => "compile"
  | .holdout => "holdout"

def proposalReasons {State : Type} (surfaces : Surfaces State) (currentId : String)
    (candidate : Candidate State) (rule : Rule) : List String :=
  (if candidate.baseProgramId ≠ currentId then ["current_program_mismatch"] else []) ++
  (match surfaces.changed candidate.baseState candidate.state candidate.baseMask candidate.mask with
    | some changed =>
      if sortedSet changed ≠ [candidate.kind] ∨ sortedSet candidate.change ≠ [candidate.kind] then
        ["multiple_or_invalid_changes"]
      else []
    | none => ["multiple_or_invalid_changes"]) ++
  if (surfaces.instructions candidate.state).any fun text =>
      text.all fun text => rule.instructionCap < text.length then
    ["instruction_cap"]
  else []

def familyReasons (scope : Scope) (family : String) (result : FoldResult) : List String :=
  (if result.scope ≠ scope ∨ result.family ≠ family then
    ["invalid_scope:" ++ scope.name ++ ":" ++ family]
  else []) ++
  (if intervalPresent result.recall_ then []
    else ["missing_interval:" ++ scope.name ++ ":" ++ family ++ ":recall"]) ++
  if intervalPresent result.suspicionsPerPush then []
  else ["missing_interval:" ++ scope.name ++ ":" ++ family ++ ":suspicions_per_push"]

def scopeReasons (scope : Scope) (results : List (String × FoldResult)) : List String :=
  results.flatMap (fun entry => familyReasons scope entry.1 entry.2) ++
    if "pooled" ∉ keys results then ["missing_pooled:" ++ scope.name] else []

def pooledDiff (results : List (String × FoldResult)) : Option ℚ :=
  (results.lookup "pooled").bind (·.recall_.diff)

def Rule.floor (rule : Rule) (family : String) : ℚ :=
  (rule.regressionBudget.lookup family).getD ((rule.regressionBudget.lookup "default").getD 0)

def differenceReasons (rule : Rule) (compile holdout : List (String × FoldResult)) : List String :=
  (if sortedSet (keys compile) ≠ sortedSet (keys holdout) then ["missing_family_comparison"]
    else []) ++
  (if (pooledDiff compile).any (· < 0) then ["compile_recall_negative"] else []) ++
  (if (pooledDiff holdout).any (· < 0) then ["holdout_recall_negative"] else []) ++
  (if (pooledDiff compile).any (0 < ·) ∨ (pooledDiff holdout).any (0 < ·) then []
    else ["no_positive_recall_difference"]) ++
  (if (pooledDiff holdout).any fun diff => |diff| ≤ rule.tolerance then ["holdout_tie"] else []) ++
  holdout.flatMap fun (family, result) =>
    if family ≠ "pooled" ∧ result.recall_.diff.any (· < rule.floor family) then
      ["family_regression:" ++ family]
    else []

/-- `decide(current_id, candidate, compile_results, holdout_results, rule)`. -/
def decision {State : Type} (surfaces : Surfaces State) (currentId : String)
    (candidate : Candidate State) (compile holdout : List (String × FoldResult)) (rule : Rule) :
    Except String Decision := do
  rule.check
  let reasons := proposalReasons surfaces currentId candidate rule ++
    scopeReasons .compile compile ++ scopeReasons .holdout holdout ++
    differenceReasons rule compile holdout
  .ok
    { accepted := reasons = [], reasons := reasons, currentId := currentId
      candidateId := candidate.programId, compileResults := compile, holdoutResults := holdout
      rule := rule }

end OpenUltraSast.Hunt.Rounds

/-!
## What a lost record changes

A candidate's record that is missing, unfinished, failed or unparsed counts as a miss without
defects.
-/

namespace OpenUltraSast.Hunt.Rounds

open Collections Dicts Quantile List

section Intervals
variable {generator : Generator} {resamples : Nat} {rows : List Row}

theorem difference_isSome (some_ : rows ≠ []) : (difference rows).isSome = true := by
  simp [difference, mean, some_]

variable (generator) in
private theorem clusterResample_ne_nil (some_ : rows ≠ []) (draw : Nat) :
    clusterResample generator rows draw ≠ [] := by
  obtain ⟨row, member⟩ := exists_mem_of_ne_nil rows some_
  have named : row.repo ∈ sortedSet (rows.map (·.repo)) :=
    (mem_sortedSet _ _).mpr (mem_map_of_mem member)
  have drawn : generator.choice (sortedSet (rows.map (·.repo))) draw ≠ [] := by
    rw [← length_pos_iff, generator.length]
    exact length_pos_of_mem named
  obtain ⟨name, among⟩ := exists_mem_of_ne_nil _ drawn
  obtain ⟨own, held, repo⟩ :=
    mem_map.mp ((mem_sortedSet _ _).mp (generator.among _ _ name among))
  apply ne_nil_of_mem (a := own)
  exact mem_flatMap.mpr ⟨name, among, mem_filter.mpr ⟨held, by simpa using repo⟩⟩

variable (generator) in
private theorem length_differences (some_ : rows ≠ []) (n : Nat) :
    ((List.range n).filterMap fun draw =>
      difference (clusterResample generator rows draw)).length = n := by
  induction n with
  | zero => rfl
  | succ n ih =>
    obtain ⟨value, drawn⟩ :=
      Option.isSome_iff_exists.mp (difference_isSome (clusterResample_ne_nil generator some_ n))
    rw [range_succ, filterMap_append, length_append, ih]
    simp [drawn]

private theorem quantiles_le {values : List ℚ} (some_ : values ≠ []) :
    (quantiles values).1 ≤ (quantiles values).2 := by
  apply quantile_mono (pairwise_insertionSort _ _)
  · rw [← length_pos_iff, length_insertionSort]
    exact length_pos_of_ne_nil some_
  all_goals norm_num [alpha]

theorem intervalPresent_iff (enough : 2 ≤ resamples) :
    intervalPresent (pairedBootstrap generator resamples rows) = true ↔ rows ≠ [] := by
  constructor
  · rintro present rfl
    simp [intervalPresent, pairedBootstrap, difference, mean] at present
  · intro some_
    obtain ⟨row, member⟩ := exists_mem_of_ne_nil rows some_
    have count := length_differences generator some_ resamples
    have groups : 0 < (sortedSet (rows.map (·.repo))).length :=
      length_pos_of_mem ((mem_sortedSet _ _).mpr (mem_map_of_mem member))
    have fewer : (sortedSet (rows.map (·.repo))).length ≤ rows.length := by
      have sub : sortedSet (rows.map (·.repo)) ⊆ rows.map (·.repo) :=
        fun name held => (mem_sortedSet _ _).mp held
      simpa using ((nodup_sortedSet _).subperm sub).length_le
    have values : (List.range resamples).filterMap (fun draw =>
        difference (clusterResample generator rows draw)) ≠ [] := by
      rw [← length_pos_iff, count]
      omega
    have ordered := quantiles_le values
    simp [intervalPresent, pairedBootstrap, some_, count, enough, groups, fewer, ordered,
      difference_isSome some_]

end Intervals

theorem mean_le {values others : List ℚ} (le : List.Forall₂ (· ≤ ·) values others) {x y : ℚ}
    (first : mean values = some x) (second : mean others = some y) : x ≤ y := by
  rw [mean] at first second
  split at first
  next => cases first
  next =>
    split at second
    next => cases second
    next =>
      cases first
      cases second
      rw [le.length_eq]
      exact div_le_div_of_nonneg_right le.sum_le_sum (Nat.cast_nonneg _)

/-- A row of a comparison after some records of the candidate were lost. -/
def Row.Lost (before after : Row) : Prop :=
  after.repo = before.repo ∧ after.a = before.a ∧ after.b ≤ before.b

theorem map_a_of_lost {before after : List Row} (lost : List.Forall₂ Row.Lost before after) :
    after.map (·.a) = before.map (·.a) := by
  induction lost with
  | nil => rfl
  | cons first _ ih => rw [map_cons, map_cons, first.2.1, ih]

theorem map_b_of_lost {before after : List Row} (lost : List.Forall₂ Row.Lost before after) :
    List.Forall₂ (· ≤ ·) (after.map (·.b)) (before.map (·.b)) := by
  induction lost with
  | nil => exact .nil
  | cons first _ ih => exact .cons first.2.2 ih

theorem difference_lost {before after : List Row} (lost : List.Forall₂ Row.Lost before after) {d : ℚ}
    (found : difference after = some d) : ∃ d', difference before = some d' ∧ d ≤ d' := by
  have some_ : before ≠ [] := by
    rintro rfl
    cases lost
    simp [difference, mean] at found
  obtain ⟨d', kept⟩ := Option.isSome_iff_exists.mp (difference_isSome some_)
  refine ⟨d', kept, ?_⟩
  obtain ⟨a, meanA, rest⟩ := Option.bind_eq_some_iff.mp found
  obtain ⟨b, meanB, rfl⟩ := Option.map_eq_some_iff.mp rest
  obtain ⟨a', meanA', rest'⟩ := Option.bind_eq_some_iff.mp kept
  obtain ⟨b', meanB', rfl⟩ := Option.map_eq_some_iff.mp rest'
  rw [map_a_of_lost lost, meanA'] at meanA
  cases meanA
  exact sub_le_sub_right (mean_le (map_b_of_lost lost) meanB meanB') _

structure Paired.Lost (before after : Paired) : Prop where
  change : after.change = before.change
  current : after.a = before.a
  candidate : after.b = before.b ∨ after.b.defects = [] ∧ after.b.hit = false

def recallDiff (units : List Paired) (family : Option String) : Option ℚ :=
  difference ((positives units family).map recallRow)

section Lost
variable {before after : List Paired} (lost : List.Forall₂ Paired.Lost before after)
include lost

theorem positives_lost (family : Option String) :
    List.Forall₂ Paired.Lost (positives before family) (positives after family) := by
  refine rel_filter (fun u v is => ?_) lost
  dsimp only
  rw [is.change]

theorem ordinaries_lost : List.Forall₂ Paired.Lost (ordinaries before) (ordinaries after) := by
  refine rel_filter (fun u v is => ?_) lost
  dsimp only
  rw [is.change]

theorem recallDiff_lost {family : Option String} {d : ℚ} (found : recallDiff after family = some d) :
    ∃ d', recallDiff before family = some d' ∧ d ≤ d' := by
  apply difference_lost _ found
  rw [forall₂_map_left_iff, forall₂_map_right_iff]
  refine (positives_lost lost family).imp fun u v is => ⟨?_, ?_, ?_⟩
  · rw [recallRow, recallRow, is.change]
  · rw [recallRow, recallRow, is.current]
  · rcases is.candidate with same | ⟨-, missed⟩
    · rw [recallRow, recallRow, same]
    · rw [recallRow, recallRow, missed]
      simp

theorem mem_families_lost {family : String} : family ∈ families after → family ∈ families before := by
  simp only [families, mem_sortedSet, mem_filter, mem_append, mem_map,
    mem_flatMap]
  rintro ⟨⟨unit, member, rfl⟩ | ⟨unit, member, defect, held, rfl⟩, named⟩
  · obtain ⟨old, among, is⟩ := exists_left_of_forall₂ lost member
    exact ⟨.inl ⟨old, among, by rw [is.change]⟩, named⟩
  · obtain ⟨old, among, is⟩ := exists_left_of_forall₂ lost member
    refine ⟨.inr ⟨old, among, defect, ?_, rfl⟩, named⟩
    rw [is.current] at held
    rcases is.candidate with same | ⟨none_, -⟩
    · rwa [same] at held
    · rw [none_] at held
      exact held.imp_right fun member => absurd member not_mem_nil

end Lost

end OpenUltraSast.Hunt.Rounds
