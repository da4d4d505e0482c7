import OpenUltraSast.Library.Rounding
import OpenUltraSast.Quick.Findings

/-!
# Obligation ranking

Obligation findings rank by the sensitivity of their resource and by the label of their evidence, and
are capped below the proven findings of the run.
-/

namespace OpenUltraSast.Obligations.Ranking

open Quick Rounding List

/-- `_OBLIGATION_LABEL_WEIGHT`. -/
def labelWeight (label : String) : ℚ :=
  match label with
  | "declared_policy_violation" => 9 / 10
  | "consistency_violation" => 6 / 10
  | "function_local" => 3 / 10
  | _ => 3 / 10

/-- `_OBLIGATION_SENSITIVITY_WEIGHT`. -/
def sensitivityWeight (severity : String) : ℚ :=
  match severity with
  | "high" => 1
  | "medium" => 7 / 10
  | "low" => 4 / 10
  | _ => 7 / 10

def provenLevels : List String :=
  ["crash_reproduced", "exploit_demonstrated", "patch_validated", "root_cause_explained"]

def isObligation (f : StaticFinding) : Bool := Text.startsWith f.findingId "obligation:"

def isProven (provenIds : List String) (f : StaticFinding) : Bool :=
  f.evidenceLevel ∈ provenLevels || f.findingId ∈ provenIds

def labelOf (f : StaticFinding) : String :=
  match f.tags.find? (Text.startsWith · "obligation_evidence:") with
  | some tag => Text.removePrefix tag "obligation_evidence:"
  | none => "function_local"

def weight (f : StaticFinding) : ℚ := sensitivityWeight f.severity * labelWeight (labelOf f)

def ceilingOf (findings : List StaticFinding) (provenIds : List String) : Option ℚ :=
  ((findings.filter (isProven provenIds)).map (·.rankingPriority)).min?

def capped (ceiling : ℚ) (label : String) : ℚ :=
  max (ceiling * (99 / 100)) 0 * labelWeight label / (9 / 10)

def weightUnder (ceiling : Option ℚ) (f : StaticFinding) : ℚ :=
  match ceiling with
  | none => weight f
  | some c => if c ≤ weight f then capped c (labelOf f) else weight f

def rankUnder (ceiling : Option ℚ) (f : StaticFinding) : StaticFinding :=
  if isObligation f then { f with rankingPriority := places 4 (weightUnder ceiling f) } else f

def rankObligations (findings : List StaticFinding) (provenIds : List String) : List StaticFinding :=
  findings.map (rankUnder (ceilingOf findings provenIds))

def Open (provenIds : List String) (f : StaticFinding) : Prop :=
  isObligation f = true ∧ isProven provenIds f = false

def ranks (findings : List StaticFinding) (provenIds : List String) :
    List (StaticFinding × StaticFinding) :=
  findings.zip (rankObligations findings provenIds)

/-- Open obligation findings stay below proof and keep their order, and the others keep their
priority. -/
structure RanksWell (findings : List StaticFinding) (provenIds : List String) : Prop where
  below : ∀ f ∈ ranks findings provenIds, Open provenIds f.1 → ∀ p ∈ ranks findings provenIds,
    isProven provenIds p.1 = true → 0 < p.2.rankingPriority →
      f.2.rankingPriority < p.2.rankingPriority
  kept : ∀ f ∈ ranks findings provenIds, ¬ Open provenIds f.1 →
    f.2.rankingPriority = f.1.rankingPriority
  ordered : ∀ f ∈ ranks findings provenIds, Open provenIds f.1 →
    ∀ g ∈ ranks findings provenIds, Open provenIds g.1 → weight g.1 < weight f.1 →
      g.2.rankingPriority ≤ f.2.rankingPriority

def cappedPriority (ceiling : ℚ) (label : String) : ℚ := places 4 (capped ceiling label)

/-- What the findings have to be under a ceiling: a proven obligation finding is capped to the priority
that it has, a cap is below the ceiling after it is rounded, and a capped finding is not below a lighter
one. -/
structure Orderly (findings : List StaticFinding) (provenIds : List String) (ceiling : ℚ) : Prop where
  proven : ∀ f ∈ findings, isObligation f = true → isProven provenIds f = true →
    ceiling ≤ weight f ∧ f.rankingPriority = cappedPriority ceiling (labelOf f)
  strict : 0 < ceiling → ∀ f ∈ findings, Open provenIds f → ceiling ≤ weight f →
    cappedPriority ceiling (labelOf f) < ceiling
  ordered : ∀ f ∈ findings, Open provenIds f → ∀ g ∈ findings, Open provenIds g →
    weight g < weight f → ceiling ≤ weight f →
      (weight g < ceiling → weight g ≤ cappedPriority ceiling (labelOf f)) ∧
      (ceiling ≤ weight g →
        cappedPriority ceiling (labelOf g) ≤ cappedPriority ceiling (labelOf f))

theorem labelWeight_cases (label : String) :
    labelWeight label = 9 / 10 ∨ labelWeight label = 6 / 10 ∨ labelWeight label = 3 / 10 := by
  unfold labelWeight
  split <;> simp

private theorem sensitivityWeight_cases (severity : String) :
    sensitivityWeight severity = 1 ∨ sensitivityWeight severity = 7 / 10 ∨
      sensitivityWeight severity = 4 / 10 := by
  unfold sensitivityWeight
  split <;> simp

theorem places_weight (f : StaticFinding) : places 4 (weight f) = weight f := by
  have whole : ∃ i : Int, weight f * 10 ^ 4 = i := by
    rw [weight]
    rcases sensitivityWeight_cases f.severity with s | s | s <;>
      rcases labelWeight_cases (labelOf f) with l | l | l <;> rw [s, l]
    · exact ⟨9000, by norm_num⟩
    · exact ⟨6000, by norm_num⟩
    · exact ⟨3000, by norm_num⟩
    · exact ⟨6300, by norm_num⟩
    · exact ⟨4200, by norm_num⟩
    · exact ⟨2100, by norm_num⟩
    · exact ⟨3600, by norm_num⟩
    · exact ⟨2400, by norm_num⟩
    · exact ⟨1200, by norm_num⟩
  obtain ⟨i, whole⟩ := whole
  exact places_of_eq whole

private theorem cappedPriority_zero {ceiling : ℚ} (low : ceiling ≤ 0) (label : String) :
    cappedPriority ceiling label = 0 := by
  have zero : capped ceiling label = 0 := by
    rw [capped, max_eq_right (by linarith), zero_mul, zero_div]
  rw [cappedPriority, zero]
  exact places_of_eq (i := 0) (by norm_num)

variable {findings : List StaticFinding} {provenIds : List String}

theorem mem_ranks {pair : StaticFinding × StaticFinding} :
    pair ∈ ranks findings provenIds ↔
      ∃ f ∈ findings, pair = (f, rankUnder (ceilingOf findings provenIds) f) := by
  rw [ranks, rankObligations, zip_map_right, zip_eq_zipWith, zipWith_self]
  simp [eq_comm]

variable {f : StaticFinding}

private theorem mem_ranks_of_mem (member : f ∈ findings) :
    (f, rankUnder (ceilingOf findings provenIds) f) ∈ ranks findings provenIds :=
  mem_ranks.mpr ⟨f, member, rfl⟩

theorem rank_other {ceiling : Option ℚ} (other : isObligation f = false) :
    rankUnder ceiling f = f := by
  rw [rankUnder, other]
  rfl

section
variable (obligation : isObligation f = true)
include obligation

theorem rank_of_no_ceiling :
    (rankUnder none f).rankingPriority = weight f := by
  rw [rankUnder, if_pos obligation]
  exact places_weight f

theorem rank_of_le {ceiling : ℚ} (heavy : ceiling ≤ weight f) :
    (rankUnder (some ceiling) f).rankingPriority = cappedPriority ceiling (labelOf f) := by
  rw [rankUnder, if_pos obligation]
  simp only [weightUnder, if_pos heavy, cappedPriority]

theorem rank_of_lt {ceiling : ℚ} (light : weight f < ceiling) :
    (rankUnder (some ceiling) f).rankingPriority = weight f := by
  rw [rankUnder, if_pos obligation]
  simp only [weightUnder, if_neg (not_le.mpr light), places_weight]

end

variable {p : StaticFinding}

theorem ceiling_le {ceiling : ℚ} (lowest : ceilingOf findings provenIds = some ceiling)
    (member : p ∈ findings) (proven : isProven provenIds p = true) :
    ceiling ≤ p.rankingPriority := by
  have least := (List.min?_eq_some_iff.mp lowest).2
  exact least _ (mem_map_of_mem (mem_filter.mpr ⟨member, proven⟩))

theorem exists_lowest {ceiling : ℚ} (lowest : ceilingOf findings provenIds = some ceiling) :
    ∃ p ∈ findings, isProven provenIds p = true ∧ p.rankingPriority = ceiling := by
  obtain ⟨p, among, same⟩ := mem_map.mp (List.min?_eq_some_iff.mp lowest).1
  obtain ⟨member, proven⟩ := mem_filter.mp among
  exact ⟨p, member, proven, same⟩

theorem not_proven_of_no_ceiling (none_ : ceilingOf findings provenIds = none)
    (member : p ∈ findings) : isProven provenIds p = false := by
  rw [ceilingOf, List.min?_eq_none_iff, map_eq_nil_iff, filter_eq_nil_iff] at none_
  exact Bool.eq_false_iff.mpr (none_ p member)

theorem not_open_iff : ¬ Open provenIds f ↔ isObligation f = false ∨ isProven provenIds f = true := by
  rw [Open, not_and_or, Bool.not_eq_true, Bool.not_eq_false]

theorem RanksWell.orderly (well : RanksWell findings provenIds) {ceiling : ℚ}
    (lowest : ceilingOf findings provenIds = some ceiling) :
    Orderly findings provenIds ceiling := by
  have ranked : ∀ {f : StaticFinding}, f ∈ findings →
      (f, rankUnder (some ceiling) f) ∈ ranks findings provenIds :=
    fun member => lowest ▸ mem_ranks_of_mem member
  constructor
  · intro f member obligation proven
    have kept := well.kept _ (ranked member) (not_open_iff.mpr (.inr proven))
    -- a proven finding is ranked anew like any other, and the claim has its priority unchanged
    by_cases heavy : ceiling ≤ weight f
    · exact ⟨heavy, kept.symm.trans (rank_of_le obligation heavy)⟩
    · -- uncapped it would have sunk below the ceiling
      have low := ceiling_le lowest member proven
      have light := rank_of_lt obligation (not_le.mp heavy)
      rw [kept] at light
      exact absurd (light ▸ low) heavy
  · intro positive f member open_ heavy
    -- the ceiling is the priority of some proven finding, which the cap has to stay below
    obtain ⟨p, inside, proven, same⟩ := exists_lowest lowest
    have kept := well.kept _ (ranked inside) (not_open_iff.mpr (.inr proven))
    have below := well.below _ (ranked member) open_ _ (ranked inside) proven
      (by rw [kept, same]; exact positive)
    rwa [kept, same, rank_of_le open_.1 heavy] at below
  · intro f memberF openF g memberG openG lighter heavy
    have order := well.ordered _ (ranked memberF) openF _ (ranked memberG) openG lighter
    rw [rank_of_le openF.1 heavy] at order
    constructor
    · intro light
      rwa [rank_of_lt openG.1 light] at order
    · intro heavyG
      rwa [rank_of_le openG.1 heavyG] at order

private theorem ranksWell_of_no_ceiling (none_ : ceilingOf findings provenIds = none) :
    RanksWell findings provenIds := by
  constructor
  · intro f _ _ p member proven
    obtain ⟨q, inside, rfl⟩ := mem_ranks.mp member
    rw [not_proven_of_no_ceiling none_ inside] at proven
    cases proven
  · intro f member other
    obtain ⟨q, inside, rfl⟩ := mem_ranks.mp member
    rcases not_open_iff.mp other with plain | proven
    · rw [rank_other plain]
    · rw [not_proven_of_no_ceiling none_ inside] at proven
      cases proven
  · intro f memberF openF g memberG openG lighter
    obtain ⟨f, -, rfl⟩ := mem_ranks.mp memberF
    obtain ⟨g, -, rfl⟩ := mem_ranks.mp memberG
    rw [none_, rank_of_no_ceiling openF.1, rank_of_no_ceiling openG.1]
    exact lighter.le

theorem Orderly.kept {ceiling : ℚ} (orderly : Orderly findings provenIds ceiling) (member : f ∈ findings)
    (other : ¬ Open provenIds f) :
    (rankUnder (some ceiling) f).rankingPriority = f.rankingPriority := by
  by_cases obligation : isObligation f = true
  · -- the only obligation findings that are not open are proven
    have proven := (not_open_iff.mp other).resolve_left (by rw [obligation]; decide)
    obtain ⟨heavy, same⟩ := orderly.proven f member obligation proven
    rw [rank_of_le obligation heavy, same]
  · rw [rank_other (Bool.eq_false_iff.mpr obligation)]

theorem Orderly.ranksWell {ceiling : ℚ} (orderly : Orderly findings provenIds ceiling)
    (lowest : ceilingOf findings provenIds = some ceiling) : RanksWell findings provenIds := by
  constructor
  · intro f memberF openF p memberP proven positive
    obtain ⟨f, insideF, rfl⟩ := mem_ranks.mp memberF
    obtain ⟨p, insideP, rfl⟩ := mem_ranks.mp memberP
    have high := ceiling_le lowest insideP proven
    rw [lowest, orderly.kept insideP (not_open_iff.mpr (.inr proven))] at positive ⊢
    rcases le_or_gt ceiling (weight f) with heavy | light
    · rw [rank_of_le openF.1 heavy]
      -- a ceiling of zero or less caps to zero, which is below any positive priority
      rcases le_or_gt ceiling 0 with low | some_
      · rw [cappedPriority_zero low]
        exact positive
      · exact (orderly.strict some_ f insideF openF heavy).trans_le high
    · rw [rank_of_lt openF.1 light]
      exact light.trans_le high
  · intro f member other
    obtain ⟨f, inside, rfl⟩ := mem_ranks.mp member
    rw [lowest]
    exact orderly.kept inside other
  · intro f memberF openF g memberG openG lighter
    obtain ⟨f, insideF, rfl⟩ := mem_ranks.mp memberF
    obtain ⟨g, insideG, rfl⟩ := mem_ranks.mp memberG
    rw [lowest]
    rcases le_or_gt ceiling (weight f) with heavy | light
    · obtain ⟨uncapped, both⟩ := orderly.ordered f insideF openF g insideG openG lighter heavy
      rw [rank_of_le openF.1 heavy]
      rcases le_or_gt ceiling (weight g) with heavyG | lightG
      · rw [rank_of_le openG.1 heavyG]
        exact both heavyG
      · rw [rank_of_lt openG.1 lightG]
        exact uncapped lightG
    · -- neither of the two is capped
      rw [rank_of_lt openF.1 light, rank_of_lt openG.1 (lighter.trans light)]
      exact lighter.le

/-- The ranking is in order exactly where there is no proven finding, or the findings are orderly under
the lowest proven priority. -/
theorem ranksWell_iff (findings : List StaticFinding) (provenIds : List String) :
    RanksWell findings provenIds ↔
      ∀ ceiling, ceilingOf findings provenIds = some ceiling →
        Orderly findings provenIds ceiling := by
  constructor
  · exact fun well ceiling lowest => well.orderly lowest
  · intro orderly
    cases lowest : ceilingOf findings provenIds with
    | none => exact ranksWell_of_no_ceiling lowest
    | some ceiling => exact (orderly ceiling lowest).ranksWell lowest

section Large
variable {ceiling : ℚ}

theorem capped_of_pos (positive : 0 < ceiling) (label : String) :
    capped ceiling label = ceiling * (11 / 10) * labelWeight label := by
  rw [capped, max_eq_left (by positivity)]
  ring

theorem cappedPriority_lt (large : 1 / 200 < ceiling) (label : String) :
    cappedPriority ceiling label < ceiling := by
  -- rounding moves the cap by less than the hundredth that it lies below the ceiling
  have near := (places_near 4 (capped ceiling label)).2
  rw [capped_of_pos (by linarith)] at near
  rw [cappedPriority, capped_of_pos (by linarith)]
  rcases labelWeight_cases label with l | l | l <;> rw [l] at near ⊢ <;> norm_num at near ⊢ <;> linarith

theorem cappedPriority_le_iff (large : 1 / 200 < ceiling) (label other : String) :
    cappedPriority ceiling label ≤ cappedPriority ceiling other ↔
      labelWeight label ≤ labelWeight other := by
  have positive : 0 < ceiling := by linarith
  constructor
  · intro le
    by_contra heavier
    -- two label weights differ by at least three tenths, so the caps by more than the rounding
    have high := (places_near 4 (capped ceiling other)).2
    have low := (places_near 4 (capped ceiling label)).1
    rw [cappedPriority, cappedPriority] at le
    rw [capped_of_pos positive] at high low
    rw [capped_of_pos positive, capped_of_pos positive] at le
    rcases labelWeight_cases label with l | l | l <;> rcases labelWeight_cases other with o | o | o <;>
      rw [l, o] at heavier <;> norm_num at heavier <;> rw [l] at low le <;> rw [o] at high le <;>
        norm_num at low high le <;> linarith
  · intro le
    apply places_mono
    rw [capped_of_pos positive, capped_of_pos positive]
    exact mul_le_mul_of_nonneg_left le (by positivity)

theorem orderly_iff_of_large (large : 1 / 200 < ceiling)
    (lowest : ceilingOf findings provenIds = some ceiling) :
    Orderly findings provenIds ceiling ↔
      (∀ f ∈ findings, isObligation f = true → isProven provenIds f = false) ∧
      ∀ f ∈ findings, Open provenIds f → ∀ g ∈ findings, Open provenIds g →
        weight g < weight f → ceiling ≤ weight f →
          (weight g < ceiling → weight g ≤ cappedPriority ceiling (labelOf f)) ∧
          (ceiling ≤ weight g → labelWeight (labelOf g) ≤ labelWeight (labelOf f)) := by
  constructor
  · intro orderly
    refine ⟨fun f member obligation => ?_, fun f memberF openF g memberG openG lighter heavy => ?_⟩
    · by_contra proven
      rw [Bool.not_eq_false] at proven
      -- its cap would be below the ceiling, and its priority is not
      have same := (orderly.proven f member obligation proven).2
      have low := ceiling_le lowest member proven
      rw [same] at low
      exact absurd (cappedPriority_lt large _) (not_lt.mpr low)
    · obtain ⟨uncapped, both⟩ := orderly.ordered f memberF openF g memberG openG lighter heavy
      exact ⟨uncapped, fun heavyG => (cappedPriority_le_iff large _ _).mp (both heavyG)⟩
  · rintro ⟨none_, order⟩
    refine ⟨fun f member obligation proven => ?_, fun _ f _ _ _ => cappedPriority_lt large _,
      fun f memberF openF g memberG openG lighter heavy => ?_⟩
    · rw [none_ f member obligation] at proven
      cases proven
    · obtain ⟨uncapped, both⟩ := order f memberF openF g memberG openG lighter heavy
      exact ⟨uncapped, fun heavyG => (cappedPriority_le_iff large _ _).mpr (both heavyG)⟩

end Large

def findingOf (id severity level : String) (tags : List String) (priority : ℚ) : StaticFinding where
  findingId := id
  path := "app.py"
  title := "Missing check"
  severity := severity
  confidence := "medium"
  evidenceLevel := level
  rationale := ""
  line := 10
  functionName := none
  reachabilityStatus := "reachable"
  reachabilityEvidence := []
  reachabilityConditions := []
  tags := tags
  rankingPriority := priority
  status := "enabled"

def demonstrated : StaticFinding :=
  findingOf "python-os-command:app.py:3" "high" "exploit_demonstrated" [] (3 / 10)

def inconsistent : StaticFinding :=
  findingOf "obligation:protected_write:app.py:10" "high" "suspicion"
    ["obligation_evidence:consistency_violation"] 0

def undeclared : StaticFinding :=
  findingOf "obligation:protected_read:app.py:20" "low" "suspicion"
    ["obligation_evidence:declared_policy_violation"] 0

/-- Both are capped, and the cap forgets the sensitivity. -/
theorem inconsistent_sinks : ¬ RanksWell [demonstrated, inconsistent, undeclared] [] := by
  intro well
  have lowest : ceilingOf [demonstrated, inconsistent, undeclared] [] = some (3 / 10) := by
    decide +kernel
  have orderly := (orderly_iff_of_large (by norm_num) lowest).mp (well.orderly lowest)
  have order := orderly.2 inconsistent (by simp) (by unfold Open; decide +kernel) undeclared (by simp)
    (by unfold Open; decide +kernel) (by decide +kernel) (by decide +kernel)
  exact absurd (order.2 (by decide +kernel)) (by decide +kernel)

end OpenUltraSast.Obligations.Ranking
