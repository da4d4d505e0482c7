import Mathlib.Algebra.BigOperators.Field
import Mathlib.Data.Nat.Choose.Sum
import Mathlib.Data.Nat.Dist
import Mathlib.Tactic.Positivity

/-!
# Exact tests

A test over finitely many outcomes takes the probability of what is at least as extreme as the
outcome for its p-value. Whatever orders the outcomes, a small p-value is as rare as it says.
-/

namespace ExactTest

section Finite
variable {Ω τ : Type} (outcomes : Finset Ω) (weight : Ω → ℚ)

def prob (event : Ω → Prop) [DecidablePred event] : ℚ := ∑ ω ∈ outcomes with event ω, weight ω

def pValue [LinearOrder τ] (extreme : Ω → τ) (ω : Ω) : ℚ :=
  prob outcomes weight fun other => extreme ω ≤ extreme other

variable {outcomes weight} {event other : Ω → Prop}

theorem prob_mono (nonneg : ∀ ω ∈ outcomes, 0 ≤ weight ω)
    [DecidablePred event] [DecidablePred other] (imp : ∀ ω ∈ outcomes, event ω → other ω) :
    prob outcomes weight event ≤ prob outcomes weight other := by
  apply Finset.sum_le_sum_of_subset_of_nonneg
  · intro ω member
    rw [Finset.mem_filter] at member ⊢
    exact ⟨member.1, imp ω member.1 member.2⟩
  · intro ω member _
    exact nonneg ω (Finset.mem_filter.mp member).1

theorem prob_congr [DecidablePred event] [DecidablePred other]
    (same : ∀ ω ∈ outcomes, event ω ↔ other ω) :
    prob outcomes weight event = prob outcomes weight other := by
  rw [prob, prob, Finset.filter_congr same]

theorem prob_add (event other : Ω → Prop) [DecidablePred event] [DecidablePred other] :
    prob outcomes weight event + prob outcomes weight other =
      prob outcomes weight (fun ω => event ω ∨ other ω) +
        prob outcomes weight (fun ω => event ω ∧ other ω) := by
  classical
  simp only [prob, Finset.filter_or, Finset.filter_and]
  exact (Finset.sum_union_inter).symm

/-- A p-value is at most a level with at most that probability. -/
theorem pValue_valid [LinearOrder τ] (nonneg : ∀ ω ∈ outcomes, 0 ≤ weight ω) (extreme : Ω → τ)
    {level : ℚ} (from_ : 0 ≤ level) :
    prob outcomes weight (fun ω => pValue outcomes weight extreme ω ≤ level) ≤ level := by
  let small := outcomes.filter fun ω => pValue outcomes weight extreme ω ≤ level
  rcases small.eq_empty_or_nonempty with none | some_
  · rw [prob]
    exact (congrArg (fun s => ∑ ω ∈ s, weight ω) none).trans_le from_
  · obtain ⟨least, member, all⟩ := small.exists_min_image extreme some_
    have within : prob outcomes weight (fun ω => pValue outcomes weight extreme ω ≤ level) ≤
        pValue outcomes weight extreme least :=
      prob_mono nonneg fun ω inside low => all ω (Finset.mem_filter.mpr ⟨inside, low⟩)
    exact within.trans (Finset.mem_filter.mp member).2

end Finite

def mass (n k : Nat) : ℚ := n.choose k / 2 ^ n

def heads (n : Nat) (event : Nat → Prop) [DecidablePred event] : ℚ :=
  prob (Finset.range (n + 1)) (mass n) event

/-- The probability of a split that is at least as far from an even one. -/
def twoSided (n k : Nat) : ℚ :=
  pValue (Finset.range (n + 1)) (mass n) (fun j => Nat.dist j (n - j)) k

variable {n : Nat}

theorem mass_nonneg (n k : Nat) : 0 ≤ mass n k := by
  rw [mass]
  positivity

theorem heads_all : heads n (fun _ => True) = 1 := by
  have total : ∑ k ∈ Finset.range (n + 1), (n.choose k : ℚ) = 2 ^ n := by
    exact_mod_cast Nat.sum_range_choose n
  rw [heads, prob, Finset.filter_true]
  simp only [mass]
  rw [← Finset.sum_div, total]
  exact div_self (by positivity)

theorem heads_flip (event : Nat → Prop) [DecidablePred event] :
    heads n (fun k => event (n - k)) = heads n event := by
  simp only [heads, prob, Finset.sum_filter]
  -- counting the other face runs through the numbers of heads backwards
  rw [← Finset.sum_range_reflect]
  apply Finset.sum_congr rfl
  intro k member
  have within : k ≤ n := Nat.lt_succ_iff.mp (Finset.mem_range.mp member)
  have mirror : n + 1 - 1 - k = n - k := by omega
  rw [mirror, Nat.sub_sub_self within, mass, mass, Nat.choose_symm within]

variable {k : Nat}

theorem twoSided_eq (small : k ≤ n - k) :
    twoSided n k = min 1 (2 * heads n (fun j => j ≤ k)) := by
  have upper : heads n (fun j => n - k ≤ j) = heads n (fun j => j ≤ k) := by
    rw [← heads_flip]
    apply prob_congr
    intro j member
    rw [Finset.mem_range] at member
    omega
  have both : 2 * heads n (fun j => j ≤ k) =
      heads n (fun j => j ≤ k ∨ n - k ≤ j) + heads n (fun j => j ≤ k ∧ n - k ≤ j) := by
    rw [two_mul]
    nth_rewrite 2 [← upper]
    exact prob_add _ _
  -- a split is as far from an even one as `k` is just when it lies in one of the two tails
  have either : twoSided n k = heads n (fun j => j ≤ k ∨ n - k ≤ j) := by
    rw [twoSided, pValue, heads]
    apply prob_congr
    intro j member
    rw [Finset.mem_range] at member
    simp only [Nat.dist]
    omega
  have most : twoSided n k ≤ 1 := by
    rw [← heads_all (n := n)]
    exact prob_mono (fun j _ => mass_nonneg n j) fun _ _ _ => trivial
  rcases Nat.lt_or_eq_of_le small with apart | even
  · -- the two tails have no split in common
    have none : heads n (fun j => j ≤ k ∧ n - k ≤ j) = 0 := by
      rw [heads, prob, Finset.sum_filter]
      apply Finset.sum_eq_zero
      intro j _
      rw [if_neg (by omega)]
    rw [none, add_zero, ← either] at both
    rw [both, min_eq_right most]
  · -- an even split: the two tails are everything
    have all : twoSided n k = 1 := by
      rw [either, ← heads_all (n := n)]
      apply prob_congr
      intro j _
      simp only [iff_true]
      omega
    have more : 0 ≤ heads n (fun j => j ≤ k ∧ n - k ≤ j) :=
      Finset.sum_nonneg fun j _ => mass_nonneg n j
    rw [all, both, ← either, all, min_eq_left (by linarith)]

theorem twoSided_flip (within : k ≤ n) : twoSided n (n - k) = twoSided n k := by
  simp only [twoSided, pValue, Nat.sub_sub_self within, Nat.dist_comm (n - k) k]

theorem twoSided_pos (within : k ≤ n) : 0 < twoSided n k := by
  -- the split is as extreme as itself
  have own : mass n k ≤ twoSided n k := by
    apply Finset.single_le_sum (f := mass n) (fun j _ => mass_nonneg n j)
    rw [Finset.mem_filter, Finset.mem_range]
    exact ⟨by omega, le_rfl⟩
  have positive : 0 < mass n k := by
    have some_ : 0 < n.choose k := Nat.choose_pos within
    rw [mass]
    positivity
  exact positive.trans_le own

theorem twoSided_valid (n : Nat) (level : ℚ≥0) :
    heads n (fun k => twoSided n k ≤ level) ≤ level :=
  pValue_valid (fun k _ => mass_nonneg n k) _ level.cast_nonneg

end ExactTest
