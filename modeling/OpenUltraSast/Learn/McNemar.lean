import OpenUltraSast.Library.ExactTest

/-!
# The paired test

Two arms decide the same units, and the test reads the units on which only one of them has the
outcome. Under its hypothesis each of these is a throw of a fair coin.
-/

namespace OpenUltraSast.Learn.Experiments

open ExactTest

/-- Of the discordant pairs, `b` where only the first arm has the outcome and `c` where only the
second one has it. -/
structure McNemar where
  b : Nat
  c : Nat
  concordant : Nat
  pValue : ℚ
deriving DecidableEq

def exactMcnemar (table : List (Bool × Bool)) : McNemar :=
  let b := table.countP fun pair => pair.1 && !pair.2
  let c := table.countP fun pair => pair.2 && !pair.1
  let n := b + c
  if n = 0 then ⟨b, c, table.length, 1⟩
  else
    let k := min b c
    let tail := (∑ i ∈ Finset.range (k + 1), (n.choose i : ℚ)) / 2 ^ n
    ⟨b, c, table.length - n, min 1 (2 * tail)⟩

def discordant (b c : Nat) : List (Bool × Bool) :=
  List.replicate b (true, false) ++ List.replicate c (false, true)

variable (table : List (Bool × Bool))

theorem b_exactMcnemar :
    (exactMcnemar table).b = table.countP fun pair => pair.1 && !pair.2 := by
  unfold exactMcnemar
  dsimp only
  split <;> rfl

theorem c_exactMcnemar :
    (exactMcnemar table).c = table.countP fun pair => pair.2 && !pair.1 := by
  unfold exactMcnemar
  dsimp only
  split <;> rfl

private theorem b_swap : (exactMcnemar (table.map Prod.swap)).b = (exactMcnemar table).c := by
  rw [b_exactMcnemar, c_exactMcnemar, List.countP_map]
  rfl

private theorem c_swap : (exactMcnemar (table.map Prod.swap)).c = (exactMcnemar table).b := by
  rw [b_exactMcnemar, c_exactMcnemar, List.countP_map]
  rfl

theorem pValue_exactMcnemar : (exactMcnemar table).pValue =
    twoSided ((exactMcnemar table).b + (exactMcnemar table).c)
      (min (exactMcnemar table).b (exactMcnemar table).c) := by
  rw [twoSided_eq (by omega), b_exactMcnemar, c_exactMcnemar]
  unfold exactMcnemar
  dsimp only
  generalize table.countP (fun pair => pair.1 && !pair.2) = b
  generalize table.countP (fun pair => pair.2 && !pair.1) = c
  have tail : heads (b + c) (fun j => j ≤ min b c) =
      (∑ i ∈ Finset.range (min b c + 1), ((b + c).choose i : ℚ)) / 2 ^ (b + c) := by
    -- the sum of the source stops at the smaller count
    have lower : (Finset.range (b + c + 1)).filter (fun j => j ≤ min b c) =
        Finset.range (min b c + 1) := by
      ext j
      simp only [Finset.mem_filter, Finset.mem_range]
      omega
    simp only [heads, prob, lower, mass]
    rw [Finset.sum_div]
  split
  next none =>
    -- no discordant pair: the tail is everything
    rw [tail]
    obtain ⟨rfl, rfl⟩ : b = 0 ∧ c = 0 := by omega
    norm_num
  next => rw [tail]

theorem pValue_eq_twoSided : (exactMcnemar table).pValue =
    twoSided ((exactMcnemar table).b + (exactMcnemar table).c) (exactMcnemar table).b := by
  rw [pValue_exactMcnemar]
  generalize (exactMcnemar table).b = b
  generalize (exactMcnemar table).c = c
  rcases Nat.le_total b c with le | le
  · rw [min_eq_left le]
  · have flip := twoSided_flip (n := b + c) (k := b) (Nat.le_add_right b c)
    rw [Nat.add_sub_cancel_left] at flip
    rw [min_eq_right le, flip]

private theorem b_discordant (b c : Nat) : (exactMcnemar (discordant b c)).b = b := by
  simp [b_exactMcnemar, discordant, List.countP_append, List.countP_replicate]

private theorem c_discordant (b c : Nat) : (exactMcnemar (discordant b c)).c = c := by
  simp [c_exactMcnemar, discordant, List.countP_append, List.countP_replicate]

/-- The p-value is in the unit interval, reads both arms alike and is the two-sided tail of the
discordant counts; and of the splits of some discordant pairs, those whose p-value is at most a
level are at most as probable as the level says. -/
theorem exactMcnemar_valid :
    (∀ table : List (Bool × Bool),
      0 < (exactMcnemar table).pValue ∧ (exactMcnemar table).pValue ≤ 1 ∧
      (exactMcnemar (table.map Prod.swap)).pValue = (exactMcnemar table).pValue ∧
      (exactMcnemar table).pValue =
        twoSided ((exactMcnemar table).b + (exactMcnemar table).c) (exactMcnemar table).b) ∧
    ∀ (n : Nat) (level : ℚ≥0),
      heads n (fun b => (exactMcnemar (discordant b (n - b))).pValue ≤ level) ≤ level := by
  refine ⟨fun table => ⟨?_, ?_, ?_, pValue_eq_twoSided table⟩, fun n level => ?_⟩
  · rw [pValue_eq_twoSided]
    exact twoSided_pos (Nat.le_add_right _ _)
  · rw [pValue_exactMcnemar, twoSided_eq (by omega)]
    exact min_le_left _ _
  · rw [pValue_exactMcnemar, pValue_exactMcnemar table, b_swap, c_swap, Nat.add_comm, min_comm]
  · -- the table of such a split has the two counts, whatever else a table may hold
    have same : heads n (fun b => (exactMcnemar (discordant b (n - b))).pValue ≤ level) =
        heads n (fun b => twoSided n b ≤ level) := by
      apply prob_congr
      intro b member
      have within : b ≤ n := Nat.lt_succ_iff.mp (Finset.mem_range.mp member)
      rw [pValue_eq_twoSided, b_discordant, c_discordant, Nat.add_sub_cancel' within]
    rw [same]
    exact twoSided_valid n level

/-- Five pairs on which only the first arm has the outcome are not enough for the level of 0.05. -/
example : (exactMcnemar (discordant 5 0)).pValue = 1 / 16 := by decide +kernel

end OpenUltraSast.Learn.Experiments
