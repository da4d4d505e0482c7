import OpenUltraSast.Learn.Evaluate
import OpenUltraSast.Library.Dicts

/-!
# Held-out labels

Two lists of predictions that differ only in the labels of one fold.
-/

namespace OpenUltraSast.Learn.Evaluate

open Collections Floats List

variable {F : Type}

def Prediction.unlabelled (r : Prediction F) : Prediction F := { r with label := 0 }

/-- The same rows, except for labels in the held-out fold. -/
def AgreeOff (held : String) (preds others : List (Prediction F)) : Prop :=
  List.Forall₂ (fun r q => r.unlabelled = q.unlabelled ∧ (r.fold ≠ held → r = q)) preds others

/-- A function of rows that does not read the label. -/
def Blind {α : Type} (f : Prediction F → α) : Prop := ∀ r, f r = f r.unlabelled

variable {held : String} {preds others : List (Prediction F)}

theorem blind_eq {α : Type} {f : Prediction F → α} (blind : Blind f) {r q : Prediction F}
    (same : r.unlabelled = q.unlabelled) : f r = f q := by
  rw [blind r, blind q, same]

theorem agree_map {α : Type} {f : Prediction F → α} (blind : Blind f)
    (agree : AgreeOff held preds others) : preds.map f = others.map f := by
  induction agree with
  | nil => rfl
  | cons head _ ih => rw [map_cons, map_cons, blind_eq blind head.1, ih]

theorem agree_folds (agree : AgreeOff held preds others) : folds preds = folds others :=
  congrArg sortedSet (agree_map (fun _ => rfl) agree)

theorem agree_families (agree : AgreeOff held preds others) : families preds = families others :=
  congrArg sortedSet (agree_map (fun _ => rfl) agree)

theorem agree_filter {keep : Prediction F → Bool} (blind : Blind keep)
    (agree : AgreeOff held preds others) :
    AgreeOff held (preds.filter keep) (others.filter keep) := by
  induction agree with
  | nil => exact .nil
  | cons head _ ih =>
    rename_i r q rest tail _
    have kept := blind_eq blind head.1
    by_cases keeps : keep r = true
    · rw [filter_cons_of_pos keeps, filter_cons_of_pos (kept ▸ keeps)]
      exact .cons head ih
    · rw [filter_cons_of_neg keeps, filter_cons_of_neg (kept ▸ keeps)]
      exact ih

theorem agree_off (agree : AgreeOff held preds others) : off held preds = off held others := by
  induction agree with
  | nil => rfl
  | cons head _ ih =>
    rename_i r q rest tail _
    have fold : r.fold = q.fold := blind_eq (f := Prediction.fold) (fun _ => rfl) head.1
    by_cases outside : r.fold = held
    · have left : off held (r :: rest) = off held rest := filter_cons_of_neg (by simp [outside])
      have right : off held (q :: tail) = off held tail :=
        filter_cons_of_neg (by simp [← fold, outside])
      rw [left, right, ih]
    · have left : off held (r :: rest) = r :: off held rest :=
        filter_cons_of_pos (by simp [outside])
      have right : off held (q :: tail) = q :: off held tail :=
        filter_cons_of_pos (by simp [← fold, outside])
      rw [left, right, ih, head.2 outside]

theorem agree_training {eligible : Prediction F → Bool} (blind : Blind eligible)
    (agree : AgreeOff held preds others) :
    training eligible preds held = training eligible others held :=
  agree_off (agree_filter blind agree)

variable {rows : List (Prediction F)}

theorem hits_eq_zero_iff : hits rows = 0 ↔ ∀ r ∈ rows, r.label = 0 := by
  simp [hits, sum_eq_zero_iff]

theorem mem_off_calibrated {fit : Fit F} {r : Prediction F}
    (member : r ∈ off held (calibrated fit preds)) :
    ∃ q ∈ off held preds, r.label = q.label ∧
      r.p = fit ((off q.fold preds).map (·.row)) q.family q.s := by
  obtain ⟨among, outside⟩ := mem_filter.mp member
  obtain ⟨q, listed, rfl⟩ := mem_map.mp among
  exact ⟨q, mem_filter.mpr ⟨listed, outside⟩, rfl, rfl⟩

/-- Two decided lists agree on the score and the point of every row of the held-out fold. -/
def SameHeld (held : String) (decided others : List (Prediction F)) : Prop :=
  List.Forall₂ (fun d e => d.fold = held → e.fold = held ∧ d.p = e.p ∧ d.point = e.point) decided others

theorem sameHeld_refl (decided : List (Prediction F)) : SameHeld held decided decided :=
  forall₂_same.mpr fun _ _ inside => ⟨inside, rfl, rfl⟩

theorem sameHeld_map {decide redecide : Prediction F → Prediction F}
    (agree : AgreeOff held preds others)
    (fold : ∀ r, (decide r).fold = r.fold ∧ (redecide r).fold = r.fold)
    (same : ∀ r q : Prediction F, r.unlabelled = q.unlabelled → r.fold = held →
      (decide r).p = (redecide q).p ∧ (decide r).point = (redecide q).point) :
    SameHeld held (preds.map decide) (others.map redecide) := by
  rw [SameHeld, forall₂_map_left_iff, forall₂_map_right_iff]
  apply agree.imp
  rintro r q ⟨alike, -⟩ inside
  have folds : r.fold = q.fold := blind_eq (f := Prediction.fold) (fun _ => rfl) alike
  have here : r.fold = held := (fold r).1 ▸ inside
  exact ⟨(fold q).2.trans (folds.symm.trans here), same r q alike here⟩

theorem blind_fit (fit : Fit F) (train : List (Row F)) :
    Blind fun r : Prediction F => fit train r.family r.s := fun _ => rfl

section Gates
variable [Floats F] {eligible : Prediction F → Bool}

private theorem blind_gate (gate : Gate F) (train : List (Row F)) (fit : Fit F) :
    Blind fun r : Prediction F => gate.pointOf { r with p := fit train r.family r.s } := fun _ => rfl

private theorem agree_gate (fit : Fit F) (precision recalled : F) (blind : Blind eligible)
    (agree : AgreeOff held preds others) :
    gateOf fit eligible precision recalled preds held
      = gateOf fit eligible precision recalled others held := by
  simp only [gateOf, agree_training blind agree, agree_families agree]

private theorem agree_precisionBlock (precision : F) (bound : Bound) (minFlagged : Nat)
    (blind : Blind eligible) (agree : AgreeOff held preds others) (family : String) :
    precisionBlockAt eligible precision bound minFlagged preds family held
      = precisionBlockAt eligible precision bound minFlagged others family held := by
  have rows : ∀ rows : List (Prediction F),
      (ofFamily family rows).filter (fun r => r.fold ≠ held && eligible r)
        = off held ((ofFamily family rows).filter eligible) := by
    intro rows
    rw [off, filter_filter]
  have same : AgreeOff held (ofFamily family preds) (ofFamily family others) :=
    agree_filter (fun _ => rfl) agree
  rw [precisionBlockAt, precisionBlockAt, rows preds, rows others,
    agree_off (agree_filter blind same)]

/-- The gate decides a held fold alike, whatever its labels. -/
theorem agree_pooledBlockGate (fit : Fit F) (precision recalled : F) (blind : Blind eligible)
    (agree : AgreeOff held preds others) :
    SameHeld held (pooledBlockGate fit eligible precision recalled preds).1
        (pooledBlockGate fit eligible precision recalled others).1 ∧
      (pooledBlockGate fit eligible precision recalled preds).2.lookup held
        = (pooledBlockGate fit eligible precision recalled others).2.lookup held := by
  have gate := agree_gate fit precision recalled blind agree
  have train := agree_training blind agree
  constructor
  · apply sameHeld_map agree
    · exact fun r => ⟨rfl, rfl⟩
    · intro r q alike inside
      have outside : q.fold = held :=
        (blind_eq (f := Prediction.fold) (fun _ => rfl) alike).symm.trans inside
      rw [inside, outside, gate, train]
      constructor
      · exact blind_eq (blind_fit fit _) alike
      · exact congrArg some (blind_eq (blind_gate _ _ fit) alike)
  · simp only [pooledBlockGate, Dicts.lookup_graph, agree_folds agree, gate]

private theorem agree_nestedPrecisionBlock (precision : F) (bound : Bound) (minFlagged : Nat)
    (blind : Blind eligible) (agree : AgreeOff held preds others) :
    SameHeld held (nestedPrecisionBlock eligible precision bound minFlagged preds).1
        (nestedPrecisionBlock eligible precision bound minFlagged others).1 ∧
      ∀ family,
        ((nestedPrecisionBlock eligible precision bound minFlagged preds).2.lookup family).map
            (·.lookup held)
          = ((nestedPrecisionBlock eligible precision bound minFlagged others).2.lookup family).map
            (·.lookup held) := by
  have threshold := agree_precisionBlock precision bound minFlagged blind agree
  constructor
  · apply sameHeld_map agree
    · exact fun r => ⟨rfl, rfl⟩
    · intro r q alike inside
      have outside : q.fold = held :=
        (blind_eq (f := Prediction.fold) (fun _ => rfl) alike).symm.trans inside
      have family : r.family = q.family := blind_eq (f := Prediction.family) (fun _ => rfl) alike
      have block : r.blockable = q.blockable := blind_eq (f := Prediction.blockable) (fun _ => rfl) alike
      have score : r.s = q.s := blind_eq (f := Prediction.s) (fun _ => rfl) alike
      have calibrated : r.p = q.p := blind_eq (f := Prediction.p) (fun _ => rfl) alike
      constructor
      · exact calibrated
      · simp only [inside, outside, family, block, score, threshold]
  · intro family
    have same : AgreeOff held (ofFamily family preds) (ofFamily family others) :=
      agree_filter (fun _ => rfl) agree
    simp only [nestedPrecisionBlock, Dicts.lookup_graph, agree_families agree]
    split
    · simp only [Option.map_some, Dicts.lookup_graph, agree_folds same, threshold]
    · rfl

/-- Held-out labels never decide their own fold. -/
theorem held_labels_never_decide (fit : Fit F) (precision recalled : F) (bound : Bound)
    (minFlagged : Nat) (blind : Blind eligible) (agree : AgreeOff held preds others) :
    (SameHeld held (pooledBlockGate fit eligible precision recalled preds).1
        (pooledBlockGate fit eligible precision recalled others).1 ∧
      (pooledBlockGate fit eligible precision recalled preds).2.lookup held
        = (pooledBlockGate fit eligible precision recalled others).2.lookup held) ∧
    SameHeld held (nestedPrecisionBlock eligible precision bound minFlagged preds).1
        (nestedPrecisionBlock eligible precision bound minFlagged others).1 ∧
      ∀ family,
        ((nestedPrecisionBlock eligible precision bound minFlagged preds).2.lookup family).map
            (·.lookup held)
          = ((nestedPrecisionBlock eligible precision bound minFlagged others).2.lookup family).map
            (·.lookup held) :=
  ⟨agree_pooledBlockGate fit precision recalled blind agree,
    agree_nestedPrecisionBlock precision bound minFlagged blind agree⟩

/-- What rounding leaves of the two targets: they are not reached without a hit, the recall is
reached with all of them, and there are two numbers. -/
class Rounded (F : Type) [Floats F] : Prop where
  none_right : ∀ n, 0 < n → ¬(targetPrecision : F) ≤ wilsonLower 0 n
  all_right : ∀ n, 0 < n → (targetRecall : F) ≤ ratio n n
  two : (decimal 1 1 : F) ≠ decimal 2 1

private theorem choosePoints_benign [Rounded F] (benign : ∀ r ∈ rows, r.label = 0) :
    choosePoints rows = ⟨none, none⟩ := by
  have none : ∀ chosen : List (Prediction F), chosen ⊆ rows → hits chosen = 0 :=
    fun chosen within => hits_eq_zero_iff.mpr fun r member => benign r (within member)
  have scored : rows.filter (·.p.isSome) ⊆ rows := filter_subset_self _
  simp only [choosePoints, Points.mk.injEq, List.find?_eq_none]
  constructor
  · intro t _
    simp only [Bool.and_eq_true, decide_eq_true_eq, not_and]
    intro some_
    rw [none]
    · exact Rounded.none_right _ (length_pos_of_ne_nil some_)
    · -- Whatever is chosen is among the rows.
      apply List.Subset.trans (filter_subset_self _)
      apply List.Subset.trans (filter_subset_self _)
      split
      · exact scored
      · exact List.Subset.trans (filter_subset_self _) scored
  · intro t _
    rw [none _ scored]
    simp

private theorem choosePoints_constant [Rounded F] {c : F} (all : ∀ r ∈ rows, r.p = some c)
    (positive : ∃ r ∈ rows, r.label ≠ 0) : (choosePoints rows).advisory = some c := by
  obtain ⟨r, member, label⟩ := positive
  have scored : rows.filter (·.p.isSome) = rows := by
    rw [filter_eq_self]
    intro q among
    rw [all q among]
    rfl
  have one : scores rows = [c] := by
    apply sortedSet_constant
    · intro p listed
      obtain ⟨q, among, is_p⟩ := mem_filterMap.mp listed
      exact Option.some.inj (is_p.symm.trans (all q among))
    · exact ne_nil_of_mem (mem_filterMap.mpr ⟨r, member, all r member⟩)
  have above : atLeast c rows = rows := by
    rw [atLeast, filter_eq_self]
    intro q among
    simp [all q among]
  have some_ : hits rows ≠ 0 := fun nothing => label (hits_eq_zero_iff.mp nothing r member)
  have whole := Rounded.all_right (F := F) (hits rows) (Nat.pos_of_ne_zero some_)
  simp [choosePoints, scored, one, above, some_, whole]

theorem pointsOf_benign [Rounded F] (fit : Fit F) (benign : ∀ r ∈ off held preds, r.label = 0) :
    pointsOf (calibrated fit preds) held = ⟨none, none⟩ := by
  apply choosePoints_benign
  intro r member
  obtain ⟨q, among, label, -⟩ := mem_off_calibrated member
  exact label.trans (benign q among)

theorem nestedPoints_benign [Rounded F] (fit : Fit F) (agree : AgreeOff held preds others)
    (benign : ∀ r ∈ off held preds, r.label = 0) :
    SameHeld held (nestedPoints (calibrated fit preds)).1 (nestedPoints (calibrated fit others)).1 ∧
      (nestedPoints (calibrated fit preds)).2.lookup held
        = (nestedPoints (calibrated fit others)).2.lookup held := by
  have points := pointsOf_benign fit benign
  have repoints : pointsOf (calibrated fit others) held = ⟨none, none⟩ :=
    pointsOf_benign fit (agree_off agree ▸ benign)
  have folds_calibrated : ∀ rows : List (Prediction F), folds (calibrated fit rows) = folds rows := by
    intro rows
    rw [folds, calibrated, map_map]
    rfl
  constructor
  · simp only [nestedPoints, calibrated, map_map]
    apply sameHeld_map agree
    · exact fun r => ⟨rfl, rfl⟩
    · intro r q alike inside
      have outside : q.fold = held :=
        (blind_eq (f := Prediction.fold) (fun _ => rfl) alike).symm.trans inside
      have score := blind_eq (blind_fit fit ((off held preds).map (·.row))) alike
      have point : r.point = q.point := blind_eq (f := Prediction.point) (fun _ => rfl) alike
      simp only [calibrated] at points repoints
      simp only [Function.comp_apply, inside, outside, points, repoints, ← agree_off agree, score,
        true_and]
      -- Without points a row keeps what it has, or is dropped.
      simp only [Points.pointOf, Option.any_none, Bool.and_false, Bool.false_eq_true, if_false,
        point]
  · simp only [nestedPoints, Dicts.lookup_graph, folds_calibrated, agree_folds agree, points,
      repoints]

structure SameEvaluated (fit : Fit F) (check : List (F × Nat × String) → Bool) (held : String)
    (preds others : List (Prediction F)) : Prop where
  points : (evaluate fit preds).2.lookup held = (evaluate fit others).2.lookup held
  rows : SameHeld held (evaluate fit preds).1 (evaluate fit others).1
  familyPoints : ∀ family,
    ((calibratedBlock fit check preds).2.lookup family).map (·.points.lookup held)
      = ((calibratedBlock fit check others).2.lookup family).map (·.points.lookup held)
  familyRows : ∀ family,
    SameHeld held (nestedPoints (calibrated fit (ofFamily family preds))).1
      (nestedPoints (calibrated fit (ofFamily family others))).1

/-- No relabelling of the held-out fold changes its points, whatever the maps are. -/
def PointsBlind (held : String) (preds : List (Prediction F)) : Prop :=
  ∀ (fit : Fit F) (check : List (F × Nat × String) → Bool) (others : List (Prediction F)),
    AgreeOff held preds others → SameEvaluated fit check held preds others

private theorem pointsBlind_of_benign [Rounded F] (benign : ∀ r ∈ off held preds, r.label = 0) :
    PointsBlind held preds := by
  intro fit check others agree
  have whole := nestedPoints_benign fit agree benign
  have each : ∀ family, AgreeOff held (ofFamily family preds) (ofFamily family others) :=
    fun _ => agree_filter (fun _ => rfl) agree
  have family : ∀ family, _ := fun family => nestedPoints_benign fit (each family) (by
    intro r member
    obtain ⟨among, outside⟩ := mem_filter.mp member
    exact benign r (mem_filter.mpr ⟨mem_of_mem_filter among, outside⟩))
  constructor
  · exact whole.2
  · exact whole.1
  · intro name
    simp only [calibratedBlock, Dicts.lookup_graph, agree_families agree]
    split
    · exact congrArg some (family name).2
    · rfl
  · exact fun name => (family name).1

def otherLabel (label : Nat) : Nat := if label = 0 then 1 else 0

def relabelled (held : String) (preds : List (Prediction F)) : List (Prediction F) :=
  preds.map fun r => if r.fold = held then { r with label := otherLabel r.label } else r

omit [Floats F] in
private theorem agree_relabelled : AgreeOff held preds (relabelled held preds) := by
  rw [AgreeOff, relabelled, forall₂_map_right_iff, forall₂_same]
  intro r _
  by_cases inside : r.fold = held
  · simp [inside, Prediction.unlabelled]
  · simp [inside]

def heldLabels (held : String) (rows : List (Row F)) : List Nat :=
  (rows.filter (·.fold = held)).map (·.label)

def telling (held : String) (labels : List Nat) : Fit F :=
  fun rows _ _ => some (if heldLabels held rows = labels then decimal 1 1 else decimal 2 1)

omit [Floats F] in
private theorem heldLabels_off {fold : String} (outside : fold ≠ held) :
    heldLabels held ((off fold preds).map (·.row)) = heldLabels held (preds.map (·.row)) := by
  simp only [heldLabels, off, filter_map, filter_filter, map_map]
  congr 1
  apply filter_congr
  intro r _
  by_cases inside : r.fold = held
  · simp [Prediction.row, inside, outside.symm]
  · simp [Prediction.row, inside]

omit [Floats F] in
theorem heldLabels_cons (row : Row F) (rows : List (Row F)) :
    heldLabels held (row :: rows)
      = if row.fold = held then row.label :: heldLabels held rows else heldLabels held rows := by
  by_cases inside : row.fold = held
  · simp [heldLabels, inside]
  · simp [heldLabels, inside]

omit [Floats F] in
private theorem heldLabels_relabelled (preds : List (Prediction F)) :
    heldLabels held ((relabelled held preds).map (·.row))
      = (heldLabels held (preds.map (·.row))).map otherLabel := by
  induction preds with
  | nil => rfl
  | cons r rest ih =>
    simp only [relabelled, map_cons] at ih ⊢
    rw [heldLabels_cons, heldLabels_cons, ih]
    by_cases inside : r.fold = held
    · simp [inside, Prediction.row]
    · simp [inside, Prediction.row]

theorem advisory_telling [Rounded F] (labels : List Nat)
    (positive : ∃ r ∈ off held preds, r.label ≠ 0) :
    (pointsOf (calibrated (telling held labels) preds) held).advisory
      = some (if heldLabels held (preds.map (·.row)) = labels then decimal 1 1 else decimal 2 1) := by
  apply choosePoints_constant
  · intro r member
    obtain ⟨q, among, -, score⟩ := mem_off_calibrated member
    have outside : q.fold ≠ held := by simpa using (mem_filter.mp among).2
    rw [score, telling, heldLabels_off outside]
  · obtain ⟨r, member, label⟩ := positive
    obtain ⟨among, outside⟩ := mem_filter.mp member
    exact ⟨_, mem_filter.mpr ⟨mem_map_of_mem among, outside⟩, label⟩

theorem benign_of_pointsBlind [Rounded F] (inside : ∃ r ∈ preds, r.fold = held)
    (blind : PointsBlind held preds) : ∀ r ∈ off held preds, r.label = 0 := by
  by_contra some_
  push Not at some_
  let labels := heldLabels held (preds.map (·.row))
  have agree : AgreeOff held preds (relabelled held preds) := agree_relabelled
  have same := (blind (telling held labels) (fun _ => true) _ agree).points
  have listed : held ∈ folds preds := by
    obtain ⟨r, member, rfl⟩ := inside
    exact (mem_sortedSet _ _).mpr (mem_map_of_mem member)
  have folds_calibrated : ∀ rows : List (Prediction F),
      folds (calibrated (telling held labels) rows) = folds rows := by
    intro rows
    rw [folds, calibrated, map_map]
    rfl
  simp only [evaluate, nestedPoints, Dicts.lookup_graph, folds_calibrated, ← agree_folds agree,
    if_pos listed, Option.some.injEq] at same
  have before := advisory_telling labels some_
  have after := advisory_telling labels (agree_off agree ▸ some_)
  -- The labels are turned, and there are some.
  have turned : heldLabels held ((relabelled held preds).map (·.row)) ≠ labels := by
    rw [heldLabels_relabelled]
    obtain ⟨r, member, fold⟩ := inside
    cases shape : heldLabels held (preds.map (·.row)) with
    | nil =>
      have among : r.label ∈ heldLabels held (preds.map (·.row)) :=
        mem_map_of_mem (f := Row.label)
          (mem_filter.mpr ⟨mem_map_of_mem member, decide_eq_true fold⟩)
      rw [shape] at among
      cases among
    | cons label rest =>
      have other : otherLabel label ≠ label := by
        unfold otherLabel
        split <;> omega
      simp [labels, shape, other]
  rw [same, after, if_neg turned, if_pos rfl] at before
  exact Rounded.two (Option.some.inj before).symm

/-- The points of a fold do not depend on its labels exactly if it has no rows or the other folds
have no positive row. -/
theorem pointsBlind_iff [Rounded F] :
    PointsBlind held preds ↔
      (∀ r ∈ preds, r.fold ≠ held) ∨ ∀ r ∈ preds, r.fold ≠ held → r.label = 0 := by
  constructor
  · intro blind
    by_cases inside : ∃ r ∈ preds, r.fold = held
    · right
      intro r member outside
      exact benign_of_pointsBlind inside blind r (mem_filter.mpr ⟨member, by simpa using outside⟩)
    · left
      push Not at inside
      exact inside
  · rintro (empty | benign)
    · intro fit check others agree
      -- Nothing can be relabelled.
      have same : preds = others := by
        rw [← forall₂_eq_eq_eq]
        exact forall₂_imp_mem agree fun r _ member _ alike => alike.2 (empty r member)
      subst same
      exact ⟨rfl, sameHeld_refl _, fun _ => rfl, fun _ => sameHeld_refl _⟩
    · apply pointsBlind_of_benign
      intro r member
      obtain ⟨among, outside⟩ := mem_filter.mp member
      exact benign r among (by simpa using outside)

end Gates

private theorem wilsonLower_none (n : Nat) (some_ : 0 < n) : wilsonLower 0 n = (0 : ℝ) := by
  have positive : (0 : ℝ) < n := Nat.cast_pos.mpr some_
  have root : Real.sqrt ((1959964 / 10 ^ 6 : ℝ) * (1959964 / 10 ^ 6) / (4 * n * n))
      = 1959964 / 10 ^ 6 / (2 * n) := by
    rw [show (1959964 / 10 ^ 6 : ℝ) * (1959964 / 10 ^ 6) / (4 * n * n)
      = (1959964 / 10 ^ 6 / (2 * n)) ^ 2 by field_simp; norm_num]
    exact Real.sqrt_sq (by positivity)
  -- The margin takes all of the centre.
  have level : (1959964 / 10 ^ 6 * (1959964 / 10 ^ 6) / (2 * n)
      - 1959964 / 10 ^ 6 * (1959964 / 10 ^ 6 / (2 * n)) : ℝ) = 0 := by ring
  simp only [wilsonLower, if_neg some_.ne', ratio, decimal, ofNat, sqrt, Nat.cast_mul, Nat.cast_ofNat,
    Nat.cast_zero, Nat.cast_one, zero_div, zero_mul, zero_add, root, level]

instance : Rounded ℝ where
  none_right n some_ := by
    rw [wilsonLower_none n some_]
    norm_num [targetPrecision, decimal]
  all_right n some_ := by
    have positive : (n : ℝ) ≠ 0 := Nat.cast_ne_zero.mpr some_.ne'
    simp only [targetRecall, ratio, decimal, ofNat, div_self positive]
    norm_num
  two := by norm_num [decimal]

def oneRow [Floats F] (fold : String) (label : Nat) : Prediction F where
  fold := fold
  family := "sql"
  group := fold
  label := label
  s := decimal 9 1
  verdict := .vulnerable
  unit := .pin
  p := none
  point := none
  pair := ""

/-- A row of the fold `a` and one of the fold `b`. -/
def twoFolds [Floats F] (a b : Nat) : List (Prediction F) := [oneRow "a" a, oneRow "b" b]

private theorem agree_twoFolds [Floats F] (a a' b : Nat) :
    AgreeOff (F := F) "a" (twoFolds a b) (twoFolds a' b) :=
  .cons ⟨rfl, fun outside => absurd rfl outside⟩ (.cons ⟨rfl, fun _ => rfl⟩ .nil)

theorem held_labels_never_decide_twoFolds :
    (pooledBlockGate (fun _ _ s => some s) (fun _ => true) targetPrecision targetRecall
        (twoFolds 0 1 : List (Prediction ℝ))).2.lookup "a"
      = (pooledBlockGate (fun _ _ s => some s) (fun _ => true) targetPrecision targetRecall
        (twoFolds 1 1 : List (Prediction ℝ))).2.lookup "a" :=
  (held_labels_never_decide (fun _ _ s => some s) targetPrecision targetRecall .wilson 1
    (fun _ => rfl) (agree_twoFolds 0 1 1)).1.2

theorem pointsBlind_iff_benign : PointsBlind "a" (twoFolds 1 0 : List (Prediction ℝ)) := by
  apply pointsBlind_iff.mpr
  right
  intro r member outside
  obtain rfl | rfl : r = oneRow "a" 1 ∨ r = oneRow "b" 0 := by simpa [twoFolds] using member
  · exact absurd rfl outside
  · rfl

/-- The label of `a` decides the map for `b`, and the calibrated score of `b` the points of `a`. -/
theorem twoFolds_not_blind : ¬PointsBlind "a" (twoFolds 0 1 : List (Prediction ℝ)) := by
  intro blind
  have inside : ∃ r ∈ (twoFolds 0 1 : List (Prediction ℝ)), r.fold = "a" :=
    ⟨oneRow "a" 0, mem_cons_self, rfl⟩
  have outside : oneRow "b" 1 ∈ off "a" (twoFolds 0 1 : List (Prediction ℝ)) :=
    mem_filter.mpr ⟨mem_cons_of_mem _ mem_cons_self, rfl⟩
  cases benign_of_pointsBlind inside blind _ outside

end OpenUltraSast.Learn.Evaluate
