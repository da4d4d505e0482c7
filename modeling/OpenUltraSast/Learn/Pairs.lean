import OpenUltraSast.Learn.Estimates

/-!
# The paired units of some outcomes

A unit is paired from its own outcomes alone, whatever the order in which they are listed.
-/

namespace OpenUltraSast.Learn.Experiments

open Collections Floats List Option

variable {arm unit : String}

section Units
variable {F : Type}

def unitsOf (outcomes : List (Outcome F)) (arm : String) : List String :=
  (outcomes.filter (·.arm = arm)).map (·.unit)

theorem mem_replicates {outcomes : List (Outcome F)} {o : Outcome F} :
    o ∈ replicates outcomes arm unit ↔ o ∈ outcomes ∧ o.arm = arm ∧ o.unit = unit := by
  simp [replicates, mem_insertionSort]

theorem mem_unitsOf {outcomes : List (Outcome F)} :
    unit ∈ unitsOf outcomes arm ↔ ∃ o ∈ outcomes, o.arm = arm ∧ o.unit = unit := by
  simp [unitsOf, and_assoc]

def Distinct (outcomes : List (Outcome F)) : Prop :=
  outcomes.Nodup ∧ ∀ o ∈ outcomes, ∀ o' ∈ outcomes, o.arm = o'.arm → o.unit = o'.unit →
    o.replicate = o'.replicate → o = o'

theorem replicates_congr {outcomes outcomes' : List (Outcome F)}
    (distinct : Distinct outcomes) (distinct' : Distinct outcomes')
    (same : ∀ o, o.unit = unit → (o ∈ outcomes ↔ o ∈ outcomes')) :
    replicates outcomes arm unit = replicates outcomes' arm unit := by
  have among : ∀ o, o ∈ replicates outcomes arm unit ↔ o ∈ replicates outcomes' arm unit := by
    intro o
    simp only [mem_replicates]
    constructor
    · rintro ⟨listed, ofArm, ofUnit⟩
      exact ⟨(same o ofUnit).mp listed, ofArm, ofUnit⟩
    · rintro ⟨listed, ofArm, ofUnit⟩
      exact ⟨(same o ofUnit).mpr listed, ofArm, ofUnit⟩
  have nodup : ∀ {l : List (Outcome F)}, l.Nodup → (replicates l arm unit).Nodup := fun once =>
    (perm_insertionSort _ _).nodup_iff.mpr (once.filter _)
  have sorted : ∀ l : List (Outcome F),
      (replicates l arm unit).Pairwise fun a b => a.replicate ≤ b.replicate := fun l => by
    have : Std.Total fun a b : Outcome F => a.replicate ≤ b.replicate := ⟨fun a b => Nat.le_total _ _⟩
    have : IsTrans (Outcome F) fun a b => a.replicate ≤ b.replicate :=
      ⟨fun a b c => Nat.le_trans⟩
    exact pairwise_insertionSort _ _
  refine List.Perm.eq_of_pairwise ?_ (sorted _) (sorted _)
    ((perm_ext_iff_of_nodup (nodup distinct.1) (nodup distinct'.1)).mpr among)
  intro a b left right below above
  obtain ⟨listed, ofArm, ofUnit⟩ := mem_replicates.mp left
  obtain ⟨listed', ofArm', ofUnit'⟩ := mem_replicates.mp ((among b).mpr right)
  exact distinct.2 a listed b listed' (ofArm.trans ofArm'.symm) (ofUnit.trans ofUnit'.symm)
    (Nat.le_antisymm below above)

end Units

variable {F : Type} [Floats F]

def pairOf (outcomes : List (Outcome F)) (unit : String) : Option (ArmUnit F × ArmUnit F) :=
  (fold (replicates outcomes "A" unit)).bind fun a =>
    (fold (replicates outcomes "B" unit)).map fun b => (a, b)

theorem fold_eq_none_iff {rows : List (Outcome F)} : fold rows = none ↔ rows = [] := by
  cases rows with
  | nil => simp [fold]
  | cons first rest => simp [fold]

theorem fold_isSome_iff {outcomes : List (Outcome F)} :
    (fold (replicates outcomes arm unit)).isSome ↔ unit ∈ unitsOf outcomes arm := by
  rw [isSome_iff_ne_none, Ne, fold_eq_none_iff, mem_unitsOf]
  constructor
  · intro some_
    obtain ⟨o, member⟩ := exists_mem_of_ne_nil _ some_
    exact ⟨o, mem_replicates.mp member⟩
  · rintro ⟨o, member⟩
    exact ne_nil_of_mem (mem_replicates.mpr member)

theorem fold_some {outcomes : List (Outcome F)} {row : ArmUnit F}
    (folded : fold (replicates outcomes arm unit) = some row) :
    ∃ o ∈ outcomes, o.arm = arm ∧ o.unit = unit ∧ row.unit = o.unit ∧ row.group = o.group := by
  obtain ⟨first, head, rfl⟩ := map_eq_some_iff.mp folded
  obtain ⟨listed, ofArm, ofUnit⟩ := mem_replicates.mp (mem_of_mem_head? head)
  exact ⟨first, listed, ofArm, ofUnit, rfl, rfl⟩

private theorem lookup_filterMap_graph {β : Type} (f : String → Option β) (domain : List String)
    (key : String) : (domain.filterMap fun name => (f name).map fun value => (name, value)).lookup key
      = if key ∈ domain then f key else none := by
  induction domain with
  | nil => simp
  | cons name domain ih =>
    rw [filterMap_cons]
    by_cases same : key = name
    · subst same
      cases known : f key with
      | none =>
        simp only [map_none]
        rw [ih]
        split <;> simp [known]
      | some value => simp
    · have apart : (key == name) = false := beq_false_of_ne same
      cases known : f name with
      | none => simp [ih, same]
      | some value => simp [lookup_cons, apart, ih, same]

theorem lookup_armUnits (outcomes : List (Outcome F)) (arm unit : String) :
    (armUnits outcomes arm).lookup unit = fold (replicates outcomes arm unit) := by
  rw [armUnits, lookup_filterMap_graph]
  split
  · rfl
  next absent =>
    have missing : ¬ (fold (replicates outcomes arm unit)).isSome := by
      rw [fold_isSome_iff]
      simpa [unitsOf] using absent
    exact (not_isSome_iff_eq_none.mp missing).symm

private theorem mem_keys_armUnits {outcomes : List (Outcome F)} :
    unit ∈ (armUnits outcomes arm).map (·.1) ↔ unit ∈ unitsOf outcomes arm := by
  have key : unit ∈ Dicts.keys (armUnits outcomes arm) ↔ _ := Dicts.mem_keys_iff
  rw [← fold_isSome_iff, ← lookup_armUnits, isSome_iff_exists]
  exact key

theorem pairedUnits_eq (outcomes : List (Outcome F)) :
    pairedUnits outcomes = (sortedSet (unitsOf outcomes "A")).filterMap (pairOf outcomes) := by
  have names : sortedSet ((armUnits outcomes "A").map (·.1)) = sortedSet (unitsOf outcomes "A") :=
    (sortedSet_pairwise _).eq_of_mem_iff (sortedSet_pairwise _) fun unit => by
      simp only [mem_sortedSet, mem_keys_armUnits]
  rw [pairedUnits, names]
  apply filterMap_congr
  intro unit _
  rw [lookup_armUnits, lookup_armUnits, pairOf]

variable {pair : ArmUnit F × ArmUnit F}

theorem mem_pairedUnits {outcomes : List (Outcome F)} :
    pair ∈ pairedUnits outcomes ↔ ∃ unit, pairOf outcomes unit = some pair := by
  rw [pairedUnits_eq, mem_filterMap]
  constructor
  · rintro ⟨unit, -, paired⟩
    exact ⟨unit, paired⟩
  · rintro ⟨unit, paired⟩
    obtain ⟨a, left, -⟩ := bind_eq_some_iff.mp paired
    refine ⟨unit, ?_, paired⟩
    rw [mem_sortedSet, ← fold_isSome_iff, left]
    rfl

/-- Two ways to pair units that give the same where either gives something. -/
theorem filterMap_sortedSet {β : Type} {l l' : List String} {f f' : String → Option β}
    (same : ∀ unit, f unit = f' unit) (left : ∀ unit, (f unit).isSome → unit ∈ l)
    (right : ∀ unit, (f unit).isSome → unit ∈ l') :
    (sortedSet l).filterMap f = (sortedSet l').filterMap f' := by
  have only : ∀ l : List String, l.filterMap f = (l.filter fun unit => (f unit).isSome).filterMap f := by
    intro l
    induction l with
    | nil => rfl
    | cons unit l ih =>
      cases known : f unit with
      | none => simp [known, ih]
      | some value => simp [known, ih]
  obtain rfl : f = f' := funext same
  rw [only (sortedSet l), only (sortedSet l')]
  congr 1
  refine ((sortedSet_pairwise l).filter _).eq_of_mem_iff ((sortedSet_pairwise l').filter _) ?_
  intro unit
  simp only [mem_filter, mem_sortedSet]
  exact ⟨fun is => ⟨right unit is.2, is.2⟩, fun is => ⟨left unit is.2, is.2⟩⟩

theorem pairOf_congr {outcomes outcomes' : List (Outcome F)} {unit : String}
    (distinct : Distinct outcomes) (distinct' : Distinct outcomes')
    (same : ∀ o, o.unit = unit → (o ∈ outcomes ↔ o ∈ outcomes')) :
    pairOf outcomes unit = pairOf outcomes' unit := by
  rw [pairOf, pairOf, replicates_congr distinct distinct' same,
    replicates_congr distinct distinct' same]

theorem unitsOf_of_pairOf {outcomes : List (Outcome F)} {unit : String}
    (paired : pairOf outcomes unit = some pair) :
    unit ∈ unitsOf outcomes "A" ∧ unit ∈ unitsOf outcomes "B" := by
  obtain ⟨a, left, rest⟩ := bind_eq_some_iff.mp paired
  obtain ⟨b, right, -⟩ := map_eq_some_iff.mp rest
  rw [← fold_isSome_iff, ← fold_isSome_iff, left, right]
  exact ⟨rfl, rfl⟩

theorem pairedUnits_congr {outcomes outcomes' : List (Outcome F)} (distinct : Distinct outcomes)
    (distinct' : Distinct outcomes') (same : ∀ o, o ∈ outcomes ↔ o ∈ outcomes') :
    pairedUnits outcomes = pairedUnits outcomes' := by
  rw [pairedUnits_eq, pairedUnits_eq]
  have pairs : ∀ unit, pairOf outcomes unit = pairOf outcomes' unit :=
    fun unit => pairOf_congr distinct distinct' fun o _ => same o
  have listed : ∀ {l : List (Outcome F)} unit, (pairOf l unit).isSome → unit ∈ unitsOf l "A" := by
    intro l unit is
    obtain ⟨pair, paired⟩ := isSome_iff_exists.mp is
    exact (unitsOf_of_pairOf paired).1
  refine filterMap_sortedSet pairs listed fun unit is => listed unit ?_
  rwa [← pairs]

theorem filter_pairedUnits {outcomes outcomes' : List (Outcome F)} {groupOf : String → String}
    {taken : List String} (distinct : Distinct outcomes) (distinct' : Distinct outcomes')
    (placed : ∀ o ∈ outcomes, o.group = groupOf o.unit)
    (placed' : ∀ o ∈ outcomes', o.group = groupOf o.unit)
    (same : ∀ o, groupOf o.unit ∈ taken → (o ∈ outcomes ↔ o ∈ outcomes')) :
    (pairedUnits outcomes).filter (·.1.group ∈ taken)
      = (pairedUnits outcomes').filter (·.1.group ∈ taken) := by
  have group : ∀ {l : List (Outcome F)}, (∀ o ∈ l, o.group = groupOf o.unit) → ∀ {unit pair},
      pairOf l unit = some pair → pair.1.group = groupOf unit := by
    intro l placed unit pair paired
    obtain ⟨a, left, rest⟩ := bind_eq_some_iff.mp paired
    obtain ⟨b, -, rfl⟩ := map_eq_some_iff.mp rest
    obtain ⟨o, listed, -, rfl, -, own⟩ := fold_some left
    exact own.trans (placed o listed)
  have among : ∀ {l : List (Outcome F)} unit,
      ((pairOf l unit).filter (·.1.group ∈ taken)).isSome → unit ∈ unitsOf l "A" := by
    intro l unit is
    obtain ⟨pair, found⟩ := isSome_iff_exists.mp is
    exact (unitsOf_of_pairOf (filter_eq_some_iff.mp found).1).1
  have pairs : ∀ unit, (pairOf outcomes unit).filter (·.1.group ∈ taken)
      = (pairOf outcomes' unit).filter (·.1.group ∈ taken) := by
    intro unit
    by_cases inside : groupOf unit ∈ taken
    · rw [pairOf_congr distinct distinct' fun o ofUnit => same o (ofUnit ▸ inside)]
    · -- A unit of another repository has no pair among these.
      have off : ∀ {l : List (Outcome F)}, (∀ o ∈ l, o.group = groupOf o.unit) →
          (pairOf l unit).filter (·.1.group ∈ taken) = none := by
        intro l placed
        rw [filter_eq_none_iff]
        intro pair paired
        rw [group placed paired]
        simpa using inside
      rw [off placed, off placed']
  rw [pairedUnits_eq, pairedUnits_eq, filter_filterMap, filter_filterMap]
  refine filterMap_sortedSet pairs among fun unit is => among unit ?_
  rwa [← pairs]

end OpenUltraSast.Learn.Experiments
