import OpenUltraSast.Learn.Unseen
import OpenUltraSast.Library.Greedy

/-!
# Folds are a balanced partition

The compile split and the outer folds share out the groups of the examples, whatever the order of the
examples.
-/

namespace OpenUltraSast.Learn.Folds

open Collections Examples RoundRobin List

variable {sha256 : String → String} {keyText : String × List Int → String}
variable {examples others : List Example}

theorem groupsOf_perm (perm : others.Perm examples) : groupsOf others = groupsOf examples := by
  rw [groupsOf, groupsOf, sortedSet_eq_iff]
  exact fun group => (perm.map _).mem_iff

private theorem families_perm (perm : others.Perm examples) (group : String) :
    (groupInfo others group).families.Perm (groupInfo examples group).families := by
  have names := (perm.filter (·.group = group)).map (·.family)
  have distinct : ((others.filter (·.group = group)).map (·.family)).eraseDups.Perm
      ((examples.filter (·.group = group)).map (·.family)).eraseDups := by
    rw [perm_ext_iff_of_nodup (nodup_eraseDups _) (nodup_eraseDups _)]
    intro name
    rw [mem_eraseDups, mem_eraseDups, names.mem_iff]
  have counted := distinct.map fun name =>
    (name, ((others.filter (·.group = group)).map (·.family)).count name)
  refine counted.trans (List.Perm.of_eq (map_congr_left fun name _ => ?_))
  rw [names.count_eq]

/-- The order of the families of a group: by how many examples have them, then by name. -/
theorem primaryFamily_perm {info other : GroupInfo} (perm : other.families.Perm info.families) :
    other.primaryFamily = info.primaryFamily := by
  let before : String × Nat → String × Nat → Prop := fun a b => b.2 < a.2 ∨ a.2 = b.2 ∧ a.1 ≤ b.1
  have total : Std.Total before := ⟨fun a b => by
    rcases Nat.lt_trichotomy a.2 b.2 with less | same | more
    · exact .inr (.inl less)
    · exact (le_total a.1 b.1).imp (fun le => .inr ⟨same, le⟩) fun le => .inr ⟨same.symm, le⟩
    · exact .inl (.inl more)⟩
  have trans_ : IsTrans _ before := ⟨by
    rintro a b c (more | ⟨same, le⟩) (later | ⟨same', le'⟩)
    · exact .inl (later.trans more)
    · exact .inl (same' ▸ more)
    · exact .inl (same ▸ later)
    · exact .inr ⟨same.trans same', le.trans le'⟩⟩
  have sorted : other.families.insertionSort before = info.families.insertionSort before := by
    have listed : (other.families.insertionSort before).Perm
        (info.families.insertionSort before) :=
      (perm_insertionSort _ _).trans (perm.trans (perm_insertionSort _ _).symm)
    refine listed.eq_of_pairwise (fun a b _ _ le ge => ?_) (pairwise_insertionSort _ _)
      (pairwise_insertionSort _ _)
    -- two families that stand before each other are of one count and one name
    rcases le with more | ⟨same, le⟩
    · rcases ge with less | ⟨same, -⟩ <;> omega
    · rcases ge with less | ⟨-, ge⟩
      · omega
      · exact Prod.ext (le_antisymm le ge) same
  rw [GroupInfo.primaryFamily, GroupInfo.primaryFamily]
  exact congrArg (fun sorted : List (String × Nat) => (sorted.head?.map (·.1)).getD "unknown") sorted

theorem primaryFamily_groupInfo (perm : others.Perm examples) (group : String) :
    (groupInfo others group).primaryFamily = (groupInfo examples group).primaryFamily :=
  primaryFamily_perm (families_perm perm group)

theorem key_groupInfo (perm : others.Perm examples) (group : String) :
    (groupInfo others group).key = (groupInfo examples group).key := by
  have labels : (groupInfo others group).labels = (groupInfo examples group).labels := by
    simp only [groupInfo]
    rw [sortedSet_eq_iff]
    exact fun label => ((perm.filter _).map _).mem_iff
  rw [GroupInfo.key, GroupInfo.key, primaryFamily_groupInfo perm, labels]

theorem filter_groupTable (p : GroupInfo → Bool) :
    ((groupTable examples).filter p).map (·.group) =
      (groupsOf examples).filter fun group => p (groupInfo examples group) := by
  rw [groupTable, filter_map, map_map]
  exact map_id _

theorem takenOf_perm {F : Type} [Fraction F] (perm : others.Perm examples) (fraction : F)
    (seed : Int) :
    takenOf sha256 (groupTable others) fraction seed =
      takenOf sha256 (groupTable examples) fraction seed := by
  have families : (groupTable others).map (·.primaryFamily) =
      (groupTable examples).map (·.primaryFamily) := by
    rw [groupTable, groupTable, map_map, map_map, groupsOf_perm perm]
    exact map_congr_left fun group _ => primaryFamily_groupInfo perm group
  have strata (family : String) :
      stratum (groupTable others) family = stratum (groupTable examples) family := by
    rw [stratum, stratum, filter_groupTable, filter_groupTable, groupsOf_perm perm]
    simp only [primaryFamily_groupInfo perm]
  simp only [takenOf, families, strata]

theorem compileSplit_perm {F : Type} [Fraction F] (perm : others.Perm examples) (fraction boot : F)
    (seed : Int) :
    compileSplit sha256 others fraction boot seed =
      compileSplit sha256 examples fraction boot seed := by
  simp only [compileSplit, takenOf_perm perm]

theorem filter_dealt_key (exclude : List String) (key : String ×ₗ List Int) :
    (((groupTable examples).filter (·.group ∉ exclude)).filter (·.key = key)).map (·.group) =
      (groupsOf examples).filter fun group =>
        (groupInfo examples group).key = key ∧ group ∉ exclude := by
  rw [filter_filter, filter_groupTable]
  apply filter_congr
  intro group _
  have name : (groupInfo examples group).group = group := rfl
  simp only [name, Bool.decide_and]

private theorem dealt_perm (perm : others.Perm examples) (seed : Int) (exclude : List String) :
    dealt sha256 keyText others seed exclude = dealt sha256 keyText examples seed exclude := by
  have keys : sortedSet (((groupTable others).filter (·.group ∉ exclude)).map (·.key)) =
      sortedSet (((groupTable examples).filter (·.group ∉ exclude)).map (·.key)) := by
    rw [groupTable, groupTable, filter_map, filter_map, map_map, map_map,
      groupsOf_perm perm]
    congr 1
    exact map_congr_left fun group _ => key_groupInfo perm group
  simp only [dealt, keys, filter_dealt_key, groupsOf_perm perm, key_groupInfo perm]

theorem mem_takenOf {F : Type} [Fraction F] {fraction : F} {seed : Int} {groups : List String}
    {table : List GroupInfo} (member : groups ∈ takenOf sha256 table fraction seed) :
    ∃ family, groups.Sublist (order sha256 (stratum table family) seed ("compile:" ++ family)) ∧
      ((stratum table family).length ≤ 1 → groups = []) := by
  obtain ⟨family, -, rfl⟩ := mem_map.mp member
  have size : (order sha256 (stratum table family) seed ("compile:" ++ family)).length =
      (stratum table family).length := length_insertionSort _ _
  refine ⟨family, take_sublist _ _, fun few => ?_⟩
  dsimp only
  rw [size, take, if_neg (Nat.not_lt.mpr few), take_zero]

variable {group : String}

theorem mem_stratum {family : String} :
    group ∈ stratum (groupTable examples) family ↔
      group ∈ groupsOf examples ∧ (groupInfo examples group).primaryFamily = family := by
  rw [stratum, filter_groupTable, mem_filter, decide_eq_true_eq]

section Split
variable {F : Type} [Fraction F] {fraction boot : F} {seed : Int}

theorem chosen_inside (member : group ∈ (compileSplit sha256 examples fraction boot seed).groups) :
    group ∈ groupsOf examples := by
  obtain ⟨groups, taken, inside⟩ := mem_flatten.mp member
  obtain ⟨family, part, -⟩ := mem_takenOf taken
  exact (mem_stratum.mp (mem_order.mp (part.subset inside))).1

theorem single_not_chosen {family : String} (only : stratum (groupTable examples) family = [group]) :
    group ∉ (compileSplit sha256 examples fraction boot seed).groups := by
  intro member
  obtain ⟨groups, taken, inside⟩ := mem_flatten.mp member
  obtain ⟨other, part, few⟩ := mem_takenOf taken
  have own : group ∈ stratum (groupTable examples) family := by
    rw [only]
    exact mem_singleton_self group
  -- a group has one primary family, so the stratum it was taken from is this one
  have same : other = family :=
    (mem_stratum.mp (mem_order.mp (part.subset inside))).2.symm.trans (mem_stratum.mp own).2
  have none := few (by rw [same, only, length_singleton])
  rw [none] at inside
  cases inside

theorem boot_subset :
    (compileSplit sha256 examples fraction boot seed).boot ⊆
      (compileSplit sha256 examples fraction boot seed).groups := by
  intro group member
  obtain ⟨groups, taken, inside⟩ := mem_flatMap.mp member
  exact mem_flatten.mpr ⟨groups, taken, mem_of_mem_take inside⟩

theorem mem_val :
    group ∈ (compileSplit sha256 examples fraction boot seed).val ↔
      group ∈ (compileSplit sha256 examples fraction boot seed).groups ∧
        group ∉ (compileSplit sha256 examples fraction boot seed).boot := by
  rw [compileSplit]
  simp only [mem_filter, decide_eq_true_eq]

end Split

def parts (split : CompileSplit) (folds : List Fold) : List (List String) :=
  split.boot :: split.val :: folds.map (·.evalGroups)

/-- Every group is in exactly one part of the split. -/
theorem one_part {F : Type} [Fraction F] (fraction boot : F) (seed seed' : Int) {k : Nat} (some_ : 0 < k)
    (member : group ∈ groupsOf examples) :
    let split := compileSplit sha256 examples fraction boot seed
    ∃! i : Nat, ∃ part, (parts split (outerFolds sha256 keyText examples k seed' split.groups))[i]? =
      some part ∧ group ∈ part := by
  intro split
  -- an outer fold holds no group of the compile split
  have outside {i : Nat} {part : List String}
      (found : ((outerFolds sha256 keyText examples k seed' split.groups).map
        (·.evalGroups))[i]? = some part) (inside : group ∈ part) : group ∉ split.groups := by
    rw [List.getElem?_map, Option.map_eq_some_iff] at found
    obtain ⟨fold, at_, rfl⟩ := found
    have dealt_ : ∃ fold ∈ outerFolds sha256 keyText examples k seed' split.groups,
        group ∈ fold.evalGroups := ⟨fold, mem_of_getElem? at_, inside⟩
    exact (mem_outerFolds.mp dealt_).2.2
  -- what is chosen is in the one half of the compile split or in the other
  by_cases chosen : group ∈ split.groups
  · by_cases booted : group ∈ split.boot
    · refine ⟨0, ⟨_, rfl, booted⟩, ?_⟩
      rintro (_ | _ | i) ⟨part, found, inside⟩
      · rfl
      · cases found
        exact absurd booted (mem_val.mp inside).2
      · exact absurd chosen (outside found inside)
    · refine ⟨1, ⟨_, rfl, mem_val.mpr ⟨chosen, booted⟩⟩, ?_⟩
      rintro (_ | _ | i) ⟨part, found, inside⟩
      · cases found
        exact absurd inside booted
      · rfl
      · exact absurd chosen (outside found inside)
  · have dealt_ : ∃ fold ∈ outerFolds sha256 keyText examples k seed' split.groups,
        group ∈ fold.evalGroups := mem_outerFolds.mpr ⟨some_, member, chosen⟩
    -- the outer folds follow the two parts of the compile split
    obtain ⟨fold, among, inside⟩ := dealt_
    obtain ⟨n, at_⟩ := List.getElem?_of_mem among
    refine ⟨n + 2, ⟨fold.evalGroups, ?_, inside⟩, ?_⟩
    · simp [parts, at_]
    · rintro (_ | _ | i) ⟨part, found, held⟩
      · cases found
        exact absurd (boot_subset held) chosen
      · cases found
        exact absurd (mem_val.mp held).1 chosen
      · have placed : ((outerFolds sha256 keyText examples k seed' split.groups).map
            (·.evalGroups))[i]? = some part := found
        rw [List.getElem?_map, Option.map_eq_some_iff] at placed
        obtain ⟨other, place, rfl⟩ := placed
        rw [outerFolds_disjoint place at_ held inside]

section Even
variable {k : Nat} {seed : Int} {exclude : List String}

theorem evalGroups_eq {fold : Fold}
    (member : fold ∈ outerFolds sha256 keyText examples k seed exclude) :
    ∃ i < k, fold.evalGroups = hand k i 0 (dealt sha256 keyText examples seed exclude) := by
  obtain ⟨i, below, rfl⟩ := mem_map.mp member
  exact ⟨i, mem_range.mp below, rfl⟩

private theorem nodup_evalGroups {fold : Fold}
    (member : fold ∈ outerFolds sha256 keyText examples k seed exclude) :
    fold.evalGroups.Nodup := by
  obtain ⟨i, -, same⟩ := evalGroups_eq member
  rw [same]
  exact (nodup_dealt examples seed exclude).sublist (hand_sublist 0 _)

private theorem dealt_stratum (key : String ×ₗ List Int) :
    ∃ before own after, dealt sha256 keyText examples seed exclude = before ++ own ++ after ∧
      (∀ group ∈ before ++ after, (groupInfo examples group).key ≠ key) ∧
      ∀ group ∈ own, (groupInfo examples group).key = key := by
  let deal : String ×ₗ List Int → List String := fun key =>
    order sha256 ((((groupTable examples).filter (·.group ∉ exclude)).filter
      (·.key = key)).map (·.group)) seed ("outer:" ++ keyText (ofLex key))
  -- what is dealt out for some keys has one of these keys
  have block (keys : List (String ×ₗ List Int)) (group : String)
      (member : group ∈ keys.flatMap deal) : (groupInfo examples group).key ∈ keys := by
    obtain ⟨key, listed, inside⟩ := mem_flatMap.mp member
    rw [mem_order, filter_dealt_key, mem_filter, decide_eq_true_eq] at inside
    exact inside.2.1 ▸ listed
  have distinct := nodup_sortedSet (((groupTable examples).filter (·.group ∉ exclude)).map (·.key))
  have whole : dealt sha256 keyText examples seed exclude =
      (sortedSet (((groupTable examples).filter (·.group ∉ exclude)).map (·.key))).flatMap deal := rfl
  rw [whole]
  generalize sortedSet (((groupTable examples).filter (·.group ∉ exclude)).map (·.key)) = keys
    at distinct
  -- each key is dealt out once, so its groups lie together
  by_cases listed : key ∈ keys
  · obtain ⟨early, late, rfl⟩ := append_of_mem listed
    rw [nodup_middle, nodup_cons, mem_append, not_or] at distinct
    refine ⟨early.flatMap deal, deal key, late.flatMap deal, ?_, ?_, ?_⟩
    · rw [flatMap_append, flatMap_cons, append_assoc]
    · intro group member same
      rcases mem_append.mp member with inside | inside
      · exact distinct.1.1 (same ▸ block early group inside)
      · exact distinct.1.2 (same ▸ block late group inside)
    · intro group member
      have single := block [key] group (by rwa [flatMap_singleton])
      exact mem_singleton.mp single
  · refine ⟨keys.flatMap deal, [], [], by rw [append_nil, append_nil], ?_, nofun⟩
    intro group member same
    rw [append_nil] at member
    exact listed (same ▸ block keys group member)

private theorem outerFolds_even {first second : Fold}
    (memberF : first ∈ outerFolds sha256 keyText examples k seed exclude)
    (memberS : second ∈ outerFolds sha256 keyText examples k seed exclude) :
    first.evalGroups.length ≤ second.evalGroups.length + 1 ∧
      ∀ key, (first.evalGroups.filter fun group => (groupInfo examples group).key = key).length ≤
        (second.evalGroups.filter fun group => (groupInfo examples group).key = key).length + 1 := by
  obtain ⟨i, belowI, sameF⟩ := evalGroups_eq memberF
  obtain ⟨j, belowJ, sameS⟩ := evalGroups_eq memberS
  rw [sameF, sameS]
  refine ⟨length_hand_le belowI belowJ 0 _, fun key => ?_⟩
  obtain ⟨before, own, after, whole, apart, all⟩ :=
    @dealt_stratum sha256 keyText examples seed exclude key
  rw [whole]
  apply length_hand_filter_le belowI belowJ
  · exact fun group member => decide_eq_false (apart group member)
  · exact fun group member => decide_eq_true (all group member)

end Even

/-- The compile split and the outer folds of the other groups are a partition of the groups that does
not depend on the order of the examples. A stratum's only group is not in the compile split, and the
outer folds are even, overall and in each stratum. -/
theorem folds_balanced {F : Type} [Fraction F] (fraction boot : F) (seed seed' : Int) {k : Nat}
    (some_ : 0 < k) (examples : List Example) :
    let split := compileSplit sha256 examples fraction boot seed
    let folds := outerFolds sha256 keyText examples k seed' split.groups
    (∀ others : List Example, others.Perm examples →
      compileSplit sha256 others fraction boot seed = split ∧
        outerFolds sha256 keyText others k seed' split.groups = folds) ∧
    (∀ group ∈ groupsOf examples,
      ∃! i : Nat, ∃ part, (parts split folds)[i]? = some part ∧ group ∈ part) ∧
    (∀ part ∈ parts split folds, ∀ group ∈ part, group ∈ groupsOf examples) ∧
    (∀ family group, stratum (groupTable examples) family = [group] → group ∉ split.groups) ∧
    folds.length = k ∧ (∀ fold ∈ folds, fold.evalGroups.Nodup) ∧
    ∀ first ∈ folds, ∀ second ∈ folds,
      first.evalGroups.length ≤ second.evalGroups.length + 1 ∧
      ∀ key, (first.evalGroups.filter fun group => (groupInfo examples group).key = key).length ≤
        (second.evalGroups.filter fun group =>
          (groupInfo examples group).key = key).length + 1 := by
  intro split folds
  refine ⟨fun others perm => ⟨compileSplit_perm perm fraction boot seed, ?_⟩,
    fun group member => one_part fraction boot seed seed' some_ member, ?_,
    fun family group only => single_not_chosen only, ?_, fun fold => nodup_evalGroups,
    fun first memberF second memberS => outerFolds_even memberF memberS⟩
  · simp only [outerFolds, dealt_perm perm, folds]
  · intro part member group inside
    rcases mem_cons.mp member with rfl | member
    · exact chosen_inside (boot_subset inside)
    · rcases mem_cons.mp member with rfl | member
      · exact chosen_inside (mem_val.mp inside).1
      · obtain ⟨fold, among, rfl⟩ := mem_map.mp member
        have dealt_ : ∃ fold ∈ outerFolds sha256 keyText examples k seed' split.groups,
            group ∈ fold.evalGroups := ⟨fold, among, inside⟩
        exact (mem_outerFolds.mp dealt_).2.1
  · simp [folds, outerFolds]

/-- Ten groups of one stratum in three folds, none of which has two groups more than another. -/
theorem folds_balanced_tenGroups :
    (outerFolds id (fun _ => "") (bothLabels tenGroups) 3 0
        (compileSplit id (bothLabels tenGroups) (1 / 4 : ℚ) (3 / 5) 0).groups).length = 3 ∧
      ∀ first ∈ outerFolds id (fun _ => "") (bothLabels tenGroups) 3 0
          (compileSplit id (bothLabels tenGroups) (1 / 4 : ℚ) (3 / 5) 0).groups,
        ∀ second ∈ outerFolds id (fun _ => "") (bothLabels tenGroups) 3 0
            (compileSplit id (bothLabels tenGroups) (1 / 4 : ℚ) (3 / 5) 0).groups,
          first.evalGroups.length ≤ second.evalGroups.length + 1 := by
  have balanced := @folds_balanced id (fun _ => "") ℚ _ (1 / 4) (3 / 5) 0 0 3 (by decide)
    (bothLabels tenGroups)
  obtain ⟨-, -, -, -, size, -, even⟩ := balanced
  exact ⟨size, fun first memberF second memberS => (even first memberF second memberS).1⟩

end OpenUltraSast.Learn.Folds
