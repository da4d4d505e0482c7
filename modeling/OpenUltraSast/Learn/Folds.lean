import Mathlib.Data.Prod.Lex
import OpenUltraSast.Learn.Examples

/-!
# Folds by repository group

A quarter of the groups of each primary family is the compile split, which no evaluation fold
shares; the others are dealt out to the outer folds.
-/

namespace OpenUltraSast.Learn.Folds

open Collections Examples List

structure Fold where
  kind : String
  name : String
  evalGroups : List String
  heldSource : Option String := none
  heldFramework : Option String := none
  phase : String := "evaluation"
  status : String := "ok"

/-- A group, as far as the folds read it. -/
structure GroupInfo where
  group : String
  families : List (String × Nat)
  labels : List Int

structure CompileSplit where
  groups : List String
  boot : List String
  val : List String

/-- A fraction of a number of groups, rounded: `int(n * fraction + 0.5)`. -/
class Fraction (F : Type) where
  share : F → Nat → Nat

/-- Without rounding errors. -/
instance : Fraction ℚ where
  share fraction n := (n * fraction + 1 / 2).floor.toNat

def groupInfo (examples : List Example) (group : String) : GroupInfo :=
  let own := examples.filter (·.group = group)
  let names := own.map (·.family)
  { group, families := names.eraseDups.map fun name => (name, names.count name)
    labels := sortedSet (own.map (·.label)) }

def groupsOf (examples : List Example) : List String := sortedSet (examples.map (·.group))

def groupTable (examples : List Example) : List GroupInfo :=
  (groupsOf examples).map (groupInfo examples)

def GroupInfo.primaryFamily (info : GroupInfo) : String :=
  let sorted := info.families.insertionSort fun a b => b.2 < a.2 ∨ a.2 = b.2 ∧ a.1 ≤ b.1
  (sorted.head?.map (·.1)).getD "unknown"

section Order
variable (sha256 : String → String)

/-- `_order`: by a hash under a seed and a salt. -/
def order (items : List String) (seed : Int) (salt : String) : List String :=
  items.insertionSort fun a b =>
    sha256 (toString seed ++ "\x00" ++ salt ++ "\x00" ++ a)
      ≤ sha256 (toString seed ++ "\x00" ++ salt ++ "\x00" ++ b)

variable {F : Type} [Fraction F]

/-- `_take`: the only group of a family is never taken. -/
def take (n : Nat) (fraction : F) : Nat := if 1 < n then Fraction.share fraction n else 0

def stratum (table : List GroupInfo) (family : String) : List String :=
  (table.filter (·.primaryFamily = family)).map (·.group)

def takenOf (table : List GroupInfo) (fraction : F) (seed : Int) : List (List String) :=
  (sortedSet (table.map (·.primaryFamily))).map fun family =>
    let ordered := order sha256 (stratum table family) seed ("compile:" ++ family)
    ordered.take (take ordered.length fraction)

def compileSplit (examples : List Example) (fraction boot : F) (seed : Int) : CompileSplit :=
  let taken := takenOf sha256 (groupTable examples) fraction seed
  let chosen := taken.flatten
  let bootGroups := taken.flatMap fun groups => groups.take (Fraction.share boot groups.length)
  { groups := chosen, boot := bootGroups, val := chosen.filter (· ∉ bootGroups) }

variable (keyText : String × List Int → String)

def GroupInfo.key (info : GroupInfo) : String ×ₗ List Int :=
  toLex (info.primaryFamily, info.labels)

def dealt (examples : List Example) (seed : Int) (exclude : List String) : List String :=
  let table := (groupTable examples).filter (·.group ∉ exclude)
  (sortedSet (table.map (·.key))).flatMap fun key =>
    order sha256 ((table.filter (·.key = key)).map (·.group)) seed ("outer:" ++ keyText (ofLex key))

def outerFolds (examples : List Example) (k : Nat) (seed : Int) (exclude : List String) :
    List Fold :=
  let groups := (dealt sha256 keyText examples seed exclude).zipIdx
  (List.range k).map fun i =>
    { kind := "outer", name := "outer-" ++ toString i
      evalGroups := (groups.filter fun entry => entry.2 % k = i).map (·.1) }

end Order

/-- `targets`: the examples of each usable fold's groups, some families left out. -/
def targets (folds : List Fold) (examples : List Example) (skip : List String) :
    List (Example × Fold) :=
  (folds.filter (·.status = "ok")).flatMap fun fold =>
    (examples.filter fun e => e.group ∈ fold.evalGroups ∧ e.family ∉ skip).map fun e => (e, fold)

def labelledGroups (examples : List Example) (family : String) (label : Int) : List String :=
  groupsOf (examples.filter fun e => e.family = family ∧ e.label = label)

def pooledFloor : Nat := 10

/-- `unevaluable_families`: below the floor of positive and of negative groups. -/
def unevaluableFamilies (examples : List Example) : List String :=
  (sortedSet (examples.map (·.family))).filter fun family =>
    min (labelledGroups examples family 1).length (labelledGroups examples family 0).length
      < pooledFloor

variable {examples : List Example}

variable {seed : Int} {group : String} {exclude : List String}

section Order
variable {sha256 : String → String} {keyText : String × List Int → String}

theorem mem_order {items : List String} {salt item : String} :
    item ∈ order sha256 items seed salt ↔ item ∈ items :=
  mem_insertionSort _

theorem mem_groupsOf : group ∈ groupsOf examples ↔ ∃ e ∈ examples, e.group = group := by
  rw [groupsOf, mem_sortedSet, mem_map]

private theorem mem_dealt :
    group ∈ dealt sha256 keyText examples seed exclude ↔
      group ∈ groupsOf examples ∧ group ∉ exclude := by
  simp only [dealt, mem_flatMap, mem_sortedSet, mem_map, mem_filter, mem_order,
    decide_eq_true_eq, groupTable]
  constructor
  · rintro ⟨key, -, info, ⟨⟨⟨name, member, rfl⟩, outside⟩, -⟩, rfl⟩
    exact ⟨member, outside⟩
  · rintro ⟨member, outside⟩
    have inside : (∃ name ∈ groupsOf examples, groupInfo examples name = groupInfo examples group) ∧
        (groupInfo examples group).group ∉ exclude := ⟨⟨group, member, rfl⟩, outside⟩
    exact ⟨_, ⟨groupInfo examples group, inside, rfl⟩, groupInfo examples group, ⟨inside, rfl⟩, rfl⟩

theorem nodup_dealt (examples : List Example) (seed : Int) (exclude : List String) :
    (dealt sha256 keyText examples seed exclude).Nodup := by
  have names : ∀ info ∈ groupTable examples, info = groupInfo examples info.group := by
    intro info member
    obtain ⟨group, -, rfl⟩ := mem_map.mp member
    rfl
  rw [dealt, nodup_flatMap]
  constructor
  · intro key _
    apply (perm_insertionSort _ _).nodup_iff.mpr
    rw [filter_filter, groupTable, filter_map, map_map]
    have same : ((fun info : GroupInfo => info.group) ∘ groupInfo examples) = id := rfl
    rw [same, map_id]
    exact (nodup_sortedSet _).filter _
  · apply (nodup_sortedSet _).imp
    intro key other apart group first second
    simp only [mem_order, mem_map, mem_filter, decide_eq_true_eq] at first second
    obtain ⟨info, ⟨⟨memberI, -⟩, rfl⟩, rfl⟩ := first
    obtain ⟨info', ⟨⟨memberI', -⟩, rfl⟩, same⟩ := second
    exact apart (by rw [names info memberI, names info' memberI', same])

variable {k : Nat}

theorem mem_outerFolds :
    (∃ fold ∈ outerFolds sha256 keyText examples k seed exclude, group ∈ fold.evalGroups) ↔
      0 < k ∧ group ∈ groupsOf examples ∧ group ∉ exclude := by
  have dealt_ : group ∈ dealt sha256 keyText examples seed exclude ↔
      group ∈ groupsOf examples ∧ group ∉ exclude := mem_dealt
  rw [← dealt_]
  simp only [outerFolds, mem_map, mem_range]
  constructor
  · rintro ⟨fold, ⟨i, below, rfl⟩, member⟩
    obtain ⟨entry, inside, rfl⟩ := mem_map.mp member
    have among := mem_of_mem_filter inside
    exact ⟨by omega, fst_mem_of_mem_zipIdx among⟩
  · rintro ⟨some_, member⟩
    obtain ⟨i, below, found⟩ := mem_iff_getElem.mp member
    refine ⟨_, ⟨i % k, Nat.mod_lt i some_, rfl⟩, ?_⟩
    apply mem_map.mpr
    refine ⟨(group, i), mem_filter.mpr ⟨?_, by simp⟩, rfl⟩
    rw [mem_zipIdx_iff_getElem?, List.getElem?_eq_getElem below, found]

/-- No group is evaluated in two folds. -/
theorem outerFolds_disjoint {i j : Nat} {first second : Fold}
    (foldI : (outerFolds sha256 keyText examples k seed exclude)[i]? = some first)
    (foldJ : (outerFolds sha256 keyText examples k seed exclude)[j]? = some second)
    (inI : group ∈ first.evalGroups) (inJ : group ∈ second.evalGroups) : i = j := by
  have place : ∀ {i : Nat} {fold : Fold},
      (outerFolds sha256 keyText examples k seed exclude)[i]? = some fold →
      group ∈ fold.evalGroups →
      ∃ n, (dealt sha256 keyText examples seed exclude)[n]? = some group ∧ n % k = i := by
    intro i fold found inside
    simp only [outerFolds, List.getElem?_map, List.getElem?_eq_some_iff, length_range,
      getElem_range, Option.map_eq_some_iff] at found
    obtain ⟨index, ⟨below, rfl⟩, rfl⟩ := found
    simp only [mem_map, mem_filter, decide_eq_true_eq] at inside
    obtain ⟨entry, ⟨member, rest⟩, rfl⟩ := inside
    exact ⟨entry.2, (mem_zipIdx_iff_getElem?.mp member), rest⟩
  obtain ⟨n, atN, rfl⟩ := place foldI inI
  obtain ⟨m, atM, rfl⟩ := place foldJ inJ
  obtain ⟨belowN, valueN⟩ := List.getElem?_eq_some_iff.mp atN
  obtain ⟨belowM, valueM⟩ := List.getElem?_eq_some_iff.mp atM
  rw [(nodup_dealt examples seed exclude).getElem_inj_iff.mp (valueN.trans valueM.symm)]

theorem status_outerFolds :
    ∀ fold ∈ outerFolds sha256 keyText examples k seed exclude, fold.status = "ok" := by
  intro fold member
  obtain ⟨i, -, rfl⟩ := mem_map.mp member
  rfl

end Order

theorem mem_targets {folds : List Fold} {skip : List String} {e : Example} :
    (∃ fold, (e, fold) ∈ targets folds examples skip) ↔
      e ∈ examples ∧ e.family ∉ skip ∧
        ∃ fold ∈ folds, fold.status = "ok" ∧ e.group ∈ fold.evalGroups := by
  simp only [targets, mem_flatMap, mem_map, mem_filter, decide_eq_true_eq,
    Prod.mk.injEq]
  constructor
  · rintro ⟨fold, other, ⟨usable, status⟩, e', ⟨member, inside, kept⟩, rfl, rfl⟩
    exact ⟨member, kept, other, usable, status, inside⟩
  · rintro ⟨member, kept, fold, usable, status, inside⟩
    exact ⟨fold, fold, ⟨usable, status⟩, e, ⟨member, inside, kept⟩, rfl, rfl⟩

end OpenUltraSast.Learn.Folds
