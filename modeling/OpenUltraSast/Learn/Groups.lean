import OpenUltraSast.Learn.Labels

/-!
# Repository groups

The groups of the labels are the classes of the repositories that share an advisory id or a fix
commit, or that an alias of an added repository joins.
-/

namespace OpenUltraSast.Learn.Labels

open Dicts Examples Folds UnionFind Relation Option

section Lower
variable (lower : String → String)

/-- Two repositories share an advisory id, or a fix commit of 12 or more characters. -/
def Shares (additions : List Addition) (x y : String) : Prop :=
  ∃ a ∈ additions, ∃ b ∈ additions, nameOf lower a.repo = x ∧ nameOf lower b.repo = y ∧
    ((∃ id ∈ a.advisoryIds, id ∈ b.advisoryIds) ∨
      ∃ c ∈ a.commits, ∃ d ∈ b.commits, 12 ≤ c.length ∧ 12 ≤ d.length ∧ lower c = lower d)

variable (aliases : List (String × String))

def Connected (additions : List Addition) : Setoid String :=
  EqvGen.setoid fun x y => Shares lower additions x y ∨ aliases.lookup x = some y

/-- Connected through repositories that have a name, and aliases of added ones. -/
def Joined (additions : List Addition) : Setoid String :=
  EqvGen.setoid fun x y => x ≠ "" ∧
    (y ≠ "" ∧ Shares lower additions x y ∨
      (∃ a ∈ additions, nameOf lower a.repo = x) ∧ aliases.lookup x = some y)

/-- The label's repository has a name, and no alias joins it with the empty one. -/
def Named (additions : List Addition) (label : Label) : Prop :=
  ¬ Joined lower aliases additions (nameOf lower label.repo) ""

/-- No label's group is missed: a chain through a nameless repository or through an alias of a
repository that no source adds connects only what is connected without. Labels that are joined with
the empty name keep the groups of their readers. -/
structure Told (additions : List Addition) (labels : List Label) : Prop where
  joined : ∀ a ∈ labels, ∀ b ∈ labels, Named lower aliases additions a →
    Named lower aliases additions b →
    Connected lower aliases additions (nameOf lower a.repo) (nameOf lower b.repo) →
    Joined lower aliases additions (nameOf lower a.repo) (nameOf lower b.repo)
  unnamed : ∀ a ∈ labels, ∀ b ∈ labels, ¬ Named lower aliases additions a →
    ¬ Named lower aliases additions b → a.group = b.group
  mixed : ∀ a ∈ labels, ∀ b ∈ labels, Named lower aliases additions a →
    ¬ Named lower aliases additions b →
    (Connected lower aliases additions (nameOf lower a.repo) (nameOf lower b.repo) ↔
      IsLeast {x | Joined lower aliases additions (nameOf lower a.repo) x} b.group)

def ExactGroups (additions : List Addition) (labels : List Label) : Prop :=
  ∀ a ∈ labels, ∀ b ∈ labels, a.group = b.group ↔
    Connected lower aliases additions (nameOf lower a.repo) (nameOf lower b.repo)

/-- No two connected repositories are placed one in the compile split and one in an outer fold, or
in two outer folds. -/
def NeverStraddles (F : Type) [Fraction F] (sha256 : String → String)
    (keyText : String × List Int → String) (additions : List Addition) (labels : List Label) :
    Prop :=
  ∀ a ∈ labels, ∀ b ∈ labels,
    Connected lower aliases additions (nameOf lower a.repo) (nameOf lower b.repo) →
    ∀ (examples : List Example) (fraction boot : F) (seed : Int) (k : Nat),
      let split := compileSplit sha256 examples fraction boot seed
      let folds := outerFolds sha256 keyText examples k seed split.groups
      (a.group ∈ split.groups → ∀ fold ∈ folds, b.group ∉ fold.evalGroups) ∧
        ∀ i j : Nat, i ≠ j → (∃ fold : Fold, folds[i]? = some fold ∧ a.group ∈ fold.evalGroups) →
          ∀ fold : Fold, folds[j]? = some fold → b.group ∉ fold.evalGroups

variable {lower} {aliases}

def marksOf (lower : String → String) (additions : List Addition) : List (String × String) :=
  additions.flatMap fun a =>
    if nameOf lower a.repo = "" then []
    else (keysOf lower a.advisoryIds a.commits).map fun entry => (nameOf lower a.repo, entry.1)

structure Holding (g : Groups) (n : Naming String) (marks : List (String × String))
    (base : Setoid String) : Prop where
  represents : Represents g.parent n
  classes : n.classes = base ⊔ sharing marks
  keyed : ∀ key name, g.byKey.lookup key = some name → (name, key) ∈ marks
  marked : ∀ name key, (name, key) ∈ marks → key ∈ keys g.byKey

variable {g : Groups}

theorem union_holds {n : Naming String} (r : Represents g.parent n)
    (a b why : String) :
    ∃ after, g.union a b why = some after ∧ Represents after.parent (n.join a b) ∧
      after.byKey = g.byKey ∧ after.aliases = g.aliases := by
  obtain ⟨parent, moved, joined, sound⟩ := union_spec r a b
  simp only [Groups.union, joined, bind_eq_bind, bind_some]
  exact ⟨_, rfl, sound, rfl, rfl⟩

variable {marks : List (String × String)} {base : Setoid String}

private theorem addKey_holds {n : Naming String}
    (h : Holding g n marks base) (name : String) (entry : String × String) :
    ∃ after m, g.addKey name entry = some after ∧
      Holding after m (marks ++ [(name, entry.1)]) base ∧ after.aliases = g.aliases := by
  rw [Groups.addKey]
  cases found : g.byKey.lookup entry.1 with
  | some other =>
    -- the key has an owner: the name is united with it
    have held := h.keyed _ _ found
    obtain ⟨after, joined, sound, byKey, same⟩ := union_holds h.represents name other entry.2
    refine ⟨after, n.join name other, joined, ⟨sound, ?_, ?_, ?_⟩, same⟩
    · rw [Naming.classes_join, h.classes, sup_assoc, sharing_further held]
    · intro key first known
      exact List.mem_append_left _ (h.keyed key first (byKey ▸ known))
    · intro x key member
      rw [byKey]
      rcases List.mem_append.mp member with old | new
      · exact h.marked x key old
      · cases List.mem_singleton.mp new
        exact mem_keys_iff.mpr ⟨other, found⟩
  | none =>
    -- the key is new: no class changes, the name becomes its owner
    have absent := lookup_eq_none_iff.mp found
    refine ⟨_, n, rfl, ⟨h.represents, ?_, ?_, ?_⟩, rfl⟩
    · rw [sharing_first fun x member => absent (h.marked x _ member), h.classes]
    · intro key first known
      rw [lookup_set] at known
      split at known
      next here =>
        cases known
        exact List.mem_append_right _ (here ▸ List.mem_cons_self)
      next => exact List.mem_append_left _ (h.keyed key first known)
    · intro x key member
      rw [mem_keys_set]
      rcases List.mem_append.mp member with old | new
      · exact .inr (h.marked x key old)
      · cases List.mem_singleton.mp new
        exact .inl rfl

theorem addKeys_holds (name : String) (base : Setoid String) :
    ∀ (entries : List (String × String)) {g : Groups} {n : Naming String}
      {marks : List (String × String)}, Holding g n marks base →
      ∃ after m, entries.foldlM (Groups.addKey name) g = some after ∧
        Holding after m (marks ++ entries.map fun entry => (name, entry.1)) base ∧
        after.aliases = g.aliases
  | [], g, n, marks, h => ⟨g, n, rfl, by simpa using h, rfl⟩
  | entry :: rest, g, n, marks, h => by
    obtain ⟨next, m, first, held, same⟩ := addKey_holds h name entry
    obtain ⟨after, m', others, done, kept⟩ := addKeys_holds name base rest held
    refine ⟨after, m', ?_, ?_, kept.trans same⟩
    · rw [List.foldlM_cons, first]
      exact others
    · simpa using done

def aliased (lower : String → String) (aliases : List (String × String)) (a : Addition)
    (x y : String) : Prop :=
  x ≠ "" ∧ nameOf lower a.repo = x ∧ aliases.lookup x = some y

private theorem add_holds {n : Naming String}
    (h : Holding g n marks base) (a : Addition) :
    ∃ after m, g.add lower a.repo a.advisoryIds a.commits = some after ∧
      Holding after m (marks ++ marksOf lower [a])
        (base ⊔ EqvGen.setoid (aliased lower g.aliases a)) ∧ after.aliases = g.aliases := by
  rw [Groups.add]
  by_cases nameless : nameOf lower a.repo = ""
  · -- an addition without a name has no alias, and marks nothing
    have none_ : EqvGen.setoid (aliased lower g.aliases a) ≤ base := by
      apply Setoid.eqvGen_le
      rintro x y ⟨some_, rfl, -⟩
      exact absurd nameless some_
    refine ⟨g, n, if_pos nameless, ?_, rfl⟩
    rw [sup_eq_left.mpr none_]
    simpa [marksOf, nameless] using h
  · simp only [if_neg nameless]
    -- the name is looked up first, which only shortens paths
    obtain ⟨parent, found, sound, -⟩ := find_spec h.represents (nameOf lower a.repo)
    simp only [found, bind_eq_bind, bind_some]
    have marks_ : marksOf lower [a] = (keysOf lower a.advisoryIds a.commits).map
        fun entry => (nameOf lower a.repo, entry.1) := by simp [marksOf, nameless]
    rw [marks_]
    cases other : g.aliases.lookup (nameOf lower a.repo) with
    | none =>
      have none_ : EqvGen.setoid (aliased lower g.aliases a) ≤ base := by
        apply Setoid.eqvGen_le
        rintro x y ⟨-, rfl, to_⟩
        rw [other] at to_
        cases to_
      rw [sup_eq_left.mpr none_]
      exact addKeys_holds _ base _ ⟨sound, h.classes, h.keyed, h.marked⟩
    | some target =>
      obtain ⟨next, joined, sound', byKey, same⟩ :=
        union_holds (g := { g with parent }) sound (nameOf lower a.repo) target "alias"
      simp only [joined, bind_some]
      -- the alias joins these two names
      have pair : EqvGen.setoid (aliased lower g.aliases a)
          = EqvGen.setoid fun x y => x = nameOf lower a.repo ∧ y = target := by
        congr
        funext x y
        apply propext
        constructor
        · rintro ⟨-, rfl, to_⟩
          exact ⟨rfl, some.inj (to_.symm.trans other)⟩
        · rintro ⟨rfl, rfl⟩
          exact ⟨nameless, rfl, other⟩
      have held : Holding next (n.join (nameOf lower a.repo) target) marks
          (base ⊔ EqvGen.setoid (aliased lower g.aliases a)) := by
        refine ⟨sound', ?_, byKey ▸ h.keyed, byKey ▸ h.marked⟩
        rw [Naming.classes_join, h.classes, pair, sup_right_comm]
      -- then the keys of the addition, over the joined classes
      obtain ⟨after, m, run, done, kept⟩ := addKeys_holds _ _ _ held
      exact ⟨after, m, run, done, kept.trans same⟩

/-- After any additions the classes are those that aliases and shared marks make. -/
theorem adds_hold (lower : String → String) (aliases : List (String × String)) :
    ∀ (rest before : List Addition) {g : Groups} {n : Naming String},
    g.aliases = aliases →
    Holding g n (marksOf lower before)
      (EqvGen.setoid fun x y => ∃ a ∈ before, aliased lower aliases a x y) →
    ∃ after m, rest.foldlM (fun (g : Groups) a => g.add lower a.repo a.advisoryIds a.commits) g
        = some after ∧
      Holding after m (marksOf lower (before ++ rest))
        (EqvGen.setoid fun x y => ∃ a ∈ before ++ rest, aliased lower aliases a x y)
  | [], before, g, n, _, h => ⟨g, n, rfl, by simpa using h⟩
  | a :: rest, before, g, n, same, h => by
    obtain ⟨next, m, first, held, kept⟩ := add_holds h a
    have base : (EqvGen.setoid fun x y => ∃ a ∈ before, aliased lower aliases a x y)
          ⊔ EqvGen.setoid (aliased lower g.aliases a)
        = EqvGen.setoid fun x y => ∃ b ∈ before ++ [a], aliased lower aliases b x y := by
      rw [same, ← Setoid.gi.gc.l_sup]
      congr
      funext x y
      simp [or_and_right, exists_or]
    have marks : marksOf lower before ++ marksOf lower [a] = marksOf lower (before ++ [a]) := by
      simp [marksOf]
    rw [base, marks] at held
    obtain ⟨after, m', others, done⟩ :=
      adds_hold lower aliases rest (before ++ [a]) (kept.trans same) held
    refine ⟨after, m', ?_, ?_⟩
    · rw [List.foldlM_cons, first]
      exact others
    · simpa using done

private theorem holding_start : Holding { aliases } Naming.apart (marksOf lower [])
    (EqvGen.setoid fun x y => ∃ a ∈ ([] : List Addition), aliased lower aliases a x y) where
  represents := represents_nil
  classes := by
    have none_ : (EqvGen.setoid fun x y => ∃ a ∈ ([] : List Addition), aliased lower aliases a x y)
        = ⊥ := by
      apply le_antisymm _ bot_le
      apply Setoid.eqvGen_le
      rintro x y ⟨a, member, -⟩
      cases member
    rw [none_, Naming.classes_apart, marksOf, List.flatMap_nil, sharing_nil, sup_idem]
  keyed key name found := by simp at found
  marked name key member := by simp [marksOf] at member

theorem mem_keysOf {a : Addition} {key : String} :
    key ∈ (keysOf lower a.advisoryIds a.commits).map (·.1) ↔
      (∃ id ∈ a.advisoryIds, "adv:" ++ id = key) ∨
        ∃ c ∈ a.commits, 12 ≤ c.length ∧ "sha:" ++ lower c = key := by
  simp [keysOf, and_assoc]

variable {a b : String}

private theorem adv_injective (same : "adv:" ++ a = "adv:" ++ b) : a = b := by
  simpa using same

private theorem sha_injective (same : "sha:" ++ a = "sha:" ++ b) : a = b := by
  simpa using same

theorem adv_ne_sha : "adv:" ++ a ≠ "sha:" ++ b := by
  intro same
  have head := congrArg (fun s => s.toList.head?) same
  simp at head

theorem shares_iff {additions : List Addition} {x y : String} :
    (∃ key, (x, key) ∈ marksOf lower additions ∧ (y, key) ∈ marksOf lower additions) ↔
      x ≠ "" ∧ y ≠ "" ∧ Shares lower additions x y := by
  -- a mark is a name with a key of one of its additions
  have mem_marks : ∀ {name key : String}, (name, key) ∈ marksOf lower additions ↔
      name ≠ "" ∧ ∃ a ∈ additions, nameOf lower a.repo = name ∧
        key ∈ (keysOf lower a.advisoryIds a.commits).map (·.1) := by
    intro name key
    simp only [marksOf, List.mem_flatMap, List.mem_map]
    constructor
    · rintro ⟨a, member, inside⟩
      split at inside
      next => cases inside
      next some_ =>
        obtain ⟨entry, held, is⟩ := List.mem_map.mp inside
        cases is
        exact ⟨some_, a, member, rfl, entry, held, rfl⟩
    · rintro ⟨some_, a, member, rfl, entry, held, rfl⟩
      refine ⟨a, member, ?_⟩
      rw [if_neg some_]
      exact List.mem_map.mpr ⟨entry, held, rfl⟩
  constructor
  · rintro ⟨key, first, second⟩
    obtain ⟨someX, a, memberA, nameA, keyA⟩ := mem_marks.mp first
    obtain ⟨someY, b, memberB, nameB, keyB⟩ := mem_marks.mp second
    refine ⟨someX, someY, a, memberA, b, memberB, nameA, nameB, ?_⟩
    -- a key of an advisory id is none of a commit
    rcases mem_keysOf.mp keyA with ⟨id, inA, rfl⟩ | ⟨c, inA, longA, rfl⟩ <;>
      rcases mem_keysOf.mp keyB with ⟨id', inB, same⟩ | ⟨d, inB, longB, same⟩
    · exact .inl ⟨id, inA, adv_injective same ▸ inB⟩
    · exact absurd same.symm adv_ne_sha
    · exact absurd same adv_ne_sha
    · exact .inr ⟨c, inA, d, inB, longA, longB, (sha_injective same).symm⟩
  · rintro ⟨someX, someY, a, memberA, b, memberB, nameA, nameB, ⟨id, inA, inB⟩ | shared⟩
    · refine ⟨"adv:" ++ id, mem_marks.mpr ⟨someX, a, memberA, nameA, mem_keysOf.mpr (.inl ?_)⟩,
        mem_marks.mpr ⟨someY, b, memberB, nameB, mem_keysOf.mpr (.inl ?_)⟩⟩
      · exact ⟨id, inA, rfl⟩
      · exact ⟨id, inB, rfl⟩
    · obtain ⟨c, inA, d, inB, longA, longB, same⟩ := shared
      refine ⟨"sha:" ++ lower c, mem_marks.mpr ⟨someX, a, memberA, nameA, mem_keysOf.mpr (.inr ?_)⟩,
        mem_marks.mpr ⟨someY, b, memberB, nameB, mem_keysOf.mpr (.inr ?_)⟩⟩
      · exact ⟨c, inA, longA, rfl⟩
      · exact ⟨d, inB, longB, by rw [same]⟩

private theorem joined_eq (additions : List Addition) :
    (EqvGen.setoid fun x y => ∃ a ∈ additions, aliased lower aliases a x y)
        ⊔ sharing (marksOf lower additions)
      = Joined lower aliases additions := by
  rw [sharing, ← Setoid.gi.gc.l_sup, Joined]
  congr
  funext x y
  apply propext
  constructor
  · rintro (⟨a, member, some_, named, to_⟩ | shared)
    · exact ⟨some_, .inr ⟨⟨a, member, named⟩, to_⟩⟩
    · obtain ⟨someX, someY, shared⟩ := shares_iff.mp shared
      exact ⟨someX, .inl ⟨someY, shared⟩⟩
  · rintro ⟨some_, ⟨someY, shared⟩ | ⟨⟨a, member, named⟩, to_⟩⟩
    · exact .inr (shares_iff.mpr ⟨some_, someY, shared⟩)
    · exact .inl ⟨a, member, some_, named, to_⟩

def regrouped (lower : String → String) (n : Naming String) (label : Label) : Label :=
  let group := n.rep (nameOf lower label.repo)
  { label with group := if group = "" then label.group else group }

theorem empty_le (s : String) : "" ≤ s := by
  apply not_lt.mp
  intro less
  simpa using String.lt_iff_toList_lt.mp less

theorem group_eq (lower : String → String) {n : Naming String}
    (r : Represents g.parent n) (repo : String) :
    ∃ after, g.group lower repo = some (after, n.rep (nameOf lower repo)) ∧
      Represents after.parent n := by
  rw [Groups.group, nameOf]
  by_cases none_ : repo = ""
  · refine ⟨g, ?_, r⟩
    rw [if_pos none_, if_pos none_, le_antisymm (n.rep_le "") (empty_le _)]
    rfl
  · obtain ⟨parent, found, sound, -⟩ := find_spec r (repoName lower repo)
    simp only [if_neg none_, found, bind_eq_bind, bind_some]
    exact ⟨_, rfl, sound⟩

theorem regroup_eq {n : Naming String} : ∀ (labels : List Label) {g : Groups},
    Represents g.parent n → regroup lower g labels = some (labels.map (regrouped lower n))
  | [], _, _ => rfl
  | label :: rest, g, r => by
    obtain ⟨next, found, sound⟩ := group_eq lower r label.repo
    simp only [regroup, found, bind_eq_bind, bind_some, regroup_eq rest sound]
    rfl

section Run
variable (lower : String → String) (advisory : String → List String)
  (aliases : List (String × String)) (assumedBenign : Bool) (sources : List Source)

def additionsOf : List Addition :=
  (readings lower advisory assumedBenign sources).flatMap (·.additions)

def labelsOf : List Label := (readings lower advisory assumedBenign sources).flatMap (·.labels)

theorem run_eq : ∃ n : Naming String,
    n.classes = Joined lower aliases (additionsOf lower advisory assumedBenign sources) ∧
    run lower advisory aliases assumedBenign sources
      = some ((labelsOf lower advisory assumedBenign sources).map (regrouped lower n)) := by
  obtain ⟨groups, n, added, held⟩ := adds_hold lower aliases
    (additionsOf lower advisory assumedBenign sources) [] rfl holding_start
  refine ⟨n, ?_, ?_⟩
  · rw [held.classes, List.nil_append, joined_eq]
  · rw [run, ← additionsOf, added]
    exact regroup_eq _ held.represents

end Run

private theorem connected_of_joined {additions : List Addition} {x y : String}
    (joined : Joined lower aliases additions x y) :
    Connected lower aliases additions x y := by
  refine Setoid.eqvGen_mono ?_ joined
  rintro u v ⟨-, ⟨-, shared⟩ | ⟨-, to_⟩⟩
  · exact .inl shared
  · exact .inr to_

section Exact
variable {additions : List Addition} {n : Naming String} {labels : List Label}
  (classes : n.classes = Joined lower aliases additions)
include classes

theorem rep_eq_iff {x y : String} : n.rep x = n.rep y ↔ Joined lower aliases additions x y := by
  rw [← classes]
  exact Iff.rfl

theorem named_iff {label : Label} :
    Named lower aliases additions label ↔ n.rep (nameOf lower label.repo) ≠ "" := by
  have empty : n.rep "" = "" := le_antisymm (n.rep_le "") (empty_le _)
  rw [Named, ← rep_eq_iff classes, empty]

theorem isLeast_iff {x y : String} :
    IsLeast {z | Joined lower aliases additions x z} y ↔ n.rep x = y := by
  have least := n.isLeast_rep x
  rw [classes] at least
  exact ⟨fun other => least.unique other, fun is => is ▸ least⟩

theorem exactGroups_iff :
    ExactGroups lower aliases additions (labels.map (regrouped lower n)) ↔
      Told lower aliases additions labels := by
  have connected := @connected_of_joined lower aliases additions
  -- a label without a name of its own is in the class of the empty name
  have unnamed : ∀ {a : Label}, ¬ Named lower aliases additions a →
      n.rep (nameOf lower a.repo) = "" := by
    intro a nameless
    rwa [named_iff classes, not_not] at nameless
  simp only [ExactGroups, List.forall_mem_map]
  constructor
  · -- the labels are taken two by two: both named, neither, or one of them
    intro exact_
    refine ⟨?_, ?_, ?_⟩
    · intro a memberA b memberB namedA namedB linked
      have same := (exact_ a memberA b memberB).mpr linked
      rw [named_iff classes] at namedA namedB
      simp only [regrouped, if_neg namedA, if_neg namedB] at same
      exact (rep_eq_iff classes).mp same
    · intro a memberA b memberB namelessA namelessB
      have same := (exact_ a memberA b memberB).mpr (connected ((rep_eq_iff classes).mp
        ((unnamed namelessA).trans (unnamed namelessB).symm)))
      simpa only [regrouped, if_pos (unnamed namelessA), if_pos (unnamed namelessB)] using same
    · intro a memberA b memberB namedA namelessB
      have both := exact_ a memberA b memberB
      rw [named_iff classes] at namedA
      simp only [regrouped, if_neg namedA, if_pos (unnamed namelessB)] at both
      rw [isLeast_iff classes]
      exact both.symm
  · intro told a memberA b memberB
    by_cases namedA : Named lower aliases additions a <;>
      by_cases namedB : Named lower aliases additions b
    · have repA := (named_iff classes).mp namedA
      have repB := (named_iff classes).mp namedB
      simp only [regrouped, if_neg repA, if_neg repB, rep_eq_iff classes]
      exact ⟨connected, told.joined a memberA b memberB namedA namedB⟩
    · have repA := (named_iff classes).mp namedA
      simp only [regrouped, if_neg repA, if_pos (unnamed namedB)]
      rw [told.mixed a memberA b memberB namedA namedB, isLeast_iff classes]
    · have repB := (named_iff classes).mp namedB
      have mixed := told.mixed b memberB a memberA namedB namedA
      rw [isLeast_iff classes] at mixed
      simp only [regrouped, if_pos (unnamed namedA), if_neg repB]
      rw [Setoid.comm', mixed]
      exact eq_comm
    · have same := told.unnamed a memberA b memberB namedA namedB
      simp only [regrouped, if_pos (unnamed namedA), if_pos (unnamed namedB), same, true_iff]
      exact connected ((rep_eq_iff classes).mp ((unnamed namedA).trans (unnamed namedB).symm))

end Exact

theorem neverStraddles_of_exact {F : Type} [Fraction F] {sha256 : String → String}
    {keyText : String × List Int → String} {additions : List Addition} {labels : List Label}
    (exact_ : ExactGroups lower aliases additions labels) :
    NeverStraddles lower aliases F sha256 keyText additions labels := by
  intro a memberA b memberB connected examples fraction boot seed k
  have same : a.group = b.group := (exact_ a memberA b memberB).mpr connected
  refine ⟨?_, ?_⟩
  · intro inside fold member evaluated
    have outside := (mem_outerFolds.mp ⟨fold, member, evaluated⟩).2.2
    exact outside (same ▸ inside)
  · rintro i j apart ⟨first, foldI, inI⟩ second foldJ inJ
    exact apart (outerFolds_disjoint foldI foldJ inI (same ▸ inJ))

end Lower

/-- For any sources the labels have the same group exactly when their repositories are connected,
and no two connected ones are placed apart, if and only if no label's group is missed. -/
theorem groups_exact_iff (lower : String → String) (advisory : String → List String)
    (aliases : List (String × String)) (assumedBenign : Bool) (sources : List Source) (F : Type)
    [Fraction F] (sha256 : String → String) (keyText : String × List Int → String) :
    let additions := additionsOf lower advisory assumedBenign sources
    ∃ labels, run lower advisory aliases assumedBenign sources = some labels ∧
      (ExactGroups lower aliases additions labels ∧
          NeverStraddles lower aliases F sha256 keyText additions labels ↔
        Told lower aliases additions (labelsOf lower advisory assumedBenign sources)) := by
  intro additions
  obtain ⟨n, classes, ran⟩ := run_eq lower advisory aliases assumedBenign sources
  refine ⟨_, ran, ?_⟩
  rw [← exactGroups_iff classes]
  exact ⟨And.left, fun exact_ => ⟨exact_, neverStraddles_of_exact exact_⟩⟩

def asciiLower (text : String) : String := String.ofList (text.toList.map Char.toLower)

def siteLabel : Label where
  candidate := "app.py::run"
  family := "sqli"
  label := 1
  source := "v2"
  sourceRef := "case"
  unit := "pin"
  weight := 1
  split := "v2"
  group := ""
  repo := ""
  language := "python"

def renamed : List (String × String) := [("old/shop", "mid/shop"), ("mid/shop", "new/shop")]

def renamedCases : List Source :=
  [.population "v2" [⟨"a", "https://github.com/Old/Shop", [], "aaaaaaaaaaaa", [siteLabel]⟩,
    ⟨"b", "https://github.com/new/shop.git", [], "bbbbbbbbbbbb", [siteLabel]⟩]]

/-- The second alias is never read, so the two labels are in two groups. -/
theorem groups_not_exact :
    ∃ labels, run asciiLower (fun _ => []) renamed true renamedCases = some labels ∧
      ¬ ExactGroups asciiLower renamed (additionsOf asciiLower (fun _ => []) true renamedCases)
        labels := by
  have ran : (run asciiLower (fun _ => []) renamed true renamedCases).map
      (·.map fun label => (label.repo, label.group))
      = some [("https://github.com/Old/Shop", "mid/shop"),
        ("https://github.com/new/shop.git", "new/shop")] := by decide +kernel
  obtain ⟨labels, found, texts⟩ := map_eq_some_iff.mp ran
  obtain ⟨a, rest, rfl, textA, texts⟩ := List.map_eq_cons_iff.mp texts
  obtain ⟨b, rest, rfl, textB, -⟩ := List.map_eq_cons_iff.mp texts
  rw [Prod.mk.injEq] at textA textB
  refine ⟨_, found, fun exact_ => ?_⟩
  have old : nameOf asciiLower a.repo = "old/shop" := by rw [textA.1]; decide +kernel
  have new : nameOf asciiLower b.repo = "new/shop" := by rw [textB.1]; decide +kernel
  have linked : Connected asciiLower renamed (additionsOf asciiLower (fun _ => []) true renamedCases)
      "old/shop" "new/shop" :=
    .trans _ "mid/shop" _ (.rel _ _ (.inr rfl)) (.rel _ _ (.inr rfl))
  have same := (exact_ a List.mem_cons_self b (List.mem_cons_of_mem _ List.mem_cons_self)).mpr
    (by rw [old, new]; exact linked)
  rw [textA.2, textB.2] at same
  exact absurd same (by decide)

end OpenUltraSast.Learn.Labels
