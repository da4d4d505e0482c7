import Mathlib.Algebra.Order.Ring.Rat
import Mathlib.Data.String.Basic
import OpenUltraSast.Library.Dicts
import OpenUltraSast.Library.Runs

/-!
# Decisions about annotations

An annotation is kept when its removal shows benefit, and a neutral one when a kept annotation needs
it.
-/

namespace OpenUltraSast.Hunt.Ablation

open Collections Dicts Saturation List

structure Row where
  annotation : String
  removeRecallCi : List (Option ℚ)
  removeSuspicionsPerPushCi : List (Option ℚ)

structure Table where
  scope : String
  rows : List Row

/-- A pair of finite numbers; every other value is no interval. -/
def interval : List (Option ℚ) → Option (ℚ × ℚ)
  | [some low, some high] => some (low, high)
  | _ => none

def Row.recall_ (row : Row) : Option (ℚ × ℚ) := interval row.removeRecallCi

def Row.suspicions (row : Row) : Option (ℚ × ℚ) := interval row.removeSuspicionsPerPushCi

inductive Verdict where
  | keep
  | drop
deriving DecidableEq

structure Decision where
  decision : Verdict
  reason : String
deriving DecidableEq

abbrev Decisions := List (String × Decision)

def zeroWithin (ci : ℚ × ℚ) : Bool := ci.1 ≤ 0 && 0 ≤ ci.2

def judge (row : Row) : Decision × Bool :=
  if row.recall_.any (·.2 < 0) then (⟨.keep, "removal lowers recall"⟩, false)
  else if row.suspicions.any (0 < ·.1) then (⟨.keep, "removal raises suspicions"⟩, false)
  else if row.suspicions.any (·.2 < 0) && row.recall_.any zeroWithin then
    (⟨.drop, "raises suspicions without recall"⟩, false)
  else
    (⟨.drop, if row.recall_.isSome && row.suspicions.isSome then "no measurable effect"
        else "missing held-out effects"⟩,
      row.recall_.any zeroWithin && row.suspicions.any zeroWithin)

def initial (rows : List Row) : Decisions :=
  ofEntries (rows.map fun row => ( row.annotation, (judge row).1))

def neutral (rows : List Row) : List String :=
  (rows.filter fun row => (judge row).2).map (fun row => row.annotation)

def verdict (decisions : Decisions) (name : String) : Option Verdict :=
  (decisions.lookup name).map (·.decision)

section Rounds
variable (needs : List (String × List String)) (neutral : List String)

/-- `sorted(needs.get(name, set()) & neutral)`. -/
def needed (name : String) : List String :=
  sortedSet (((needs.lookup name).getD []).filter (· ∈ neutral))

def keepDependency (name dependency : String) (decisions : Decisions) : Decisions × Bool :=
  if verdict decisions dependency ≠ some .keep then
    (set decisions dependency ⟨.keep, "needed by " ++ name⟩, true)
  else (decisions, false)

def visit (name : String) (decisions : Decisions) : Decisions × Bool :=
  if verdict decisions name ≠ some .keep then (decisions, false)
  else visits (keepDependency name) (needed needs neutral name) decisions

/-- One pass over the decisions. A dictionary keeps its order when a value is replaced. -/
def round (decisions : Decisions) : Decisions × Bool :=
  visits (visit needs neutral) (keys decisions) decisions

end Rounds

/-- `decide(importance_table, needs=...)`, within some number of passes. -/
def decide (table : Table) (needs : List (String × List String)) (fuel : Nat) :
    Except String (Option Decisions) :=
  if table.scope ≠ "heldout" then .error "decisions require held-out importance effects"
  else .ok (untilFixed (round needs (neutral table.rows)) fuel (initial table.rows))

def Row.Beneficial (row : Row) : Prop :=
  (∃ ci, row.recall_ = some ci ∧ ci.2 < 0) ∨ ∃ ci, row.suspicions = some ci ∧ 0 < ci.1

def Row.Neutral (row : Row) : Prop :=
  (∃ ci, row.recall_ = some ci ∧ ci.1 ≤ 0 ∧ 0 ≤ ci.2) ∧
    ∃ ci, row.suspicions = some ci ∧ ci.1 ≤ 0 ∧ 0 ≤ ci.2

def Beneficial (rows : List Row) (name : String) : Prop :=
  ∃ row ∈ rows, row.annotation = name ∧ row.Beneficial

def Neutral (rows : List Row) (name : String) : Prop :=
  ∃ row ∈ rows, row.annotation = name ∧ row.Neutral

def Needs (needs : List (String × List String)) (name dependency : String) : Prop :=
  ∃ dependencies, needs.lookup name = some dependencies ∧ dependency ∈ dependencies

inductive Kept (rows : List Row) (needs : List (String × List String)) : String → Prop where
  | beneficial {name : String} (shown : Beneficial rows name) : Kept rows needs name
  | needed {name dependency : String} (kept : Kept rows needs name)
      (need : Needs needs name dependency) (neutral : Neutral rows dependency) :
      Kept rows needs dependency

section Judge
variable {row : Row}

theorem any_zeroWithin {ci : Option (ℚ × ℚ)} :
    ci.any zeroWithin = true ↔ ∃ own, ci = some own ∧ own.1 ≤ 0 ∧ 0 ≤ own.2 := by
  cases ci <;> simp [zeroWithin]

theorem judge_keep_iff : (judge row).1.decision = .keep ↔ row.Beneficial := by
  have lower : row.recall_.any (·.2 < 0) = true ↔ ∃ ci, row.recall_ = some ci ∧ ci.2 < 0 := by
    cases row.recall_ <;> simp
  have raise : row.suspicions.any (0 < ·.1) = true ↔ ∃ ci, row.suspicions = some ci ∧ 0 < ci.1 := by
    cases row.suspicions <;> simp
  rw [Row.Beneficial, ← lower, ← raise, judge]
  split
  next first => simp [first]
  next first =>
    split
    next second => simp [second]
    next second =>
      have drops : ¬ (row.recall_.any (·.2 < 0) = true ∨ row.suspicions.any (0 < ·.1) = true) :=
        fun either => either.elim first second
      split <;> simp [drops]

theorem judge_neutral_iff : (judge row).2 = true ↔ row.Neutral := by
  rw [judge]
  split
  next first =>
    obtain ⟨ci, held, below⟩ := (Option.any_eq_true _ _).mp first
    have apart : ¬ row.Neutral := by
      rintro ⟨⟨own, same, -, above⟩, -⟩
      cases held.symm.trans same
      exact absurd above (by simpa using below)
    simp [apart]
  next =>
    split
    next second =>
      obtain ⟨ci, held, above⟩ := (Option.any_eq_true _ _).mp second
      have apart : ¬ row.Neutral := by
        rintro ⟨-, own, same, below, -⟩
        cases held.symm.trans same
        exact absurd below (by simpa using above)
      simp [apart]
    next =>
      split
      next third =>
        obtain ⟨ci, held, below⟩ := (Option.any_eq_true _ _).mp (Bool.and_eq_true_iff.mp third).1
        have apart : ¬ row.Neutral := by
          rintro ⟨-, own, same, -, above⟩
          cases held.symm.trans same
          exact absurd above (by simpa using below)
        simp [apart]
      next => rw [Bool.and_eq_true_iff, any_zeroWithin, any_zeroWithin, Row.Neutral]

end Judge

variable {name : String}

section Passes
variable {rows : List Row} {needs : List (String × List String)}

theorem mem_neutral : name ∈ neutral rows ↔ Neutral rows name := by
  rw [neutral, mem_map]
  constructor
  · rintro ⟨row, member, named⟩
    obtain ⟨inside, own⟩ := mem_filter.mp member
    exact ⟨row, inside, named, judge_neutral_iff.mp own⟩
  · rintro ⟨row, inside, named, own⟩
    exact ⟨row, mem_filter.mpr ⟨inside, judge_neutral_iff.mpr own⟩, named⟩

theorem mem_needed {name dependency : String} :
    dependency ∈ needed needs (neutral rows) name ↔
      Needs needs name dependency ∧ Neutral rows dependency := by
  rw [needed, mem_sortedSet, mem_filter, decide_eq_true_eq, mem_neutral, Needs]
  cases needs.lookup name <;> simp

@[simp] theorem verdict_set (decisions : Decisions) (name other : String) (decision : Decision) :
    verdict (set decisions name decision) other =
      if other = name then some decision.decision else verdict decisions other := by
  rw [verdict, lookup_set, verdict]
  split <;> rfl

/-- The neutral annotations that are not kept yet; every change makes them fewer. -/
def waiting (names : List String) (decisions : Decisions) : Nat :=
  names.countP fun name => verdict decisions name ≠ some .keep

theorem keepDependency_shrinks {names : List String} {dependency : String}
    (member : dependency ∈ names) (name : String) :
    Shrinks (waiting names) (keepDependency name dependency) := by
  constructor
  · intro decisions still
    rw [keepDependency] at still ⊢
    split at still
    next => cases still
    next kept => rw [if_neg kept]
  · intro decisions changed
    rw [keepDependency] at changed ⊢
    split at changed
    next open_ =>
      rw [if_pos open_]
      apply countP_lt_of_flip _ member
      · simpa using open_
      · simp
      · intro other held
        by_cases same : other = dependency
        · simp [same] at held
        · simpa [same] using held
    next => cases changed

theorem visit_shrinks (name : String) :
    Shrinks (waiting (neutral rows)) (visit needs (neutral rows) name) := by
  have inner : Shrinks (waiting (neutral rows))
      (visits (keepDependency name) (needed needs (neutral rows) name)) := by
    apply visits_shrinks
    intro dependency member
    exact keepDependency_shrinks (mem_neutral.mpr (mem_needed.mp member).2) name
  constructor
  · intro decisions still
    rw [visit] at still ⊢
    split at still
    next dropped => rw [if_pos dropped]
    next kept =>
      rw [if_neg kept]
      exact inner.same decisions still
  · intro decisions changed
    rw [visit] at changed ⊢
    split at changed
    next => cases changed
    next kept =>
      rw [if_neg kept]
      exact inner.less decisions changed

theorem round_shrinks : Shrinks (waiting (neutral rows)) (round needs (neutral rows)) where
  same decisions := (visits_shrinks fun name _ => visit_shrinks name).same decisions
  less decisions := (visits_shrinks fun name _ => visit_shrinks name).less decisions

structure Sound (rows : List Row) (needs : List (String × List String)) (decisions : Decisions) :
    Prop where
  names : ∀ name, name ∈ keys decisions ↔ ∃ row ∈ rows, row.annotation = name
  beneficial : ∀ name, Beneficial rows name → verdict decisions name = some .keep
  kept : ∀ name, verdict decisions name = some .keep → Kept rows needs name

theorem initial_sound (distinct : (rows.map (fun row => row.annotation)).Nodup) :
    Sound rows needs (initial rows) := by
  have own {row : Row} (member : row ∈ rows) :
      verdict (initial rows) row.annotation = some (judge row).1.decision := by
    have listed : ( row.annotation, (judge row).1) ∈ rows.map fun row =>
        ( row.annotation, (judge row).1) := mem_map_of_mem member
    have unique : (keys (rows.map fun row => ( row.annotation, (judge row).1))).Nodup := by
      rw [Dicts.keys, map_map]
      exact distinct
    obtain ⟨decision, found⟩ := mem_keys_iff.mp
      ((mem_keys_ofEntries _ row.annotation).mpr (mem_map_of_mem listed))
    have entry := mem_of_mem_ofEntries (mem_of_lookup found)
    have first := lookup_of_nodup unique entry
    have second := lookup_of_nodup unique listed
    have same : decision = (judge row).1 := Option.some.inj (first.symm.trans second)
    rw [verdict, initial, found, same]
    rfl
  have named (name : String) :
      name ∈ keys (initial rows) ↔ ∃ row ∈ rows, row.annotation = name := by
    rw [initial, mem_keys_ofEntries, Dicts.keys, map_map, mem_map]
    rfl
  refine ⟨named, ?_, ?_⟩
  · rintro name ⟨row, member, rfl, shown⟩
    rw [own member, judge_keep_iff.mpr shown]
  · intro name keeps
    have present : name ∈ keys (initial rows) := by
      obtain ⟨decision, found, -⟩ := Option.map_eq_some_iff.mp keeps
      exact mem_keys_iff.mpr ⟨decision, found⟩
    obtain ⟨row, member, rfl⟩ := (named name).mp present
    rw [own member, Option.some.injEq] at keeps
    exact .beneficial ⟨row, member, rfl, judge_keep_iff.mp keeps⟩

variable {decisions : Decisions}

section
variable (sound : Sound rows needs decisions)
include sound

theorem Sound.keepDependency {name dependency : String} (kept : Kept rows needs name)
    (member : dependency ∈ needed needs (neutral rows) name) :
    Sound rows needs (keepDependency name dependency decisions).1 := by
  obtain ⟨need, own⟩ := mem_needed.mp member
  rw [Ablation.keepDependency]
  split
  next =>
    refine ⟨fun other => ?_, fun other shown => ?_, fun other keeps => ?_⟩
    · rw [mem_keys_set, ← sound.names other]
      constructor
      · rintro (rfl | held)
        · obtain ⟨row, inside, named, -⟩ := own
          exact (sound.names other).mpr ⟨row, inside, named⟩
        · exact held
      · exact .inr
    · rw [verdict_set, sound.beneficial other shown, ite_self]
    · rw [verdict_set] at keeps
      split at keeps
      next same =>
        rw [same]
        exact .needed kept need own
      next => exact sound.kept other keeps
  next => exact sound

/-- A round keeps the decisions sound. -/
theorem Sound.round :
    Sound rows needs (round needs (neutral rows) decisions).1 := by
  apply visits_keeps _ sound
  intro name _ state held
  rw [visit]
  split
  next => exact held
  next keeps =>
    -- the name is kept, so whatever it needs may be
    have kept := held.kept name (not_not.mp keeps)
    apply visits_keeps _ held
    exact fun dependency member other still => still.keepDependency kept member

/-- Where a round changes nothing, all that is needed is kept. -/
theorem Sound.complete (fixed : (Ablation.round needs (neutral rows) decisions).2 = false)
    (kept : Kept rows needs name) : verdict decisions name = some .keep := by
  induction kept with
  | beneficial shown => exact sound.beneficial _ shown
  | needed _ need own ih =>
    rename_i name dependency _
    have present : name ∈ keys decisions := by
      obtain ⟨decision, found, -⟩ := Option.map_eq_some_iff.mp ih
      exact mem_keys_iff.mpr ⟨decision, found⟩
    have visited := visits_unchanged (fun other _ => visit_shrinks other) fixed present
    rw [visit, if_neg (not_not.mpr ih)] at visited
    have member : dependency ∈ needed needs (neutral rows) name := mem_needed.mpr ⟨need, own⟩
    have still := visits_unchanged
      (fun other inside => keepDependency_shrinks (mem_neutral.mpr (mem_needed.mp inside).2) name)
      visited member
    rw [Ablation.keepDependency] at still
    split at still
    next => cases still
    next keeps => exact not_not.mp keeps

end

end Passes

theorem Kept.perm {rows others : List Row} {needs : List (String × List String)}
    (perm : others.Perm rows) : Kept others needs name ↔ Kept rows needs name := by
  have step {l m : List Row} (perm : l.Perm m) (kept : Kept l needs name) : Kept m needs name := by
    induction kept with
    | beneficial shown =>
      obtain ⟨row, member, own⟩ := shown
      exact .beneficial ⟨row, perm.mem_iff.mp member, own⟩
    | needed _ need own ih =>
      obtain ⟨row, member, own⟩ := own
      exact .needed ih need ⟨row, perm.mem_iff.mp member, own⟩
  exact ⟨step perm, step perm.symm⟩

theorem Kept.not_mem {rows : List Row} {needs : List (String × List String)} {apart : Set String}
    (useless : ∀ name ∈ apart, ¬ Beneficial rows name)
    (closed : ∀ name dependency, dependency ∈ apart → Needs needs name dependency → name ∈ apart)
    (kept : Kept rows needs name) : name ∉ apart := by
  induction kept with
  | beneficial shown => exact fun member => useless _ member shown
  | needed _ need _ ih => exact fun member => ih (closed _ _ member need)

structure Closed (rows : List Row) (needs : List (String × List String)) (decisions : Decisions) :
    Prop where
  keeps : ∀ name, verdict decisions name = some .keep ↔ Kept rows needs name
  drops : ∀ name, verdict decisions name = some .drop ↔
    (∃ row ∈ rows, row.annotation = name) ∧ ¬ Kept rows needs name

theorem decide_closed {table : Table} (heldout : table.scope = "heldout")
    (distinct : (table.rows.map (fun row => row.annotation)).Nodup)
    (needs : List (String × List String)) :
    ∃ decisions, (∀ fuel, table.rows.length < fuel → decide table needs fuel = .ok (some decisions)) ∧
      Closed table.rows needs decisions := by
  obtain ⟨last, ran, fixed, keeps⟩ := untilFixed_ends
    (@round_shrinks table.rows needs) (initial table.rows)
  have sound : Sound table.rows needs last :=
    keeps (Sound table.rows needs) (fun _ held => held.round) (initial_sound distinct)
  have size : waiting (neutral table.rows) (initial table.rows) ≤ table.rows.length := by
    apply countP_le_length.trans
    rw [neutral, length_map]
    exact length_filter_le _ _
  refine ⟨last, fun fuel enough => ?_, fun name => ?_, fun name => ?_⟩
  · rw [decide, if_neg (not_not.mpr heldout), ran fuel (by omega)]
  · exact ⟨sound.kept name, sound.complete fixed⟩
  · rw [← sound.names name, ← (⟨sound.kept name, sound.complete fixed⟩ : _ ↔ Kept _ _ _)]
    constructor
    · intro dropped
      obtain ⟨decision, found, -⟩ := Option.map_eq_some_iff.mp dropped
      exact ⟨mem_keys_iff.mpr ⟨decision, found⟩, by simp [dropped]⟩
    · rintro ⟨present, other⟩
      obtain ⟨decision, found⟩ := mem_keys_iff.mp present
      have own : verdict last name = some decision.decision := by rw [verdict, found]; rfl
      cases own_ : decision.decision with
      | keep => rw [own, own_] at other; exact absurd rfl other
      | drop => rw [own, own_]

/-- The decisions are the least closure: beneficial annotations and the neutral ones they need through
neutral ones are kept, all others are dropped, neutral cycles on their own among them. The passes end,
and the order of the rows does not matter. -/
theorem decide_least {table : Table} (heldout : table.scope = "heldout")
    (distinct : (table.rows.map (fun row => row.annotation)).Nodup)
    (needs : List (String × List String)) :
    ∃ decisions, (∀ fuel, table.rows.length < fuel → decide table needs fuel = .ok (some decisions)) ∧
      Closed table.rows needs decisions ∧
      (∀ cycle : Set String, (∀ name ∈ cycle, Neutral table.rows name ∧ ¬ Beneficial table.rows name) →
        (∀ name dependency, dependency ∈ cycle → Needs needs name dependency → name ∈ cycle) →
        ∀ name ∈ cycle, verdict decisions name = some .drop) ∧
      ∀ rows, rows.Perm table.rows → ∃ others,
        (∀ fuel, rows.length < fuel →
          decide { table with rows := rows } needs fuel = .ok (some others)) ∧
        ∀ name, verdict others name = some .keep ↔ verdict decisions name = some .keep := by
  obtain ⟨decisions, ran, closed⟩ := decide_closed heldout distinct needs
  refine ⟨decisions, ran, closed, fun cycle inside above name member => ?_, fun rows perm => ?_⟩
  · obtain ⟨row, listed, named, -⟩ := (inside name member).1
    refine (closed.drops name).mpr ⟨⟨row, listed, named⟩, fun kept => ?_⟩
    exact kept.not_mem (fun other held => (inside other held).2) above member
  · obtain ⟨others, ran', closed'⟩ := @decide_closed { table with rows := rows } heldout
      ((perm.map _).nodup_iff.mpr distinct) needs
    exact ⟨others, ran', fun name => by rw [closed.keeps, closed'.keeps, Kept.perm perm]⟩

/-- A benefit keeps the neutral annotation that it needs; two that need each other are dropped. -/
def sampleTable : Table where
  scope := "heldout"
  rows :=
    [⟨"roles", [some (-1), some (-1 / 2)], [some 0, some 0]⟩,
      ⟨"uses", [some (-1), some 1], [some 0, some 0]⟩,
      ⟨"left", [some 0, some 0], [some 0, some 0]⟩, ⟨"right", [some 0, some 0], [some 0, some 0]⟩]

theorem decide_sampleTable : ∃ decisions,
    (∀ fuel, 4 < fuel → decide sampleTable
      [("roles", ["uses"]), ("left", ["right"]), ("right", ["left"])] fuel = .ok (some decisions)) ∧
    Closed sampleTable.rows [("roles", ["uses"]), ("left", ["right"]), ("right", ["left"])] decisions := by
  obtain ⟨decisions, ran, closed, -⟩ := @decide_least sampleTable rfl (by decide)
    [("roles", ["uses"]), ("left", ["right"]), ("right", ["left"])]
  exact ⟨decisions, ran, closed⟩

example : (decide sampleTable [("roles", ["uses"]), ("left", ["right"]), ("right", ["left"])] 5).map
    (·.map fun decisions => decisions.map fun entry => (entry.1, entry.2.decision)) =
      .ok (some [("roles", .keep), ("uses", .keep), ("left", .drop), ("right", .drop)]) := by
  decide +kernel

end OpenUltraSast.Hunt.Ablation
