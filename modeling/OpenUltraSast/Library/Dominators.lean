import Mathlib.Data.List.Basic
import Mathlib.Logic.Relation

/-!
# Dominators

Which vertices every path from a root to a vertex passes through, as the greatest solution of the
equations of the data flow, and as a tree.
-/

namespace Dominators

open Relation List

variable {V : Type*} (edge : V → V → Prop) (root : V)

inductive Path : List V → V → Prop
  | root : Path [root] root
  | step {passed : List V} {v w : V} (path : Path passed v) (onward : edge v w) :
      Path (w :: passed) w

def Reached (v : V) : Prop := ∃ passed, Path edge root passed v

/-- Every path from the root to `w` passes through `v`. -/
def Dominates (v w : V) : Prop := ∀ passed, Path edge root passed w → v ∈ passed

variable {edge root} {v w u : V}

theorem reached_root : Reached edge root root := ⟨_, .root⟩

theorem Reached.step (reached : Reached edge root v) (onward : edge v w) : Reached edge root w := by
  obtain ⟨passed, path⟩ := reached
  exact ⟨_, path.step onward⟩

theorem Path.reached {passed : List V} (path : Path edge root passed w) (member : v ∈ passed) :
    Reached edge root v := by
  induction path with
  | root => exact mem_singleton.mp member ▸ reached_root
  | @step passed u w path onward ih =>
    rcases mem_cons.mp member with rfl | earlier
    · exact ⟨_, path.step onward⟩
    · exact ih earlier

theorem Dominates.reached (dominates : Dominates edge root v w) (reached : Reached edge root w) :
    Reached edge root v := by
  obtain ⟨passed, path⟩ := reached
  exact path.reached (dominates passed path)

theorem Dominates.eq_root (dominates : Dominates edge root v root) : v = root :=
  mem_singleton.mp (dominates _ .root)

theorem Dominates.before (dominates : Dominates edge root v w) (onward : edge u w) :
    v = w ∨ Dominates edge root v u := by
  by_cases same : v = w
  · exact .inl same
  · exact .inr fun passed path =>
      (mem_cons.mp (dominates _ (path.step onward))).resolve_left same

/-- Any solution of the equations holds dominators only. -/
theorem dominates_of_solution {holds : V → V → Prop} (first : ∀ v, holds root v → v = root)
    (later : ∀ u w, Reached edge root u → edge u w → w ≠ root → ∀ v, holds w v → v = w ∨ holds u v)
    (held : holds w v) : Dominates edge root v w := by
  intro passed path
  induction path generalizing v with
  | root => exact mem_singleton.mpr (first v held)
  | @step passed u w path onward ih =>
    -- a path may come back to the root, which has an equation of its own
    by_cases back : w = root
    · exact first v (back ▸ held) ▸ back ▸ mem_cons_self
    · rcases later u w ⟨passed, path⟩ onward back v held with same | earlier
      · exact same ▸ mem_cons_self
      · exact mem_cons_of_mem _ (ih earlier)

/-! ### Parts of paths -/

variable {passed : List V}

section
variable (path : Path edge root passed w)
include path

theorem Path.mem : w ∈ passed := by
  cases path <;> exact mem_cons_self

theorem Path.root_mem : root ∈ passed := by
  induction path with
  | root => exact mem_cons_self
  | step _ _ ih => exact mem_cons_of_mem _ ih

/-- A path to what another one passed, up to where it came there first. -/
theorem Path.first (member : v ∈ passed) :
    ∃ back, Path edge root (v :: back) v ∧ v ∉ back ∧ v :: back <:+ passed := by
  induction path with
  | root =>
    obtain rfl := mem_singleton.mp member
    exact ⟨[], .root, not_mem_nil, suffix_rfl⟩
  | @step passed _ w path onward ih =>
    by_cases before : v ∈ passed
    · obtain ⟨back, short, new, suffix⟩ := ih before
      exact ⟨back, short, new, suffix.trans (suffix_cons w passed)⟩
    · obtain rfl := (mem_cons.mp member).resolve_right before
      exact ⟨passed, path.step onward, before, suffix_rfl⟩

/-- The end of a path, behind another path to where it begins. -/
theorem Path.graft {front back other : List V}
    (split : passed = front ++ v :: back) (start : Path edge root other v) :
    Path edge root (front ++ other) w := by
  induction path generalizing front with
  | root =>
    cases front with
    | nil => exact (List.cons.inj split).1 ▸ start
    | cons => simp at split
  | step path onward ih =>
    cases front with
    | nil => exact (List.cons.inj split).1 ▸ start
    | cons _ front =>
      obtain ⟨rfl, tail⟩ := List.cons.inj split
      exact (ih tail).step onward

end

theorem through_iff : (∃ passed, Path edge root passed w ∧ v ∈ passed) ↔
    Reached edge root v ∧ ReflTransGen edge v w := by
  constructor
  · rintro ⟨passed, path, member⟩
    refine ⟨path.reached member, ?_⟩
    induction path with
    | root => exact mem_singleton.mp member ▸ .refl
    | step _ onward ih =>
      rcases mem_cons.mp member with rfl | before
      · exact .refl
      · exact (ih before).tail onward
  · rintro ⟨⟨passed, path⟩, onward⟩
    induction onward with
    | refl => exact ⟨passed, path, path.mem⟩
    | tail _ edge ih =>
      obtain ⟨passed, path, member⟩ := ih
      exact ⟨_, path.step edge, mem_cons_of_mem _ member⟩

/-! ### The dominator tree -/

theorem Dominates.trans (first : Dominates edge root u v) (second : Dominates edge root v w) :
    Dominates edge root u w := by
  intro passed path
  obtain ⟨back, short, -, suffix⟩ := path.first (second passed path)
  exact suffix.subset (first _ short)

theorem Dominates.antisymm (one : Dominates edge root v w) (other : Dominates edge root w v)
    (reached : Reached edge root w) : v = w := by
  obtain ⟨passed, path⟩ := other.reached (one.reached reached)
  obtain ⟨back, short, new, -⟩ := path.first path.mem
  by_contra apart
  -- the path that first comes to `w` passed `v`, and came to `w` before that
  obtain ⟨before, shorter, -, suffix⟩ := short.first (one _ short)
  rcases suffix_cons_iff.mp suffix with same | inside
  · exact apart (List.cons.inj same).1
  · exact new (inside.subset (other _ shorter))

/-- The last of the strict dominators on a path is below all others. -/
theorem exists_immediate (reached : Reached edge root w) (apart : w ≠ root) :
    ∃ d, d ≠ w ∧ Dominates edge root d w ∧
      ∀ a, Dominates edge root a w → a = w ∨ Dominates edge root a d := by
  classical
  obtain ⟨passed, path⟩ := reached
  have found : (passed.find? fun a => a ≠ w ∧ Dominates edge root a w).isSome := by
    rw [List.find?_isSome]
    exact ⟨root, path.root_mem, decide_eq_true ⟨apart.symm, fun _ path => path.root_mem⟩⟩
  obtain ⟨d, found⟩ := Option.isSome_iff_exists.mp found
  obtain ⟨strict, front, back, split, none_⟩ := List.find?_eq_some_iff_append.mp found
  obtain ⟨proper, dominates⟩ := of_decide_eq_true strict
  refine ⟨d, proper, dominates, fun a above => or_iff_not_imp_left.mpr fun other => ?_⟩
  intro way start
  -- a way to `d` without `a` would go on to `w` without `a`
  rcases mem_append.mp (above _ (path.graft split start)) with later | member
  · have no := none_ a later
    rw [Bool.not_eq_true', decide_eq_false_iff_not] at no
    exact absurd ⟨other, above⟩ no
  · exact member

/-! ### Searches with a stack -/

variable {goal : V → Prop} {seen waiting next : List V}

/-- Whether a goal can be reached from what waits. -/
def Finds (edge : V → V → Prop) (goal : V → Prop) (waiting : List V) : Prop :=
  ∃ n ∈ waiting, ∃ m, goal m ∧ ReflTransGen edge n m

/-- What was seen is no goal, and leads on to what was seen or waits. -/
def Searched (edge : V → V → Prop) (goal : V → Prop) (seen waiting : List V) : Prop :=
  ∀ n ∈ seen, ¬ goal n ∧ ∀ m, edge n m → m ∈ seen ∨ m ∈ waiting

/-- What was seen leads to a goal only by way of what waits. -/
theorem Searched.finds (searched : Searched edge goal seen waiting) (start : v ∈ seen ∨ v ∈ waiting)
    (path : ReflTransGen edge v w) (hit : goal w) : Finds edge goal waiting := by
  induction path using ReflTransGen.head_induction_on with
  | refl => exact ⟨w, start.resolve_left fun seen => (searched w seen).1 hit, w, hit, .refl⟩
  | @head v m onward path ih =>
    rcases start with seen | waits
    · exact ih ((searched v seen).2 m onward)
    · exact ⟨v, waits, w, hit, path.head onward⟩

theorem Searched.skip (searched : Searched edge goal seen (v :: waiting)) (before : v ∈ seen) :
    Searched edge goal seen waiting ∧
      (Finds edge goal (v :: waiting) ↔ Finds edge goal waiting) := by
  have known {m : V} (waits : m ∈ v :: waiting) : m ∈ seen ∨ m ∈ waiting :=
    (mem_cons.mp waits).imp_left fun (same : m = v) => same ▸ before
  have still : Searched edge goal seen waiting := fun n old =>
    ⟨(searched n old).1, fun m onward => ((searched n old).2 m onward).elim .inl known⟩
  refine ⟨still, fun ⟨n, waits, m, hit, path⟩ => still.finds (known waits) path hit, ?_⟩
  exact fun ⟨n, waits, found⟩ => ⟨n, mem_cons_of_mem _ waits, found⟩

/-- A vertex that is no goal is replaced by those that it leads to. -/
theorem Searched.expand (searched : Searched edge goal seen (v :: waiting)) (none_ : ¬ goal v)
    (sound : ∀ m ∈ next, edge v m) (all : ∀ m, edge v m → m ∈ v :: seen ∨ m ∈ next) :
    Searched edge goal (v :: seen) (next ++ waiting) ∧
      (Finds edge goal (v :: waiting) ↔ Finds edge goal (next ++ waiting)) := by
  have known {m : V} (waits : m ∈ v :: waiting) : m ∈ v :: seen ∨ m ∈ next ++ waiting :=
    (mem_cons.mp waits).imp (fun (same : m = v) => same ▸ mem_cons_self)
      (mem_append_right _)
  have still : Searched edge goal (v :: seen) (next ++ waiting) := by
    intro n old
    rcases mem_cons.mp old with rfl | old
    · exact ⟨none_, fun m onward => (all m onward).imp_right (mem_append_left _)⟩
    · exact ⟨(searched n old).1, fun m onward =>
        ((searched n old).2 m onward).elim (.inl ∘ mem_cons_of_mem _) known⟩
  refine ⟨still, fun ⟨n, waits, m, hit, path⟩ => still.finds (known waits) path hit, ?_⟩
  rintro ⟨n, waits, m, hit, path⟩
  rcases mem_append.mp waits with pushed | below
  · exact ⟨v, mem_cons_self, m, hit, path.head (sound n pushed)⟩
  · exact ⟨n, mem_cons_of_mem _ below, m, hit, path⟩

end Dominators
