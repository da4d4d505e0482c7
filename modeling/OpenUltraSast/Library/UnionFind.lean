import Mathlib.Data.Setoid.Basic
import Mathlib.Order.CompletePartialOrder
import Mathlib.Order.ConditionallyCompleteLattice.Basic
import Mathlib.Order.MinMax
import OpenUltraSast.Library.Dicts

/-!
# Union-find over an order

Parents never come after their children, and a union hangs the later root under the earlier one, so
every class is represented by its least element.
-/

namespace UnionFind

open Collections Dicts List Option

variable {α : Type} [LinearOrder α]

/-- The root above an element of the forest. Each element on the way is hung under the parent of its
parent. -/
def climb (parent : List (α × α)) : Nat → α → Option (List (α × α) × α)
  | 0, _ => none
  | fuel + 1, x => do
    let up ← parent.lookup x
    if up = x then some (parent, x)
    else
      let above ← parent.lookup up
      climb (set parent x above) fuel above

/-- The root above an element, which is put into the forest if it is new. -/
def find (parent : List (α × α)) (x : α) : Option (List (α × α) × α) :=
  let parent := setDefault parent x x
  climb parent (parent.length + 1) x

/-- The forest with two classes joined, and whether they were apart. -/
def union (parent : List (α × α)) (a b : α) : Option (List (α × α) × Bool) := do
  let (parent, ra) ← find parent a
  let (parent, rb) ← find parent b
  if ra = rb then some (parent, false)
  else some (set parent (max ra rb) (min ra rb), true)

/-- A choice of the least element of every class. -/
structure Naming (α : Type) [LinearOrder α] where
  rep : α → α
  rep_rep : ∀ x, rep (rep x) = rep x
  rep_le : ∀ x, rep x ≤ x

namespace Naming

def apart : Naming α := ⟨id, fun _ => rfl, fun _ => le_rfl⟩

def classes (n : Naming α) : Setoid α := Setoid.ker n.rep

def join (n : Naming α) (a b : α) : Naming α where
  rep x := if n.rep x = max (n.rep a) (n.rep b) then min (n.rep a) (n.rep b) else n.rep x
  rep_rep x := by
    rcases max_choice (n.rep a) (n.rep b) with high | high <;>
      rcases min_choice (n.rep a) (n.rep b) with low | low <;>
      simp only [high, low] <;> split <;> simp_all [n.rep_rep]
  rep_le x := by
    split
    next same => exact (min_le_max.trans same.ge).trans (n.rep_le x)
    next => exact n.rep_le x

theorem isLeast_rep (n : Naming α) (x : α) : IsLeast {y | n.classes x y} (n.rep x) := by
  constructor
  · exact (n.rep_rep x).symm
  · intro y (same : n.rep x = n.rep y)
    exact same ▸ n.rep_le y

theorem classes_apart : (apart : Naming α).classes = ⊥ := Setoid.ext fun _ _ => Iff.rfl

theorem classes_join (n : Naming α) (a b : α) :
    (n.join a b).classes = n.classes ⊔ Relation.EqvGen.setoid fun x y => x = a ∧ y = b := by
  have joined : (n.join a b).rep a = (n.join a b).rep b := by
    simp only [join]
    rcases le_total (n.rep a) (n.rep b) with le | le <;> simp [le]
  apply le_antisymm
  · -- An element is in the old class of its old representative, which is a's or b's if it moved.
    have step : ∀ x, (n.classes ⊔ Relation.EqvGen.setoid fun x y => x = a ∧ y = b) x
        ((n.join a b).rep x) := by
      have old : ∀ {u v}, n.rep u = n.rep v →
          (n.classes ⊔ Relation.EqvGen.setoid fun x y => x = a ∧ y = b) u v :=
        fun same => (le_sup_left : n.classes ≤ _) same
      have pair : (n.classes ⊔ Relation.EqvGen.setoid fun x y => x = a ∧ y = b) a b :=
        (le_sup_right : Relation.EqvGen.setoid (fun x y => x = a ∧ y = b) ≤ _)
          (Relation.EqvGen.rel a b ⟨rfl, rfl⟩)
      intro x
      simp only [join]
      split
      next moved =>
        rcases le_total (n.rep a) (n.rep b) with le | le
        · rw [max_eq_right le] at moved
          rw [min_eq_left le]
          exact Setoid.trans' _ (old moved)
            (Setoid.trans' _ (Setoid.symm' _ pair) (old (n.rep_rep a).symm))
        · rw [max_eq_left le] at moved
          rw [min_eq_right le]
          exact Setoid.trans' _ (old moved) (Setoid.trans' _ pair (old (n.rep_rep b).symm))
      next => exact old (n.rep_rep x).symm
    intro x y same
    have same : (n.join a b).rep x = (n.join a b).rep y := same
    exact Setoid.trans' _ (step x) (same ▸ Setoid.symm' _ (step y))
  · apply sup_le
    · intro x y (same : n.rep x = n.rep y)
      change (n.join a b).rep x = (n.join a b).rep y
      simp only [join, same]
    · apply Setoid.eqvGen_le
      rintro x y ⟨rfl, rfl⟩
      exact joined

end Naming

section Holders
variable {β κ : Type}

def sharing (marks : List (β × κ)) : Setoid β :=
  Relation.EqvGen.setoid fun x y => ∃ key, (x, key) ∈ marks ∧ (y, key) ∈ marks

theorem sharing_nil : sharing ([] : List (β × κ)) = ⊥ := by
  apply le_antisymm _ bot_le
  apply Setoid.eqvGen_le
  rintro x y ⟨key, held, -⟩
  cases held

variable {marks : List (β × κ)} {key : κ}

theorem sharing_of_mem {x y : β} (first : (x, key) ∈ marks)
    (second : (y, key) ∈ marks) : sharing marks x y :=
  Relation.EqvGen.rel x y ⟨key, first, second⟩

theorem sharing_further {x first : β}
    (held : (first, key) ∈ marks) :
    sharing (marks ++ [(x, key)])
      = sharing marks ⊔ Relation.EqvGen.setoid fun u v => u = x ∧ v = first := by
  have old : ∀ {u v}, sharing marks u v →
      (sharing marks ⊔ Relation.EqvGen.setoid fun u v => u = x ∧ v = first) u v :=
    fun same => (le_sup_left : sharing marks ≤ _) same
  have pair : (sharing marks ⊔ Relation.EqvGen.setoid fun u v => u = x ∧ v = first) x first :=
    (le_sup_right : Relation.EqvGen.setoid (fun u v => u = x ∧ v = first) ≤ _)
      (Relation.EqvGen.rel x first ⟨rfl, rfl⟩)
  apply le_antisymm
  · apply Setoid.eqvGen_le
    rintro u v ⟨k, one, other⟩
    rw [mem_append, mem_singleton] at one other
    rcases one with one | one <;> rcases other with other | other
    · exact old (sharing_of_mem one other)
    · cases other
      exact Setoid.trans' _ (old (sharing_of_mem one held)) (Setoid.symm' _ pair)
    · cases one
      exact Setoid.trans' _ pair (old (sharing_of_mem held other))
    · cases one
      cases other
      exact Setoid.refl' _ _
  · apply sup_le
    · apply Setoid.eqvGen_mono
      rintro u v ⟨k, one, other⟩
      exact ⟨k, mem_append_left _ one, mem_append_left _ other⟩
    · apply Setoid.eqvGen_le
      rintro u v ⟨rfl, rfl⟩
      exact sharing_of_mem (mem_append_right _ mem_cons_self)
        (mem_append_left _ held)

theorem sharing_first {x : β}
    (new : ∀ y, (y, key) ∉ marks) : sharing (marks ++ [(x, key)]) = sharing marks := by
  apply le_antisymm
  · apply Setoid.eqvGen_le
    rintro u v ⟨k, one, other⟩
    rw [mem_append, mem_singleton] at one other
    rcases one with one | one <;> rcases other with other | other
    · exact sharing_of_mem one other
    · cases other
      exact absurd one (new u)
    · cases one
      exact absurd other (new v)
    · cases one
      cases other
      exact Setoid.refl' _ _
  · apply Setoid.eqvGen_mono
    rintro u v ⟨k, one, other⟩
    exact ⟨k, mem_append_left _ one, mem_append_left _ other⟩

end Holders

structure Represents (parent : List (α × α)) (n : Naming α) : Prop where
  closed : ∀ x up, parent.lookup x = some up → up ∈ keys parent
  down : ∀ x up, parent.lookup x = some up → up ≤ x
  same : ∀ x up, parent.lookup x = some up → n.rep up = n.rep x
  root : ∀ x, parent.lookup x = some x → n.rep x = x
  fresh : ∀ x, x ∉ keys parent → n.rep x = x

theorem represents_nil : Represents ([] : List (α × α)) Naming.apart where
  closed _ _ found := by simp at found
  down _ _ found := by simp at found
  same _ _ found := by simp at found
  root _ _ := rfl
  fresh _ _ := rfl

variable {n : Naming α}

theorem Represents.setDefault {parent : List (α × α)} (r : Represents parent n)
    (x : α) : Represents (setDefault parent x x) n := by
  by_cases held : x ∈ keys parent
  · simpa [Dicts.setDefault, held] using r
  · have new : Dicts.setDefault parent x x = set parent x x := by
      simp [Dicts.setDefault, Dicts.set, held]
    rw [new]
    constructor
    · intro y up found
      rw [mem_keys_set]
      rw [lookup_set] at found
      split at found
      next => cases found; exact .inl rfl
      next => exact .inr (r.closed y up found)
    · intro y up found
      rw [lookup_set] at found
      split at found
      next here => cases found; exact here ▸ le_rfl
      next => exact r.down y up found
    · intro y up found
      rw [lookup_set] at found
      split at found
      next here => cases found; rw [here]
      next => exact r.same y up found
    · intro y found
      rw [lookup_set] at found
      split at found
      next here => exact here ▸ r.fresh x held
      next => exact r.root y found
    · intro y absent
      exact r.fresh y fun member => absent (mem_keys_set.mpr (.inr member))

variable {parent : List (α × α)}

theorem Represents.halve (r : Represents parent n) {x up above : α}
    (first : parent.lookup x = some up) (apart : up ≠ x) (second : parent.lookup up = some above) :
    Represents (set parent x above) n := by
  have below : above < x :=
    (r.down up above second).trans_lt (lt_of_le_of_ne (r.down x up first) apart)
  constructor
  · intro y above found
    rw [mem_keys_set]
    rw [lookup_set] at found
    split at found
    next => cases found; exact .inr (r.closed up above second)
    next => exact .inr (r.closed y above found)
  · intro y above found
    rw [lookup_set] at found
    split at found
    next here => cases found; exact here ▸ below.le
    next => exact r.down y above found
  · intro y above found
    rw [lookup_set] at found
    split at found
    next here =>
      cases found
      rw [here, r.same up above second, r.same x up first]
    next => exact r.same y above found
  · intro y found
    rw [lookup_set] at found
    split at found
    next here =>
      cases found
      exact absurd here below.ne
    next => exact r.root y found
  · intro y absent
    exact r.fresh y fun member => absent (mem_keys_set.mpr (.inr member))

theorem climb_spec : ∀ (fuel : Nat) {parent : List (α × α)} {x : α},
    Represents parent n → x ∈ keys parent → (keys parent).countP (· < x) < fuel →
      ∃ after, climb parent fuel x = some (after, n.rep x) ∧ Represents after n ∧
        keys after = keys parent ∧ n.rep x ∈ keys parent
  | 0, _, _, _, _, enough => absurd enough (Nat.not_lt_zero _)
  | fuel + 1, parent, x, r, member, enough => by
    obtain ⟨up, first⟩ := mem_keys_iff.mp member
    simp only [climb, first, bind_eq_bind, bind_some]
    by_cases here : up = x
    · rw [if_pos here]
      have root : n.rep x = x := r.root x (here ▸ first)
      exact ⟨parent, by rw [root], r, rfl, by rw [root]; exact member⟩
    · rw [if_neg here]
      obtain ⟨above, second⟩ := mem_keys_iff.mp (r.closed x up first)
      have halved := r.halve first here second
      have same : keys (set parent x above) = keys parent := by rw [keys_set, if_pos member]
      have below : above < x :=
        (r.down up above second).trans_lt (lt_of_le_of_ne (r.down x up first) here)
      have inside : above ∈ keys parent := r.closed up above second
      -- One element fewer is below the next one: itself.
      have fewer : (keys parent).countP (· < above) < (keys parent).countP (· < x) := by
        apply countP_lt_of_flip (x := above)
        · intro y less
          exact decide_eq_true ((of_decide_eq_true less).trans below)
        · exact inside
        · exact decide_eq_true below
        · simp
      obtain ⟨after, run, sound, kept, top⟩ := climb_spec fuel halved (same ▸ inside)
        (by rw [same]; omega)
      have rep : n.rep above = n.rep x := (r.same up above second).trans (r.same x up first)
      rw [second, bind_some, run, rep]
      exact ⟨after, rfl, sound, kept.trans same, by rw [← rep, ← same]; exact top⟩

/-- A find gives the representative of a class and leaves the classes as they are. -/
theorem find_spec (r : Represents parent n) (x : α) :
    ∃ after, find parent x = some (after, n.rep x) ∧ Represents after n ∧
      n.rep x ∈ keys after ∧ ∀ y, y ∈ keys after ↔ y = x ∨ y ∈ keys parent := by
  have inside : x ∈ keys (Dicts.setDefault parent x x) := mem_keys_setDefault.mpr (.inl rfl)
  have enough : (keys (Dicts.setDefault parent x x)).countP (· < x)
      < (Dicts.setDefault parent x x).length + 1 := by
    have bound := countP_le_length (p := (· < x)) (l := keys (Dicts.setDefault parent x x))
    rw [Dicts.keys, length_map] at bound
    rw [Dicts.keys]
    omega
  obtain ⟨after, run, sound, kept, top⟩ := climb_spec _ (r.setDefault x) inside enough
  exact ⟨after, run, sound, kept ▸ top, fun y => by rw [kept, mem_keys_setDefault]⟩

theorem Represents.hang (r : Represents parent n) {a b : α} (apart : n.rep a ≠ n.rep b)
    (heldA : n.rep a ∈ keys parent) (heldB : n.rep b ∈ keys parent) :
    Represents (set parent (max (n.rep a) (n.rep b)) (min (n.rep a) (n.rep b))) (n.join a b) := by
  have less : min (n.rep a) (n.rep b) < max (n.rep a) (n.rep b) := min_lt_max.mpr apart
  -- both are roots, the later one and the earlier one
  have high : n.rep (max (n.rep a) (n.rep b)) = max (n.rep a) (n.rep b) := by
    rcases max_choice (n.rep a) (n.rep b) with is | is <;> rw [is, n.rep_rep]
  have low : n.rep (min (n.rep a) (n.rep b)) = min (n.rep a) (n.rep b) := by
    rcases min_choice (n.rep a) (n.rep b) with is | is <;> rw [is, n.rep_rep]
  have held : max (n.rep a) (n.rep b) ∈ keys parent := by
    rcases max_choice (n.rep a) (n.rep b) with is | is <;> rw [is] <;> assumption
  have heldLow : min (n.rep a) (n.rep b) ∈ keys parent := by
    rcases min_choice (n.rep a) (n.rep b) with is | is <;> rw [is] <;> assumption
  constructor
  · intro x up found
    rw [mem_keys_set]
    rw [lookup_set] at found
    split at found
    -- the root that is hung up is not the earlier one
    next => cases found; exact .inr heldLow
    next => exact .inr (r.closed x up found)
  · intro x up found
    rw [lookup_set] at found
    split at found
    next here => cases found; exact here ▸ less.le
    next => exact r.down x up found
  · intro x up found
    rw [lookup_set] at found
    split at found
    next here =>
      cases found
      simp only [Naming.join, here, high, low, if_pos, if_neg less.ne]
    next => simp only [Naming.join, r.same x up found]
  · intro x found
    rw [lookup_set] at found
    split at found
    next here =>
      cases found
      exact absurd here less.ne
    next elsewhere =>
      simp only [Naming.join, r.root x found, if_neg elsewhere]
  · intro x absent
    rw [mem_keys_set, not_or] at absent
    simp only [Naming.join, r.fresh x absent.2, if_neg absent.1]

/-- A union joins two classes. -/
theorem union_spec (r : Represents parent n) (a b : α) :
    ∃ after moved, union parent a b = some (after, moved) ∧ Represents after (n.join a b) := by
  obtain ⟨first, findA, soundA, heldA, -⟩ := find_spec r a
  obtain ⟨second, findB, soundB, heldB, kept⟩ := find_spec soundA b
  simp only [union, findA, findB, bind_eq_bind, bind_some]
  by_cases here : n.rep a = n.rep b
  · have unmoved : n.join a b = n := by
      simp only [Naming.join, here, max_self, min_self]
      congr
      funext x
      split
      next same => exact same.symm
      next => rfl
    exact ⟨second, false, by rw [if_pos here], by rw [unmoved]; exact soundB⟩
  · rw [if_neg here]
    exact ⟨_, true, rfl, soundB.hang here ((kept _).mpr (.inr heldA)) heldB⟩

end UnionFind
