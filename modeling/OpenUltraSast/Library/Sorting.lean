import Mathlib.Data.List.MinMax
import Mathlib.Data.List.Sort
import Mathlib.Data.List.TakeWhile

/-!
# Choosing and sorting by a key

What a choice of the least element and a sort by a key leave to the order of the list: of the elements
that the key does not tell apart the first is chosen, and comes out first.
-/

namespace StableSort

open List

section Choice

variable {α : Type}

/-- `[a for a in items if kind(a)] or items`. -/
def prefer (kind : α → Bool) (items : List α) : List α :=
  if (items.filter kind).isEmpty then items else items.filter kind

variable {kind : α → Bool}

theorem mem_prefer_iff {items : List α} {a : α} :
    a ∈ prefer kind items ↔ a ∈ items ∧ (kind a = true ∨ ∀ b ∈ items, kind b = false) := by
  rw [prefer]
  split
  next none_ =>
    have others : ∀ b ∈ items, kind b = false := by simpa using none_
    exact ⟨fun member => ⟨member, Or.inr others⟩, And.left⟩
  next some_ =>
    have one : ∃ b ∈ items, kind b = true := by simpa using some_
    rw [mem_filter, and_congr_right_iff]
    intro _
    refine ⟨Or.inl, fun either => either.resolve_right ?_⟩
    intro none_
    obtain ⟨b, member, is⟩ := one
    exact Bool.false_ne_true ((none_ b member).symm.trans is)

theorem prefer_ne_nil {items : List α} (some_ : items ≠ []) :
    prefer kind items ≠ [] := by
  rw [prefer]
  split
  · exact some_
  next held => simpa using held

theorem prefer_cons {a : α} {rest : List α}
    (kept : a ∈ prefer kind (a :: rest)) :
    ∃ others, prefer kind (a :: rest) = a :: others := by
  rcases (mem_prefer_iff.mp kept).2 with is | none_
  · exact ⟨rest.filter kind, by simp [prefer, is]⟩
  · have empty : (a :: rest).filter kind = [] := by simpa [filter_eq_nil_iff] using none_
    exact ⟨rest, by rw [prefer, empty]; rfl⟩

variable {κ : Type} [LinearOrder κ]

/-- `min(items, key=key)`; none of no items. -/
def minBy (key : α → κ) (items : List α) : Option α := items.argmin key

variable {key : α → κ} {a : α} {items : List α}

theorem minBy_mem (least : minBy key items = some a) : a ∈ items := argmin_mem least

theorem minBy_le {b : α} (member : b ∈ items) (least : minBy key items = some a) : key a ≤ key b :=
  le_of_mem_argmin member least

theorem minBy_eq_none_iff : minBy key items = none ↔ items = [] := argmin_eq_none

/-- The head of a list is its first least element where nothing is below it. -/
theorem minBy_cons_of_least (least : ∀ b ∈ items, key a ≤ key b) :
    minBy key (a :: items) = some a := by
  rw [minBy, argmin_cons]
  cases found : items.argmin key with
  | none => rfl
  | some b => exact if_neg (not_lt.mpr (least b (argmin_mem found)))

end Choice

variable {α κ : Type} [LinearOrder κ] (key : α → κ)

/-- `sorted(items, key=key)`. -/
def sortBy (items : List α) : List α := items.insertionSort fun a b => key a ≤ key b

theorem perm_sortBy (items : List α) : (sortBy key items).Perm items := perm_insertionSort _ _

theorem sortBy_sorted (items : List α) :
    (sortBy key items).Pairwise fun a b => key a ≤ key b := by
  have : Std.Total fun a b : α => key a ≤ key b := ⟨fun a b => le_total (key a) (key b)⟩
  have : IsTrans α fun a b : α => key a ≤ key b := ⟨fun a b c => le_trans⟩
  exact pairwise_insertionSort _ _

theorem takeWhile_below {items : List α} (sorted : items.Pairwise fun a b => key a ≤ key b)
    (k : κ) : (items.takeWhile fun b => ¬ k ≤ key b).length = items.countP fun b => key b < k := by
  induction items with
  | nil => rfl
  | cons a rest ih =>
    obtain ⟨first, sorted⟩ := pairwise_cons.mp sorted
    by_cases below : key a < k
    · rw [takeWhile_cons_of_pos (by simpa using below),
        countP_cons_of_pos (by simpa using below), length_cons, ih sorted]
    · have none_ : rest.countP (fun b => key b < k) = 0 := by
        rw [countP_eq_zero]
        intro b member
        simpa using (not_lt.mp below).trans (first b member)
      rw [takeWhile_cons_of_neg (by simpa using below),
        countP_cons_of_neg (by simpa using below), none_]
      rfl

/-- The head of a list comes out before the others of its key, behind all that are below. -/
theorem getElem?_sortBy_cons (a : α) (rest : List α) :
    (sortBy key (a :: rest))[rest.countP fun b => key b < key a]? = some a := by
  have place := takeWhile_below key (sortBy_sorted key rest) (key a)
  rw [(perm_sortBy key rest).countP_eq] at place
  rw [sortBy, insertionSort_cons_eq_take_drop, ← place, sortBy,
    List.getElem?_append_right le_rfl, Nat.sub_self]
  rfl

theorem map_sortBy_eq {β : Type} {read : α → β} {items others : List α}
    (same : (items.map fun a => (key a, read a)).Perm (others.map fun a => (key a, read a)))
    (ties : ∀ a ∈ items, ∀ b ∈ others, key a = key b → read a = read b) :
    (sortBy key items).map read = (sortBy key others).map read := by
  have sorted : ∀ l : List α, ((sortBy key l).map fun a => (key a, read a)).Pairwise
      fun x y => x.1 ≤ y.1 := fun l => pairwise_map.mpr (sortBy_sorted key l)
  have perm : ((sortBy key items).map fun a => (key a, read a)).Perm
      ((sortBy key others).map fun a => (key a, read a)) :=
    ((perm_sortBy key items).map _).trans (same.trans ((perm_sortBy key others).map _).symm)
  have pairs : (sortBy key items).map (fun a => (key a, read a)) =
      (sortBy key others).map fun a => (key a, read a) := by
    refine perm.eq_of_pairwise ?_ (sorted items) (sorted others)
    intro x y left right le ge
    obtain ⟨a, member, rfl⟩ := mem_map.mp left
    obtain ⟨b, member', rfl⟩ := mem_map.mp right
    have tied : key a = key b := le_antisymm le ge
    have reads := ties a ((perm_sortBy key items).mem_iff.mp member) b
      ((perm_sortBy key others).mem_iff.mp member') tied
    exact Prod.ext tied reads
  have seconds := congrArg (List.map Prod.snd) pairs
  rwa [map_map, map_map] at seconds

end StableSort

/-!
## Bisection

A bisection of a sorted list finds how many of its elements stand before a key, and two bisections cut
out those between two keys.
-/

namespace Bisect

open List

variable {α : Type*}

/-- The elements before the key stand before the others. -/
def Split (before : α → Bool) (items : List α) : Prop :=
  items.Pairwise fun a b => before b = true → before a = true

def search (before : α → Bool) (items : List α) : Nat → Nat → Nat → Nat
  | 0, lo, _ => lo
  | fuel + 1, lo, hi =>
    if lo < hi then
      let mid := (lo + hi) / 2
      if items[mid]?.any before then search before items fuel (mid + 1) hi
      else search before items fuel lo mid
    else lo

def bisect (before : α → Bool) (items : List α) : Nat :=
  search before items items.length 0 items.length

variable {items : List α} {before : α → Bool}

section
variable (split : Split before items)
include split

theorem takeWhile_eq_filter :
    items.takeWhile before = items.filter before := by
  induction items with
  | nil => rfl
  | cons x rest ih =>
    obtain ⟨first, later⟩ := pairwise_cons.mp split
    by_cases here : before x = true
    · rw [takeWhile_cons_of_pos here, filter_cons_of_pos here, ih later]
    · rw [takeWhile_cons_of_neg here, filter_cons_of_neg here, eq_comm,
        filter_eq_nil_iff]
      exact fun y member after => here (first y member after)

theorem dropWhile_eq_filter :
    items.dropWhile before = items.filter fun x => !before x := by
  induction items with
  | nil => rfl
  | cons x rest ih =>
    obtain ⟨first, later⟩ := pairwise_cons.mp split
    by_cases here : before x = true
    · rw [dropWhile_cons_of_pos here, filter_cons_of_neg (by simp [here]), ih later]
    · have all : ∀ y ∈ x :: rest, (!before y) = true := by
        intro y member
        rcases mem_cons.mp member with rfl | member
        · simp [here]
        · simpa using fun after => here (first y member after)
      rw [dropWhile_cons_of_neg here, filter_eq_self.mpr all]

theorem before_iff {i : Nat} (inside : i < items.length) :
    before items[i] = true ↔ i < (items.takeWhile before).length := by
  induction items generalizing i with
  | nil => simp at inside
  | cons x rest ih =>
    obtain ⟨first, later⟩ := pairwise_cons.mp split
    by_cases here : before x = true
    · rw [takeWhile_cons_of_pos here, length_cons]
      cases i with
      | zero => simp [here]
      | succ i => rw [getElem_cons_succ, ih later, Nat.succ_lt_succ_iff]
    · rw [takeWhile_cons_of_neg here]
      cases i with
      | zero => simp [here]
      | succ i =>
        have short : i < rest.length := Nat.lt_of_succ_lt_succ inside
        have after : ¬ before rest[i] = true := fun after =>
          here (first _ (getElem_mem short) after)
        simp [after]

theorem search_eq (fuel : Nat) :
    ∀ lo hi, lo ≤ (items.takeWhile before).length → (items.takeWhile before).length ≤ hi →
      hi ≤ items.length → hi ≤ lo + fuel →
      search before items fuel lo hi = (items.takeWhile before).length := by
  -- by the fuel; the number that is sought stays between the bounds
  induction fuel with
  | zero =>
    intro lo hi low high _ enough
    rw [search]
    omega
  | succ fuel ih =>
    intro lo hi low high most enough
    rw [search]
    by_cases open_ : lo < hi
    · rw [if_pos open_]
      have inside : (lo + hi) / 2 < items.length := by omega
      dsimp only
      rw [List.getElem?_eq_getElem inside, Option.any_some]
      by_cases early : before items[(lo + hi) / 2] = true
      · have above := (before_iff split inside).mp early
        rw [if_pos early]
        exact ih _ _ (by omega) high most (by omega)
      · have below := mt (before_iff split inside).mpr early
        rw [if_neg early]
        exact ih _ _ low (by omega) (by omega) (by omega)
    · rw [if_neg open_]
      omega

theorem bisect_eq :
    bisect before items = (items.takeWhile before).length :=
  search_eq split _ _ _ (Nat.zero_le _) (takeWhile_sublist _ |>.length_le) (Nat.le_refl _)
    (Nat.le_add_left _ _)

end

theorem drop_takeWhile (before : α → Bool) (items : List α) :
    items.drop (items.takeWhile before).length = items.dropWhile before := by
  calc items.drop (items.takeWhile before).length
      = (items.takeWhile before ++ items.dropWhile before).drop (items.takeWhile before).length := by
        rw [takeWhile_append_dropWhile]
    _ = items.dropWhile before := drop_left

/-- Two bisections cut out what lies between. -/
theorem between_eq_filter {low high : α → Bool} (lower : Split low items) (upper : Split high items)
    (nested : ∀ x, low x = true → high x = true) :
    (items.drop (bisect low items)).take (bisect high items - bisect low items) =
      items.filter fun x => !low x && high x := by
  have taken : items.take (bisect high items) = items.filter high := by
    rw [bisect_eq upper, ← takeWhile_eq_filter upper]
    exact prefix_iff_eq_take.mp ( takeWhile_prefix _) |>.symm
  -- what is before the first key is before the second as well, so none of it is cut off
  have count : bisect low items = ((items.filter high).takeWhile low).length := by
    rw [bisect_eq lower, takeWhile_eq_filter lower, takeWhile_eq_filter (lower.filter _),
      filter_filter]
    congr 1
    apply filter_congr
    intro x _
    cases first : low x with
    | false => rfl
    | true => rw [nested x first]; rfl
  have dropped : (items.filter high).drop ((items.filter high).takeWhile low).length =
      (items.filter high).dropWhile low :=
    drop_takeWhile low _
  rw [← drop_take, taken, count, dropped, dropWhile_eq_filter (lower.filter _),
    filter_filter]

end Bisect
