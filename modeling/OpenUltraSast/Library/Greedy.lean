import Mathlib.Algebra.Order.Group.Nat
import Mathlib.Data.List.Basic
import Mathlib.Data.Nat.ModEq

/-!
# Greedy choice

A list is gone through once, and an element is taken if those taken before it leave room for it.
-/

namespace Greedy

variable {α : Type} (room : List α → α → Prop)

def choose [∀ taken a, Decidable (room taken a)] : List α → List α → List α
  | taken, [] => taken
  | taken, a :: rest => if room taken a then choose (taken ++ [a]) rest else choose taken rest

/-- A selection of a list, behind some elements, that passes over no element for which those that
stand before it leave room. -/
inductive Steady : List α → List α → List α → Prop where
  | nil (taken : List α) : Steady taken [] []
  | take {taken rest selection : List α} {a : α} (later : Steady (taken ++ [a]) rest selection) :
      Steady taken (a :: rest) (a :: selection)
  | pass {taken rest selection : List α} {a : α} (full : ¬ room taken a)
      (later : Steady taken rest selection) : Steady taken (a :: rest) selection

variable {room} {taken list selection : List α}

theorem Steady.sublist (steady : Steady room taken list selection) : selection.Sublist list := by
  induction steady with
  | nil => exact .slnil
  | take _ ih => exact ih.cons_cons _
  | pass _ _ ih => exact ih.cons _

section Choose
variable [∀ taken a, Decidable (room taken a)]

/-- The choice is a selection that passes over no element without need. -/
theorem steady_choose (room : List α → α → Prop) [∀ taken a, Decidable (room taken a)]
    (taken list : List α) :
    ∃ selection, choose room taken list = taken ++ selection ∧ Steady room taken list selection := by
  induction list generalizing taken with
  | nil => exact ⟨[], by simp [choose], .nil taken⟩
  | cons a rest ih =>
    by_cases fits : room taken a
    · obtain ⟨selection, chosen, steady⟩ := ih (taken ++ [a])
      exact ⟨a :: selection, by rw [choose, if_pos fits, chosen, List.append_assoc]; rfl, .take steady⟩
    · obtain ⟨selection, chosen, steady⟩ := ih taken
      exact ⟨selection, by rw [choose, if_neg fits, chosen], .pass fits steady⟩

theorem choose_sublist (list : List α) : (choose room [] list).Sublist list := by
  obtain ⟨selection, chosen, steady⟩ := steady_choose room [] list
  rw [chosen, List.nil_append]
  exact steady.sublist

theorem choose_induction {P : List α → Prop} (step : ∀ taken a, P taken → room taken a → P (taken ++ [a]))
    (list : List α) {taken : List α} (holds : P taken) : P (choose room taken list) := by
  induction list generalizing taken with
  | nil => exact holds
  | cons a rest ih =>
    rw [choose]
    split
    next fits => exact ih (step taken a holds fits)
    next => exact ih holds

/-- No other selection passes over no element without need, if each of its members fits behind those
before it. -/
theorem choose_of_steady (steady : Steady room taken list selection)
    (fits : ∀ before a after, selection = before ++ a :: after → room (taken ++ before) a) :
    choose room taken list = taken ++ selection := by
  induction steady with
  | nil taken => simp [choose]
  -- its first member fits behind nothing but what was taken, so the choice takes it as well
  | @take taken rest selection a later ih =>
    have first : room taken a := by simpa using fits [] a selection rfl
    rw [choose, if_pos first, ih, List.append_assoc]
    · rfl
    · intro before b after split
      have moved := fits (a :: before) b after (by rw [split]; rfl)
      rwa [List.append_assoc, List.singleton_append]
  -- what the selection passes over leaves no room in the choice either
  | pass full later ih =>
    rw [choose, if_neg full, ih fits]

end Choose

end Greedy

/-!
## Dealing in turn

Cards that are dealt out in turn to some hands. Every piece of the pack is shared evenly.
-/

namespace RoundRobin

open List

variable {α : Type}

def hand (k i start : Nat) (cards : List α) : List α :=
  ((cards.zipIdx start).filter fun card => card.2 % k = i).map (·.1)

variable {k i : Nat}

theorem hand_cons (card : α) (start : Nat) (cards : List α) :
    hand k i start (card :: cards) =
      (if start % k = i then [card] else []) ++ hand k i (start + 1) cards := by
  rw [hand, zipIdx_cons, filter_cons]
  by_cases own : start % k = i <;> simp [own, hand]

theorem hand_append (start : Nat) (cards more : List α) :
    hand k i start (cards ++ more) =
      hand k i start cards ++ hand k i (start + cards.length) more := by
  rw [hand, zipIdx_append, filter_append, map_append]
  rfl

theorem hand_sublist (start : Nat) (cards : List α) : (hand k i start cards).Sublist cards := by
  have whole : (cards.zipIdx start).map (·.1) = cards := zipIdx_map_fst start cards
  have part := (filter_sublist (l := cards.zipIdx start)
    (p := fun card => card.2 % k = i)).map (·.1)
  rwa [whole] at part

theorem dvd_turn_iff (below : i < k) (n : Nat) : k ∣ n + (k - 1 - i) + 1 ↔ n % k = i := by
  -- the remainder and `k - i` sum to less than `2 * k`, so to `k` where `k` divides the sum
  have rest : n + (k - 1 - i) + 1 = k * (n / k) + (n % k + (k - i)) := by
    have whole := Nat.div_add_mod n k
    omega
  have last : n % k < k := Nat.mod_lt n (by omega)
  rw [rest, Nat.dvd_add_right (Nat.dvd_mul_right k _)]
  constructor
  · rintro ⟨c, sum⟩
    rcases c with _ | _ | c
    · omega
    · omega
    · have more : k * 2 ≤ k * (c + 1 + 1) := Nat.mul_le_mul_left k (by omega)
      omega
  · rintro rfl
    exact ⟨1, by omega⟩

theorem length_hand (below : i < k) (start : Nat) (cards : List α) :
    (hand k i start cards).length + (start + (k - 1 - i)) / k =
      (start + cards.length + (k - 1 - i)) / k := by
  induction cards generalizing start with
  | nil => simp [hand]
  | cons card cards ih =>
    have turn := dvd_turn_iff below start
    have next := ih (start + 1)
    -- the quotient grows just when the card is the hand's own
    have step : (start + (k - 1 - i) + 1) / k =
        (start + (k - 1 - i)) / k + if k ∣ start + (k - 1 - i) + 1 then 1 else 0 := Nat.succ_div
    have place : start + 1 + (k - 1 - i) = start + (k - 1 - i) + 1 := by omega
    have total : start + 1 + cards.length = start + (card :: cards).length := by
      rw [length_cons]
      omega
    rw [place, step, total] at next
    rw [hand_cons, length_append]
    by_cases own : start % k = i
    · rw [if_pos own]
      rw [if_pos (turn.mpr own)] at next
      rw [length_singleton]
      omega
    · rw [if_neg own]
      rw [if_neg (fun divides => own (turn.mp divides))] at next
      rw [length_nil]
      omega

/-- Of every piece of the pack any two hands get as many cards, but for one. -/
theorem length_hand_le {j : Nat} (belowI : i < k) (belowJ : j < k) (start : Nat) (cards : List α) :
    (hand k i start cards).length ≤ (hand k j start cards).length + 1 := by
  have turnsI := length_hand belowI start cards
  have turnsJ := length_hand belowJ start cards
  rw [Nat.add_right_comm] at turnsI turnsJ
  -- each hand gets the quotient of the number of cards, or one more
  have most := Nat.add_div_le_div_add_div_add_one (start + (k - 1 - i)) cards.length k
  have least : (start + (k - 1 - j)) / k + cards.length / k ≤
      (start + (k - 1 - j) + cards.length) / k := Nat.div_add_div_le_add_div
  omega

theorem length_hand_filter_le {j : Nat} (belowI : i < k) (belowJ : j < k) (kind : α → Bool)
    {before own after : List α} (apart : ∀ card ∈ before ++ after, kind card = false)
    (all : ∀ card ∈ own, kind card = true) :
    ((hand k i 0 (before ++ own ++ after)).filter kind).length ≤
      ((hand k j 0 (before ++ own ++ after)).filter kind).length + 1 := by
  -- of the whole pack a hand has the kind that it got of the middle piece
  have only (i : Nat) : (hand k i 0 (before ++ own ++ after)).filter kind =
      hand k i (0 + before.length) own := by
    have none (start : Nat) {cards : List α} (subset : ∀ card ∈ cards, card ∈ before ++ after) :
        (hand k i start cards).filter kind = [] := by
      rw [filter_eq_nil_iff]
      intro card member
      have other := apart card (subset card ((hand_sublist start cards).subset member))
      simp [other]
    have kept : (hand k i (0 + before.length) own).filter kind =
        hand k i (0 + before.length) own := by
      rw [filter_eq_self]
      exact fun card member => all card ((hand_sublist _ own).subset member)
    rw [hand_append, hand_append, filter_append, filter_append, kept,
      none 0 fun card => mem_append_left after,
      none _ fun card => mem_append_right before, nil_append, append_nil]
  rw [only, only]
  exact length_hand_le belowI belowJ _ own

end RoundRobin
