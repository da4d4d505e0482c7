import Mathlib.Data.List.Basic

/-!
# Portions

A list cut into portions of one size, and the portions that are reached while a condition on their
place lasts.
-/

namespace Portions

open List

variable {α : Type}

def portions (size : Nat) (l : List α) : List (List α) :=
  (List.range ((l.length + size - 1) / size)).map fun i => (l.drop (i * size)).take size

theorem flatten_slices (size n : Nat) (l : List α) :
    ((List.range n).map fun i => (l.drop (i * size)).take size).flatten = l.take (n * size) := by
  induction n with
  | zero => simp
  | succ n ih =>
    rw [range_succ, map_append, flatten_append, ih, Nat.add_mul, Nat.one_mul,
      take_add]
    simp

theorem flatten_portions {size : Nat} (positive : 0 < size) (l : List α) :
    (portions size l).flatten = l := by
  rw [portions, flatten_slices]
  apply take_of_length_le
  have whole := Nat.div_add_mod (l.length + size - 1) size
  have rest := Nat.mod_lt (l.length + size - 1) positive
  rw [Nat.mul_comm] at whole
  omega

theorem takeWhile_zipIdx (l : List α) (lasts : Nat → Bool) (n : Nat) :
    ∃ k, ((l.zipIdx n).takeWhile fun item => lasts item.2) = (l.take k).zipIdx n ∧
      (l.take k = l ∨ lasts (n + (l.take k).length) = false) := by
  induction l generalizing n with
  | nil => exact ⟨0, rfl, .inl rfl⟩
  | cons item l ih =>
    cases now : lasts n with
    | false => exact ⟨0, by simp [now], .inr (by simpa using now)⟩
    | true =>
      obtain ⟨k, taken, ended⟩ := ih (n + 1)
      refine ⟨k + 1, by simp [now, taken], ?_⟩
      rcases ended with all | out
      · exact .inl (by rw [take_succ_cons, all])
      · right
        rw [take_succ_cons, length_cons, ← out]
        congr 1
        omega

end Portions
