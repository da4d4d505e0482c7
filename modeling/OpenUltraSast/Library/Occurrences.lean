import Mathlib.Data.List.Infix

/-!
# Matches in a text that is put together

A match is known at its start and looks at a bounded number of items.
-/

namespace Occurrences

open List

variable {α : Type}

/-- A match somewhere in a list; `at_` says whether there is one at the start. -/
def Occurs (at_ : List α → Bool) (text : List α) : Prop := ∃ tail, tail <:+ text ∧ at_ tail = true

/-- A match in a part, with all that it looks at. -/
def Within (reach : Nat) (at_ : List α → Bool) (part : List α) : Prop :=
  ∃ tail, tail <:+ part ∧ reach ≤ tail.length ∧ at_ tail = true

/-- A match that begins in one part and looks past its end. -/
def Crosses (reach : Nat) (at_ : List α → Bool) (parts : List (List α)) : Prop :=
  ∃ front part back tail, parts = front ++ part :: back ∧ tail <:+ part ∧ tail ≠ [] ∧
    tail.length < reach ∧ at_ (tail ++ back.flatten) = true

/-- What follows the first items makes no difference. -/
def Bounded (reach : Nat) (at_ : List α → Bool) : Prop :=
  ∀ start rest other, reach ≤ start.length → at_ (start ++ rest) = at_ (start ++ other)

variable {reach : Nat} {at_ : List α → Bool}

theorem Within.occurs {part : List α} (within : Within reach at_ part)
    (bounded : Bounded reach at_) (front rest : List α) : Occurs at_ (front ++ part ++ rest) := by
  obtain ⟨tail, ⟨before, rfl⟩, long, matched⟩ := within
  refine ⟨tail ++ rest, ⟨front ++ before, by simp⟩, ?_⟩
  rw [bounded tail rest [] long, append_nil]
  exact matched

theorem exists_part_of_suffix {parts : List (List α)} {tail : List α}
    (suffix : tail <:+ parts.flatten) (filled : tail ≠ []) :
    ∃ front part back start, parts = front ++ part :: back ∧ start <:+ part ∧ start ≠ [] ∧
      tail = start ++ back.flatten := by
  induction parts with
  | nil => exact absurd (suffix_nil.mp suffix) filled
  | cons first parts ih =>
    obtain ⟨before, whole⟩ := suffix
    rw [flatten_cons, append_eq_append_iff] at whole
    rcases whole with ⟨start, rfl, rfl⟩ | ⟨skipped, rfl, whole⟩
    · by_cases empty : start = []
      · subst empty
        obtain ⟨front, part, back, start, rfl, place⟩ := ih (suffix_refl _)
        exact ⟨_ :: front, part, back, start, rfl, place⟩
      · exact ⟨[], _, parts, start, rfl, suffix_append before start, empty, rfl⟩
    · obtain ⟨front, part, back, start, rfl, place⟩ := ih ⟨skipped, whole.symm⟩
      exact ⟨first :: front, part, back, start, rfl, place⟩

/-- A text occurs in a join exactly where one part has it or it crosses parts. -/
theorem occurs_flatten_iff (bounded : Bounded reach at_) (needs : at_ [] = false)
    (parts : List (List α)) :
    Occurs at_ parts.flatten ↔ (∃ part ∈ parts, Within reach at_ part) ∨ Crosses reach at_ parts := by
  constructor
  · rintro ⟨tail, suffix, matched⟩
    have filled : tail ≠ [] := by
      rintro rfl
      rw [needs] at matched
      cases matched
    obtain ⟨front, part, back, start, rfl, ends, begun, rfl⟩ := exists_part_of_suffix suffix filled
    by_cases long : reach ≤ start.length
    · refine .inl ⟨part, by simp, start, ends, long, ?_⟩
      rw [← matched, ← bounded start [] _ long, append_nil]
    · exact .inr ⟨front, part, back, start, rfl, ends, begun, by omega, matched⟩
  · rintro (⟨part, member, within⟩ | ⟨front, part, back, start, rfl, ⟨before, rfl⟩, -, -, matched⟩)
    · obtain ⟨front, back, rfl⟩ := append_of_mem member
      have found := within.occurs bounded front.flatten back.flatten
      rwa [flatten_append, flatten_cons, ← append_assoc]
    · exact ⟨start ++ back.flatten, ⟨front.flatten ++ before, by simp⟩, matched⟩

theorem bounded_isPrefixOf [DecidableEq α] (text : List α) :
    Bounded text.length (text.isPrefixOf ·) := by
  intro start rest other long
  rw [Bool.eq_iff_iff, isPrefixOf_iff_prefix, isPrefixOf_iff_prefix]
  have whole (more : List α) : text <+: start ++ more ↔ text <+: start :=
    ⟨fun begins => prefix_of_prefix_length_le begins (prefix_append start more) long,
      fun begins => begins.trans (prefix_append start more)⟩
  rw [whole, whole]

theorem occurs_isPrefixOf_iff [DecidableEq α] (text whole : List α) :
    Occurs (text.isPrefixOf ·) whole ↔ text <:+: whole := by
  simp only [Occurs, isPrefixOf_iff_prefix]
  constructor
  · rintro ⟨tail, suffix, begins⟩
    exact begins.isInfix.trans suffix.isInfix
  · rintro ⟨before, after, rfl⟩
    exact ⟨text ++ after, ⟨before, by simp⟩, prefix_append text after⟩

theorem within_isPrefixOf_iff [DecidableEq α] (text part : List α) :
    Within text.length (text.isPrefixOf ·) part ↔ text <:+: part := by
  rw [← occurs_isPrefixOf_iff]
  constructor
  · rintro ⟨tail, suffix, -, begins⟩
    exact ⟨tail, suffix, begins⟩
  · rintro ⟨tail, suffix, begins⟩
    exact ⟨tail, suffix, ( isPrefixOf_iff_prefix.mp begins).length_le, begins⟩

end Occurrences
