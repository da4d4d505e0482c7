import Mathlib.Algebra.Order.BigOperators.Group.List
import Mathlib.Data.List.DropRight
import Mathlib.Tactic.Ring

/-!
# Lists joined by a separator

What is known of the lines of a text that is joined, split again and cut at its end, and when two lists
written end to end read alike.
-/

namespace OpenUltraSast.Joined

open List

variable {α : Type*} {sep : α}

theorem joined_cons (line : List α) {rest : List (List α)} (more : rest ≠ []) :
    [sep].intercalate (line :: rest) = line ++ sep :: [sep].intercalate rest := by
  rw [intercalate_cons_of_ne_nil more, append_assoc, singleton_append]

variable {lines : List (List α)}

theorem length_joined (sep : α) (some_ : lines ≠ []) :
    ([sep].intercalate lines).length + 1 = (lines.map fun line => line.length + 1).sum := by
  induction lines with
  | nil => exact absurd rfl some_
  | cons line rest ih =>
    rcases eq_or_ne rest [] with rfl | more
    · simp
    · rw [joined_cons line more, map_cons, sum_cons, ← ih more, length_append,
        length_cons]
      omega

theorem length_joined_le {few many : List (List α)} (part : few.Sublist many) :
    ([sep].intercalate few).length ≤ ([sep].intercalate many).length := by
  rcases eq_or_ne few [] with rfl | some_
  · exact Nat.zero_le _
  · have more : many ≠ [] := fun none_ => some_ (sublist_nil.mp (none_ ▸ part))
    have sums := (part.map fun line => line.length + 1).sum_le_sum fun _ _ => Nat.zero_le _
    have left := length_joined sep some_
    have right := length_joined sep more
    omega

theorem mem_joined (sep : α) {line : List α} (member : line ∈ lines) {c : α} (inside : c ∈ line) :
    c ∈ [sep].intercalate lines := by
  induction lines with
  | nil => cases member
  | cons first rest ih =>
    rcases eq_or_ne rest [] with rfl | more
    · cases mem_singleton.mp member
      simpa using inside
    · rw [joined_cons first more]
      rcases mem_cons.mp member with rfl | later
      · exact mem_append_left _ inside
      · exact mem_append_right _ (mem_cons_of_mem _ (ih later))

theorem mem_of_mem_joined {c : α} (inside : c ∈ [sep].intercalate lines) :
    c = sep ∨ ∃ line ∈ lines, c ∈ line := by
  induction lines with
  | nil => simp at inside
  | cons first rest ih =>
    rcases eq_or_ne rest [] with rfl | more
    · exact .inr ⟨first, mem_singleton_self _, by simpa using inside⟩
    · rw [joined_cons first more, mem_append, mem_cons] at inside
      rcases inside with here | rfl | there
      · exact .inr ⟨first, mem_cons_self, here⟩
      · exact .inl rfl
      · obtain same | ⟨line, member, inside⟩ := ih there
        · exact .inl same
        · exact .inr ⟨line, mem_cons_of_mem _ member, inside⟩

theorem mem_rdropWhile {p : α → Bool} {items : List α} {x : α} (member : x ∈ items)
    (kept : p x = false) : x ∈ items.rdropWhile p := by
  rw [← rdropWhile_append_rtakeWhile (p := p) (l := items), mem_append] at member
  exact member.resolve_right fun dropped => by simp [mem_rtakeWhile_imp dropped] at kept

theorem rdropWhile_append {p : α → Bool} {front : List α}
    (kept : ∀ x ∈ front, p x = false) (back : List α) :
    (front ++ back).rdropWhile p = front ++ back.rdropWhile p := by
  -- from the end of the back part, which is where elements are dropped
  induction back using List.reverseRecOn with
  | nil =>
    rw [append_nil, rdropWhile_nil, append_nil, rdropWhile_eq_self_iff]
    exact fun some_ => by simp [kept _ (getLast_mem some_)]
  | append_singleton back x ih =>
    rw [← append_assoc]
    by_cases dropped : p x
    · rw [rdropWhile_concat_pos _ _ _ dropped, rdropWhile_concat_pos _ _ _ dropped, ih]
    · rw [rdropWhile_concat_neg _ _ _ dropped, rdropWhile_concat_neg _ _ _ dropped,
        append_assoc]

section Written

variable {β : Type*} {text : α → List β}

/-- Where the lists part, what one of them writes for its element begins what the other writes for its
own, and writes next what that one has beyond it. -/
def RunsInto (text : α → List β) (first second : List α) : Prop :=
  ∃ front a rest b others left, first = front ++ a :: rest ∧ second = front ++ b :: others ∧ a ≠ b ∧
    text b = text a ++ left ∧ rest.flatMap text = left ++ others.flatMap text

variable {first second : List α}

theorem RunsInto.cons (a : α) (into : RunsInto text first second) :
    RunsInto text (a :: first) (a :: second) := by
  obtain ⟨front, rest⟩ := into
  refine ⟨a :: front, ?_⟩
  simpa only [cons_append, List.cons.injEq, true_and] using rest

theorem RunsInto.flatMap_eq (into : RunsInto text first second) :
    first.flatMap text = second.flatMap text := by
  obtain ⟨front, a, rest, b, others, left, rfl, rfl, -, begins, goes⟩ := into
  simp only [flatMap_append, flatMap_cons, begins, goes, append_assoc]

/-- Different sequences join to one text exactly where one runs into the other. -/
theorem flatMap_eq_iff (some_ : ∀ a, text a ≠ []) (differ : first ≠ second) :
    first.flatMap text = second.flatMap text ↔
      RunsInto text first second ∨ RunsInto text second first := by
  refine ⟨fun same => ?_, fun into => into.elim RunsInto.flatMap_eq fun into => into.flatMap_eq.symm⟩
  induction first generalizing second with
  | nil =>
    obtain ⟨b, others, rfl⟩ := exists_cons_of_ne_nil differ.symm
    simp [some_] at same
  | cons a rest ih =>
    cases second with
    | nil => simp [some_] at same
    | cons b others =>
      by_cases heads : a = b
      · subst heads
        simp only [flatMap_cons, append_cancel_left_eq] at same
        exact (ih (fun tails => differ (tails ▸ rfl)) same).imp (.cons a) (.cons a)
      · rw [flatMap_cons, flatMap_cons, append_eq_append_iff] at same
        -- of two beginnings of one text the shorter begins the longer
        rcases same with ⟨left, begins, goes⟩ | ⟨left, begins, goes⟩
        · exact .inl ⟨[], a, rest, b, others, left, rfl, rfl, heads, begins, goes⟩
        · exact .inr ⟨[], b, others, a, rest, left, rfl, rfl, Ne.symm heads, begins, goes⟩

end Written

variable [BEq α] [LawfulBEq α]

theorem mem_piece {text : List α} {c : α} (inside : c ∈ text) (other : c ≠ sep) :
    ∃ piece ∈ text.splitOn sep, c ∈ piece := by
  have joined : [sep].intercalate (text.splitOn sep) = text := intercalate_splitOn sep
  rw [← joined] at inside
  exact (mem_of_mem_joined inside).resolve_left other

theorem not_mem_piece {text piece : List α} (member : piece ∈ text.splitOn sep) : sep ∉ piece := by
  induction text generalizing piece with
  | nil =>
    cases mem_singleton.mp (splitOn_nil sep ▸ member)
    exact not_mem_nil
  | cons c rest ih =>
    rw [splitOn_cons_eq_if_modifyHead] at member
    split at member
    next =>
      rcases mem_cons.mp member with rfl | later
      · exact not_mem_nil
      · exact ih later
    next other =>
      obtain ⟨head, tail, pieces⟩ := exists_cons_of_ne_nil (splitOn_ne_nil sep rest)
      rw [pieces, modifyHead_cons] at member
      -- the element is put before the first piece of the rest
      rcases mem_cons.mp member with rfl | later
      · rw [mem_cons, not_or]
        exact ⟨fun same => other (by simp [same]), ih (by simp [pieces])⟩
      · exact ih (by simp [pieces, later])

end OpenUltraSast.Joined

/-!
## Pieces around the middle of a list

A list that is cut from alternating ends keeps a piece around its middle. The pieces of all sizes are
nested, and an element is in those of its reach and above.
-/

namespace OpenUltraSast.Centred

open List

variable {α : Type*}

def middle (length : Nat) : Nat := (length - 1) / 2

def start (length size : Nat) : Nat := middle length - size / 2

def piece (items : List α) (size : Nat) : List α :=
  (items.drop (start items.length size)).take size

def reach (length place : Nat) : Nat :=
  if place < middle length then 2 * (middle length - place)
  else min length (2 * (place - middle length) + 1)

theorem start_length (length : Nat) : start length length = 0 := by
  simp only [start, middle]
  omega

variable {size length : Nat}

theorem start_add_le (within : size ≤ length) : start length size + size ≤ length := by
  simp only [start, middle]
  omega

theorem held_iff {length place : Nat} (some_ : 1 ≤ size) (within : size ≤ length)
    (inside : place < length) :
    start length size ≤ place ∧ place < start length size + size ↔ reach length place ≤ size := by
  -- before the middle a piece grows by an even number of elements, behind it by an odd one
  by_cases early : place < middle length
  · rw [reach, if_pos early]
    simp only [start, middle] at *
    omega
  · rw [reach, if_neg early]
    simp only [start, middle] at *
    omega

theorem reach_pos {length place : Nat} (inside : place < length) : 1 ≤ reach length place := by
  rw [reach]
  split <;> omega

theorem reach_le (length place : Nat) : reach length place ≤ length := by
  rw [reach]
  split
  · rw [middle]
    omega
  · exact Nat.min_le_left _ _

variable {items : List α}

theorem length_piece (within : size ≤ items.length) : (piece items size).length = size := by
  have most := start_add_le within
  rw [piece, length_take, length_drop]
  omega

theorem piece_getElem? {i : Nat} (inside : i < size) :
    (piece items size)[i]? = items[start items.length size + i]? := by
  rw [piece, List.getElem?_take_of_lt inside, List.getElem?_drop]

theorem piece_one {place : Nat} (inside : place < items.length) (middle : reach items.length place = 1) :
    piece items 1 = [items[place]] := by
  have held := (held_iff (Nat.le_refl 1) (by omega) inside).mpr middle.le
  have here : start items.length 1 = place := by omega
  rw [piece, here, drop_eq_getElem_cons inside, take_succ_cons, take_zero]

theorem piece_length (items : List α) : piece items items.length = items := by
  rw [piece, start_length, drop_zero, take_length]

/-- Whether the piece of the next smaller size lacks the first element, or the last. -/
def fromFront (length size : Nat) : Prop := size % 2 = 0 ∧ size / 2 ≤ middle length

theorem start_front (front : fromFront length (size + 1)) :
    start length size = start length (size + 1) + 1 := by
  obtain ⟨even, early⟩ := front
  simp only [start, middle] at *
  omega

theorem start_back (back : ¬ fromFront length (size + 1)) :
    start length size = start length (size + 1) := by
  simp only [fromFront, start, middle] at *
  omega

theorem piece_front (front : fromFront items.length (size + 1)) :
    piece items size = (piece items (size + 1)).tail := by
  rw [piece, piece, start_front front, ← drop_one, drop_take, drop_drop]
  rfl

theorem piece_back (within : size + 1 ≤ items.length) (back : ¬ fromFront items.length (size + 1)) :
    piece items size = (piece items (size + 1)).dropLast := by
  rw [dropLast_eq_take, length_piece within, piece, piece, start_back back, take_take]
  congr 1
  omega

theorem piece_sublist {small large : Nat} (order : small ≤ large) (within : large ≤ items.length) :
    (piece items small).Sublist (piece items large) := by
  -- the larger piece is cut at one end or at the other, down to the smaller one
  induction large, order using Nat.le_induction with
  | base => exact List.Sublist.refl _
  | succ size _ ih =>
    refine (ih (by omega)).trans ?_
    by_cases front : fromFront items.length (size + 1)
    · rw [piece_front front]
      exact tail_sublist _
    · rw [piece_back within front]
      exact dropLast_sublist _

end OpenUltraSast.Centred
