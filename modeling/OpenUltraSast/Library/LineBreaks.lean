import Mathlib.Data.List.Basic
import Mathlib.Data.List.TakeWhile

/-!
# Line breaks

A text is split at more characters than the line feed. A line that ends with a line feed is split on
its own, whatever follows it.
-/

namespace LineBreaks

open List

/-- The characters that `str.splitlines` ends a line at. -/
def isLineEnd (c : Char) : Bool :=
  (10 ≤ c.toNat && c.toNat ≤ 13) || (28 ≤ c.toNat && c.toNat ≤ 30) || c.toNat = 133 ||
    c.toNat = 8232 || c.toNat = 8233

def splitFrom (line : List Char) : List Char → List (List Char)
  | [] => if line = [] then [] else [line]
  | '\r' :: '\n' :: rest => line :: splitFrom [] rest
  | c :: rest => if isLineEnd c then line :: splitFrom [] rest else splitFrom (line ++ [c]) rest

def splitlines (text : List Char) : List (List Char) := splitFrom [] text

def pieces (line : List Char) : List (List Char) := splitlines (line ++ ['\n'])

def endEach (lines : List (List Char)) : List Char := lines.flatMap (· ++ ['\n'])

def Whole (line : List Char) : Prop := ∀ c ∈ line, isLineEnd c = false

instance (line : List Char) : Decidable (Whole line) := List.decidableBAll _ line

theorem splitFrom_end {c : Char} (ends : isLineEnd c) (line rest : List Char)
    (single : c = '\r' → rest.head? ≠ some '\n') :
    splitFrom line (c :: rest) = line :: splitFrom [] rest := by
  rw [splitFrom, if_pos ends]
  rintro tail rfl rfl
  exact single rfl rfl

theorem splitFrom_other {c : Char} (inside : isLineEnd c = false) (line rest : List Char) :
    splitFrom line (c :: rest) = splitFrom (line ++ [c]) rest := by
  rw [splitFrom, if_neg (by simp [inside])]
  rintro tail rfl rfl
  exact absurd inside (by decide)

theorem splitFrom_append (text rest : List Char) :
    ∀ line, splitFrom line (text ++ '\n' :: rest) =
      splitFrom line (text ++ ['\n']) ++ splitFrom [] rest := by
  intro line
  induction line, text using splitFrom.induct with
  | case1 | case2 =>
    rw [nil_append, nil_append]
    rw [splitFrom_end (by decide) _ _ (fun same => absurd same (by decide)),
      splitFrom_end (by decide) _ _ (fun same => absurd same (by decide))]
    rfl
  | case3 line text ih =>
    -- a carriage return and its line feed are one break
    rw [cons_append, cons_append, splitFrom, ih, cons_append, cons_append,
      splitFrom, cons_append]
  | case4 line c text apart ends ih =>
    -- a break of its own, unless a line feed follows a carriage return
    have single (more : List Char) : text ≠ [] → c = '\r' → (text ++ more).head? ≠ some '\n' := by
      intro some_ same feed
      obtain ⟨d, tail, rfl⟩ := exists_cons_of_ne_nil some_
      exact apart tail same (by cases feed; rfl)
    rcases eq_or_ne text [] with rfl | some_
    · -- the line feed may belong to a carriage return
      by_cases return_ : c = '\r'
      · subst return_
        rw [singleton_append, splitFrom, singleton_append, splitFrom, cons_append]
        rfl
      · have single (more : List Char) : c = '\r' → ('\n' :: more).head? ≠ some '\n' :=
          fun same => absurd same return_
        have feed (more : List Char) : splitFrom [] ('\n' :: more) = [] :: splitFrom [] more :=
          splitFrom_end (by decide) _ _ fun same => absurd same (by decide)
        rw [singleton_append, splitFrom_end ends _ _ (single rest), singleton_append,
          splitFrom_end ends _ _ (single []), feed, feed]
        rfl
    · rw [cons_append, splitFrom_end ends _ _ (single _ some_), ih, cons_append,
        splitFrom_end ends _ _ (single _ some_), cons_append]
  | case5 line c text apart other ih =>
    have inside : isLineEnd c = false := by simpa using other
    rw [cons_append, splitFrom_other inside, ih, cons_append, splitFrom_other inside]

theorem splitlines_append (line rest : List Char) :
    splitlines (line ++ '\n' :: rest) = pieces line ++ splitlines rest :=
  splitFrom_append line rest []

theorem splitlines_endEach (lines : List (List Char)) :
    splitlines (endEach lines) = lines.flatMap pieces := by
  induction lines with
  | nil => rfl
  | cons line rest ih =>
    rw [endEach, flatMap_cons, append_assoc, singleton_append, splitlines_append,
      ← endEach, ih, flatMap_cons]

theorem splitFrom_whole {text : List Char} (whole : Whole text) (rest : List Char) :
    ∀ line, splitFrom line (text ++ rest) = splitFrom (line ++ text) rest := by
  induction text with
  | nil => intro line; rw [append_nil, nil_append]
  | cons c text ih =>
    intro line
    have tail : Whole text := fun d member => whole d (mem_cons_of_mem _ member)
    rw [cons_append, splitFrom_other (whole c mem_cons_self), ih tail,
      append_assoc, singleton_append]

theorem pieces_whole {line : List Char} (whole : Whole line) : pieces line = [line] := by
  rw [pieces, splitlines, splitFrom_whole whole, nil_append]
  rfl

theorem splitFrom_begun (front text : List Char) :
    ∀ line, ∃ head tail, splitFrom line (text ++ ['\n']) = head :: tail ∧
      splitFrom (front ++ line) (text ++ ['\n']) = (front ++ head) :: tail := by
  intro line
  induction line, text using splitFrom.induct with
  | case1 | case2 => exact ⟨_, [], rfl, rfl⟩
  | case3 line text ih =>
    rw [cons_append, cons_append, splitFrom, splitFrom]
    exact ⟨_, _, rfl, rfl⟩
  | case4 line c text apart ends ih =>
    rcases eq_or_ne text [] with rfl | some_
    · by_cases return_ : c = '\r'
      · subst return_
        exact ⟨_, _, rfl, rfl⟩
      · have single : c = '\r' → (['\n'] : List Char).head? ≠ some '\n' :=
          fun same => absurd same return_
        rw [singleton_append, splitFrom_end ends _ _ single, splitFrom_end ends _ _ single]
        exact ⟨_, _, rfl, rfl⟩
    · have single : c = '\r' → (text ++ ['\n']).head? ≠ some '\n' := by
        intro same feed
        obtain ⟨d, tail, rfl⟩ := exists_cons_of_ne_nil some_
        exact apart tail same (by cases feed; rfl)
      rw [cons_append, splitFrom_end ends _ _ single, splitFrom_end ends _ _ single]
      exact ⟨_, _, rfl, rfl⟩
  | case5 line c text apart other ih =>
    have inside : isLineEnd c = false := by simpa using other
    rw [cons_append, splitFrom_other inside, splitFrom_other inside, append_assoc]
    exact ih

theorem pieces_append {front : List Char} (whole : Whole front) (text : List Char) :
    ∃ head tail, pieces text = head :: tail ∧ pieces (front ++ text) = (front ++ head) :: tail := by
  rw [pieces, pieces, splitlines, splitlines, append_assoc, splitFrom_whole whole]
  obtain ⟨head, tail, plain, begun⟩ := splitFrom_begun front text []
  exact ⟨head, tail, plain, by simpa using begun⟩

end LineBreaks

/-!
## Text files

The text that a file of bytes is read as: UTF-8, with every end of a line turned to a line feed.
-/

namespace TextFiles

open List

def encode (text : List Char) : ByteArray := (String.ofList text).toByteArray

def decode (bytes : ByteArray) : Option (List Char) := bytes.utf8Decode?.map Array.toList

theorem encode_eq (text : List Char) : encode text = text.utf8Encode := rfl

@[simp] theorem decode_encode (text : List Char) : decode (encode text) = some text := by
  simp [decode, encode_eq]

@[simp] theorem decode_empty : decode .empty = some [] := decode_encode []

theorem decode_cons (c : Char) (bytes : ByteArray) :
    decode ([c].utf8Encode ++ bytes) = (decode bytes).map (c :: ·) := by
  rw [decode, ByteArray.utf8Decode?_utf8Encode_singleton_append, decode, Option.map_map,
    Option.map_map]
  congr 1
  funext rest
  simp

theorem decode_append (text : List Char) (bytes : ByteArray) :
    decode (encode text ++ bytes) = (decode bytes).map (text ++ ·) := by
  rw [encode_eq]
  induction text with
  | nil => simp
  | cons c text ih =>
    have split : (c :: text).utf8Encode = [c].utf8Encode ++ text.utf8Encode := by
      rw [← utf8Encode_append, singleton_append]
    rw [split, ByteArray.append_assoc, decode_cons, ih, Option.map_map]
    rfl

def newlines : List Char → List Char
  | [] => []
  | '\r' :: '\n' :: rest => '\n' :: newlines rest
  | c :: rest => (if c = '\r' then '\n' else c) :: newlines rest

variable {text : List Char}

theorem newlines_append (plain : '\r' ∉ text) (rest : List Char) :
    newlines (text ++ rest) = text ++ newlines rest := by
  induction text with
  | nil => rfl
  | cons c text ih =>
    rw [mem_cons, not_or] at plain
    have other : c ≠ '\r' := fun same => plain.1 same.symm
    rw [cons_append, newlines, if_neg other, ih plain.2, cons_append]
    intro rest' same
    exact absurd same other

theorem not_mem_newlines (text : List Char) : '\r' ∉ newlines text := by
  fun_induction newlines text with
  | case1 => exact not_mem_nil
  | case2 rest ih => simpa using ih
  | case3 c rest _ ih =>
    rw [mem_cons, not_or]
    refine ⟨?_, ih⟩
    split
    next => decide
    next other => exact fun same => other same.symm

theorem newlines_eq_iff : newlines text = text ↔ '\r' ∉ text := by
  constructor
  · intro same
    rw [← same]
    exact not_mem_newlines text
  · intro plain
    simpa [newlines] using newlines_append plain []

def readText (bytes : ByteArray) : Option (List Char) := (decode bytes).map newlines

theorem readText_append (plain : '\r' ∉ text) (bytes : ByteArray) :
    readText (encode text ++ bytes) = (readText bytes).map (text ++ ·) := by
  rw [readText, decode_append, Option.map_map, readText, Option.map_map]
  congr 1
  funext rest
  exact newlines_append plain rest

/-- `text.partition("\n")`, without the separator. -/
def partition (text : List Char) : List Char × List Char :=
  (text.takeWhile (· ≠ '\n'), (text.dropWhile (· ≠ '\n')).drop 1)

theorem partition_line {line : List Char} (whole : '\n' ∉ line) (rest : List Char) :
    partition (line ++ '\n' :: rest) = (line, rest) := by
  have kept : ∀ c ∈ line, decide (c ≠ '\n') = true := by
    intro c member
    simpa using fun same : c = '\n' => whole (same ▸ member)
  rw [partition, takeWhile_append_of_pos kept, dropWhile_append_of_pos kept]
  simp

theorem partition_of_no_line (whole : '\n' ∉ text) : partition text = (text, []) := by
  have kept : ∀ c ∈ text, decide (c ≠ '\n') = true := by
    intro c member
    simpa using fun same : c = '\n' => whole (same ▸ member)
  rw [partition, takeWhile_eq_self_iff.mpr kept, dropWhile_eq_nil_iff.mpr kept,
    drop_nil]

end TextFiles
