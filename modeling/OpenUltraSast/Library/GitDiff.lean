import Mathlib.Data.List.Infix
import OpenUltraSast.Library.LineBreaks

/-!
# Unified diffs

The heads of the hunks of a unified diff, and what the hunks of a diff without context do to the
lines of a file.
-/

namespace UnifiedDiff

/-- The lines of a hunk on one side: the number of the first one, and how many they are. -/
structure Range where
  start : Nat
  count : Nat
deriving DecidableEq

structure Hunk where
  old : Range
  new : Range
deriving DecidableEq

/-- The place of the lines, counted from zero. Of no lines the head names the line before them. -/
def Range.index (range : Range) : Int := if range.count = 0 then range.start else range.start - 1

/-- Where the ASCII characters are among the letters of a text, and which letters are digits. -/
structure Alphabet (α : Type) where
  ascii : Char → α
  digit : α → Option Nat

section Read
variable {α : Type} [DecidableEq α] (letters : Alphabet α)

/-- The digits that a text begins with, and what follows them. -/
def leadingDigits : List α → List Nat × List α
  | [] => ([], [])
  | c :: rest =>
    match letters.digit c with
    | none => ([], c :: rest)
    | some d => (d :: (leadingDigits rest).1, (leadingDigits rest).2)

/-- `(\d+)` and its value. -/
def readNumber (text : List α) : Option (Nat × List α) :=
  match leadingDigits letters text with
  | ([], _) => none
  | (digits, rest) => some (digits.foldl (fun value d => value * 10 + d) 0, rest)

/-- `(\d+)(?:,(\d+))?` after a sign; a count that is left out is one. -/
def readRange (sign : Char) (text : List α) : Option (Range × List α) := do
  let text ← text.dropPrefix? [letters.ascii sign]
  let (start, text) ← readNumber letters text
  match (text.dropPrefix? [letters.ascii ',']).bind (readNumber letters) with
  | some (count, rest) => some (⟨start, count⟩, rest)
  | none => some (⟨start, 1⟩, text)

/-- `^@@ -(\d+)(?:,(\d+))? \+(\d+)(?:,(\d+))? @@` on a line. -/
def readHead (line : List α) : Option Hunk := do
  let text ← line.dropPrefix? ("@@ ".toList.map letters.ascii)
  let (old, text) ← readRange letters '-' text
  let text ← text.dropPrefix? [letters.ascii ' ']
  let (new, text) ← readRange letters '+' text
  let _ ← text.dropPrefix? (" @@".toList.map letters.ascii)
  some ⟨old, new⟩

end Read

section Patch
variable {α : Type} (old new : List α)

/-- The old lines from a place on, with those of every hunk replaced by its new ones. -/
def patched : Nat → List Hunk → List α
  | cursor, [] => old.drop cursor
  | cursor, hunk :: rest =>
    (old.take hunk.old.index.toNat).drop cursor ++
      (new.drop hunk.new.index.toNat).take hunk.new.count ++
      patched (hunk.old.index.toNat + hunk.old.count) rest

end Patch

end UnifiedDiff

/-!
## The text of a diff

How git writes a diff of two trees of text files without context and without renames: for each file
that differs the lines with its name, and for each place where it differs the head of a hunk and the
lines that are removed and added there.
-/

namespace GitDiff

open LineBreaks UnifiedDiff List

abbrev Line := List Char

structure SourceLine where
  text : Line
  ended : Bool
  plain : '\n' ∉ text
deriving DecidableEq

/-- The lines, counted from zero, that are replaced at one place of a file, and the heading of the
hunk. -/
structure Section where
  oldAt : Nat
  oldCount : Nat
  newAt : Nat
  newCount : Nat
  heading : Line := []

/-- The lines of a side as the head of a hunk names them. -/
def rangeOf (start count : Nat) : Range := ⟨if count = 0 then start else start + 1, count⟩

def Section.hunk (s : Section) : Hunk := ⟨rangeOf s.oldAt s.oldCount, rangeOf s.newAt s.newCount⟩

/-- An edit script: the lines that it does not replace are the same on both sides. -/
structure Script (base tip : List SourceLine) where
  sections : List Section
  within : ∀ s ∈ sections,
    s.oldAt + s.oldCount ≤ base.length ∧ s.newAt + s.newCount ≤ tip.length
  changes : ∀ s ∈ sections, s.oldCount ≠ 0 ∨ s.newCount ≠ 0
  headings : ∀ s ∈ sections, '\n' ∉ s.heading
  same : patched base tip 0 (sections.map Section.hunk) = tip

/-- A mode, or the abbreviated ids of two blobs. -/
structure Word where
  text : Line
  plain : ∀ c ∈ text, c.isAlphanum ∨ c = '.'
deriving DecidableEq

/-- A file that differs between two trees; it may be in one of them only. -/
structure Change where
  path : Line
  base : Option (List SourceLine)
  tip : Option (List SourceLine)
  script : Script (base.getD []) (tip.getD [])
  baseMode : Word
  tipMode : Word
  ids : Word
  named : path ≠ []

def quotes (c : Char) : Bool := c.toNat < 32 || c = '"' || c = '\\' || 127 ≤ c.toNat

def escapeByte (byte : Nat) : Line :=
  match byte with
  | 7 => "\\a".toList
  | 8 => "\\b".toList
  | 9 => "\\t".toList
  | 10 => "\\n".toList
  | 11 => "\\v".toList
  | 12 => "\\f".toList
  | 13 => "\\r".toList
  | 34 => "\\\"".toList
  | 92 => "\\\\".toList
  | _ =>
    if byte < 32 || 127 ≤ byte then
      ['\\', Nat.digitChar (byte / 64 % 8), Nat.digitChar (byte / 8 % 8), Nat.digitChar (byte % 8)]
    else [Char.ofNat byte]

def escape (path : Line) : Line :=
  path.flatMap fun c => (String.utf8EncodeChar c).flatMap fun byte => escapeByte byte.toNat

def label (side : Line) (path : Line) : Line :=
  if path.any quotes then '"' :: side ++ escape path ++ ['"'] else side ++ path

/-- The name in a header line: a tab ends one with a blank. -/
def terminated (label : Line) : Line := if ' ' ∈ label then label ++ ['\t'] else label

def rangeText (range : Range) : Line :=
  Nat.toDigits 10 range.start ++ if range.count = 1 then [] else ',' :: Nat.toDigits 10 range.count

def headText (hunk : Hunk) : Line :=
  "@@ -".toList ++ rangeText hunk.old ++ " +".toList ++ rangeText hunk.new ++ " @@".toList

def Section.head (s : Section) : Line :=
  headText s.hunk ++ if s.heading = [] then [] else ' ' :: s.heading

def sideLines (mark : Char) (lines : List SourceLine) : List Line :=
  lines.flatMap fun line =>
    (mark :: line.text) :: if line.ended then [] else ["\\ No newline at end of file".toList]

/-- `lines[start:start + count]`. -/
def linesAt (lines : List SourceLine) (start count : Nat) : List SourceLine :=
  (lines.drop start).take count

namespace Change
variable (f : Change)

def body (s : Section) : List Line :=
  sideLines '-' (linesAt (f.base.getD []) s.oldAt s.oldCount) ++
    sideLines '+' (linesAt (f.tip.getD []) s.newAt s.newCount)

def modeLines : List Line :=
  match f.base, f.tip with
  | none, _ => ["new file mode ".toList ++ f.tipMode.text]
  | some _, none => ["deleted file mode ".toList ++ f.baseMode.text]
  | some _, some _ =>
    if f.baseMode = f.tipMode then []
    else ["old mode ".toList ++ f.baseMode.text, "new mode ".toList ++ f.tipMode.text]

def indexLines : List Line :=
  if f.base = f.tip then []
  else ["index ".toList ++ f.ids.text ++
    if f.base.isSome ∧ f.tip.isSome ∧ f.baseMode = f.tipMode then ' ' :: f.tipMode.text else []]

/-- `/dev/null` stands for a file that is not there. -/
def nameOf (side : Line) (file : Option (List SourceLine)) : Line :=
  if file.isNone then "/dev/null".toList else terminated (label side f.path)

def nameLines : List Line :=
  if f.script.sections = [] then []
  else ["--- ".toList ++ f.nameOf "a/".toList f.base, "+++ ".toList ++ f.nameOf "b/".toList f.tip]

def header : List Line :=
  ("diff --git ".toList ++ label "a/".toList f.path ++ ' ' :: label "b/".toList f.path) ::
    f.modeLines ++ f.indexLines ++ f.nameLines

def lines : List Line := f.header ++ f.script.sections.flatMap fun s => s.head :: f.body s

end Change

def render (files : List Change) : List Char := endEach (files.flatMap Change.lines)

theorem whole_append {front back : Line} (left : Whole front) (right : Whole back) :
    Whole (front ++ back) := fun c member =>
  (mem_append.mp member).elim (left c) (right c)

theorem whole_cons {c : Char} {rest : Line} (first : isLineEnd c = false) (later : Whole rest) :
    Whole (c :: rest) := forall_mem_cons.mpr ⟨first, later⟩

theorem isLineEnd_of_between {c : Char} (low : 32 ≤ c.toNat) (high : c.toNat < 127) :
    isLineEnd c = false := by
  simp [isLineEnd]
  omega

theorem whole_of_alphanum {text : Line} (plain : ∀ c ∈ text, c.isAlphanum ∨ c = '.') :
    Whole text := by
  intro c member
  rcases plain c member with letter | rfl
  · -- letters and digits lie between the zero and the small z
    have letter : ((decide (65 ≤ c.val ∧ c.val ≤ 90) ||
        (decide (97 ≤ c.val) && decide (c.val ≤ 122))) ||
        (decide (48 ≤ c.val) && decide (c.val ≤ 57))) = true := letter
    simp only [Bool.or_eq_true, Bool.and_eq_true, decide_eq_true_eq, UInt32.le_iff_toNat_le] at letter
    have bounds : 48 ≤ c.toNat ∧ c.toNat ≤ 122 := by
      change (65 ≤ c.toNat ∧ c.toNat ≤ 90 ∨ 97 ≤ c.toNat ∧ c.toNat ≤ 122) ∨
        48 ≤ c.toNat ∧ c.toNat ≤ 57 at letter
      omega
    exact isLineEnd_of_between (by omega) (by omega)
  · decide

theorem whole_escapeByte : ∀ byte < 256, Whole (escapeByte byte) := by decide +kernel

theorem whole_escape (path : Line) : Whole (escape path) := by
  intro c member
  obtain ⟨d, -, bytes⟩ := mem_flatMap.mp member
  obtain ⟨byte, -, inside⟩ := mem_flatMap.mp bytes
  exact whole_escapeByte byte.toNat byte.toNat_lt c inside

theorem whole_label {side : Line} (plain : Whole side) (path : Line) : Whole (label side path) := by
  rw [label]
  split
  next =>
    exact whole_append (whole_cons (by decide) (whole_append plain (whole_escape path))) (by decide)
  next bare =>
    -- a name that is not quoted has no control character in it
    refine whole_append plain fun c member => ?_
    have kept : quotes c = false :=
      Bool.not_eq_true _ ▸ fun quoted => bare (any_eq_true.mpr ⟨c, member, quoted⟩)
    simp only [quotes, Bool.or_eq_false_iff, decide_eq_false_iff_not] at kept
    exact isLineEnd_of_between (by omega) (by omega)

theorem whole_terminated {label : Line} (plain : Whole label) : Whole (terminated label) := by
  rw [terminated]
  split
  · exact whole_append plain (by decide)
  · exact plain

theorem whole_digits (n : Nat) : Whole (Nat.toDigits 10 n) :=
  whole_of_alphanum fun c member => by
    have digit := Nat.isDigit_of_mem_toDigits (by decide) (by decide) member
    simp [Char.isAlphanum, digit]

theorem whole_rangeText (range : Range) : Whole (rangeText range) := by
  rw [rangeText]
  split
  · exact whole_append (whole_digits _) (by decide)
  · exact whole_append (whole_digits _) (whole_cons (by decide) (whole_digits _))

theorem whole_headText (hunk : Hunk) : Whole (headText hunk) :=
  whole_append (whole_append (whole_append (whole_append (by decide) (whole_rangeText _))
    (by decide)) (whole_rangeText _)) (by decide)

structure Decimal (letters : Alphabet Char) : Prop where
  ascii : ∀ c, letters.ascii c = c
  digit : ∀ c, c.isDigit → letters.digit c = some (c.toNat - '0'.toNat)
  blank : letters.digit ' ' = none
  comma : letters.digit ',' = none

section Read
variable {letters : Alphabet Char}

theorem leadingDigits_append (decimal : Decimal letters) {digits rest : Line}
    (all : ∀ c ∈ digits, c.isDigit) (ends : ∀ c ∈ rest.head?, letters.digit c = none) :
    leadingDigits letters (digits ++ rest) = (digits.map fun c => c.toNat - '0'.toNat, rest) := by
  induction digits with
  | nil =>
    cases rest with
    | nil => rfl
    | cons c rest => simp [leadingDigits, ends c rfl]
  | cons d digits ih =>
    obtain ⟨first, later⟩ := forall_mem_cons.mp all
    rw [cons_append, leadingDigits, decimal.digit d first, ih later]
    rfl

theorem readNumber_toDigits (decimal : Decimal letters) (n : Nat) {rest : Line}
    (ends : ∀ c ∈ rest.head?, letters.digit c = none) :
    readNumber letters (Nat.toDigits 10 n ++ rest) = some (n, rest) := by
  have all : ∀ c ∈ Nat.toDigits 10 n, c.isDigit := fun c member =>
    Nat.isDigit_of_mem_toDigits (by decide) (by decide) member
  have value : ((Nat.toDigits 10 n).map fun c => c.toNat - '0'.toNat).foldl
      (fun value d => value * 10 + d) 0 = n := by
    -- the reader's loop over the digits is the one of the standard library
    have same := @Nat.ofDigitChars_ten_toDigits n
    rw [Nat.ofDigitChars_eq_foldl] at same
    rw [foldl_map]
    simpa only [Nat.mul_comm 10] using same
  rw [readNumber, leadingDigits_append decimal all ends]
  obtain ⟨d, digits, here⟩ := exists_cons_of_ne_nil (Nat.toDigits_ne_nil (n := n) (b := 10))
  rw [here] at value ⊢
  simpa using value

theorem dropPrefix?_append (front rest : Line) : (front ++ rest).dropPrefix? front = some rest :=
  List.dropPrefix?_eq_some_iff.mpr ⟨front, rfl, beq_self_eq_true front⟩

theorem readRange_rangeText (decimal : Decimal letters) (sign : Char) (range : Range) (rest : Line) :
    readRange letters sign (sign :: rangeText range ++ ' ' :: rest) = some (range, ' ' :: rest) := by
  have ends : ∀ c ∈ (' ' :: rest : Line).head?, letters.digit c = none := by
    rintro c ⟨⟩
    exact decimal.blank
  have mark : (sign :: rangeText range ++ ' ' :: rest).dropPrefix? [letters.ascii sign] =
      some (rangeText range ++ ' ' :: rest) := by
    rw [decimal.ascii]
    exact dropPrefix?_append [sign] _
  rw [readRange, mark, Option.bind_eq_bind, Option.bind_some, rangeText]
  obtain ⟨start, count⟩ := range
  -- a count of one is left out, and the reader puts it back
  by_cases one : count = 1
  · subst one
    rw [if_pos rfl, append_nil, readNumber_toDigits decimal start ends]
    simp [decimal.ascii, List.dropPrefix?]
  · have comma : ∀ c ∈ (',' :: (Nat.toDigits 10 count ++ ' ' :: rest)).head?,
        letters.digit c = none := by
      rintro c ⟨⟩
      exact decimal.comma
    rw [if_neg one, append_assoc, cons_append, readNumber_toDigits decimal start comma]
    simp [decimal.ascii, List.dropPrefix?, readNumber_toDigits decimal count ends]

/-- The head of a hunk is read back from its text. -/
theorem readHead_headText (decimal : Decimal letters) (hunk : Hunk) (rest : Line) :
    readHead letters (headText hunk ++ rest) = some hunk := by
  have ascii : ∀ text : Line, text.map letters.ascii = text := fun text =>
    (map_congr_left fun c _ => decimal.ascii c).trans (map_id text)
  have text : headText hunk ++ rest = "@@ ".toList ++ ('-' :: rangeText hunk.old ++ ' ' ::
      ('+' :: rangeText hunk.new ++ ' ' :: ("@@".toList ++ rest))) := by
    simp [headText]
  have blank (more : Line) : (' ' :: more).dropPrefix? [letters.ascii ' '] = some more := by
    rw [decimal.ascii]
    exact dropPrefix?_append [' '] more
  have marks : (' ' :: ("@@".toList ++ rest)).dropPrefix? (" @@".toList.map letters.ascii) =
      some rest := by
    rw [ascii]
    exact dropPrefix?_append " @@".toList rest
  rw [readHead, text, ascii, dropPrefix?_append]
  simp only [Option.bind_eq_bind, Option.bind_some, readRange_rangeText decimal, blank, marks]

end Read

end GitDiff
