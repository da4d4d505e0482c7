import Mathlib.Computability.Primrec.List
import OpenUltraSast.Cpg.Attempts
import OpenUltraSast.Cpg.Documents

/-!
# What the engine prints

A line for each answer between the fences, with what the engine logs on lines of its own, and the
output cut at some place. The documents that are read from what came out are those of the answers
whose lines came out in full and that no line end splits.
-/

namespace OpenUltraSast.Cpg

open Values JsonReader JsonWriter JsonShape List
open LineBreaks (isLineEnd)

/-- The reader of the language: `json` with what a number's text stands for. -/
def jsonReader (float : List Char → ℚ) (repr : Json → String) (int : String → Option Int) :
    Reader where
  loads := JsonReader.loads float
  rawDecode := JsonReader.rawDecode float
  repr := repr
  int := int

/-- A number as it is printed: without a fraction where it has none. -/
def numberJson (value : ℚ) : Json := if value.den = 1 then .int value.num else .float value

def Streamed.fields (s : Streamed) : Fields :=
  [(streamId, .str s.id), (streamRows, .arr s.rows), ("ms", numberJson s.ms)]

def Streamed.strings (s : Streamed) : List String := s.id :: textsItems s.rows

inductive Item where
  | answer (s : Streamed)
  | log (text : List Char)

def Item.answers : Item → List Streamed
  | .answer s => [s]
  | .log _ => []

section Printing

variable (decimal : ℚ → List Char)

def Streamed.text (s : Streamed) : List Char := write decimal (.obj s.fields)

def Item.text : Item → List Char
  | .answer s => s.text decimal
  | .log text => text

/-- The whole output of a streamed batch. -/
def printed (items : List Item) : List Char :=
  beginMark ++ '\n' ::
    (items.flatMap (fun item => item.text decimal ++ ['\n']) ++ (endMark ++ ['\n']))

/-- The answers whose lines are complete in the first characters behind the opening fence. -/
def completedIn : List Item → Nat → List Streamed
  | [], _ => []
  | item :: items, n =>
    if (item.text decimal).length ≤ n then
      item.answers ++ completedIn items (n - ((item.text decimal).length + 1))
    else []

/-- The answers whose lines were printed completely when the output is cut after `n` characters. -/
def completed (items : List Item) (n : Nat) : List Streamed :=
  completedIn decimal items (n - (beginMark.length + 1))

def fenceClosed (items : List Item) (n : Nat) : Bool := (printed decimal items).length ≤ n + 1

def Streamed.unbroken (s : Streamed) : Bool := (s.text decimal).all fun c => !isLineEnd c

end Printing

variable {decimal : ℚ → List Char} {float : List Char → ℚ} {r : Reader}

/-- A line whose document is read back, or none of whose lines looks like a document. -/
def Item.Fine (decimal : ℚ → List Char) (float : List Char → ℚ) : Item → Prop
  | .answer s => PlainItems decimal float s.rows ∧ Plain decimal float (numberJson s.ms)
  | .log text => quiet text = true

theorem plain_fields {s : Streamed} (fine : (Item.answer s).Fine decimal float) :
    Plain decimal float (.obj s.fields) := by
  have keys : (Dicts.keys s.fields).Nodup := by
    have names : [streamId, streamRows, "ms"].Nodup := by decide
    exact names
  rw [Plain]
  refine ⟨keys, ?_⟩
  simp [Streamed.fields, PlainFields, Plain, fine.1, fine.2]

theorem number_numberJson (value : ℚ) : (numberJson value).number = some value := by
  rw [numberJson]
  split
  next whole => rw [Json.number, Rat.coe_int_num_of_den_eq_one whole]
  next => rfl

theorem numberJson_ne_bool (value : ℚ) (other : Bool) : numberJson value ≠ .bool other := by
  rw [numberJson]
  split <;> nofun

private theorem counts_fields (s : Streamed) : counts s.fields = true := by
  simp [counts, Streamed.fields, streamId, streamRows, List.lookup]

theorem exists_text (s : Streamed) : ∃ inner, s.text decimal = '\x7b' :: (inner ++ ['\x7d']) := by
  rw [Streamed.text, write]
  exact ⟨_, rfl⟩

private theorem documents_text {s : Streamed} (fine : (Item.answer s).Fine decimal float)
    (loads_ : r.loads = JsonReader.loads float) :
    (documents r (s.text decimal)).filter counts =
      if s.unbroken decimal then [s.fields] else [] := by
  have plain := plain_fields fine
  split
  next whole =>
    have one : ∀ c ∈ s.text decimal, isLineEnd c = false := by
      intro c member
      simpa using all_eq_true.mp whole c member
    obtain ⟨inner, spelled⟩ := @exists_text decimal s
    have stripped : strip (s.text decimal) = s.text decimal := by
      rw [spelled]
      exact strip_of_ends (by decide) (by decide)
    have reads : documentOf r (s.text decimal) = some s.fields := by
      rw [documentOf, stripped, loads_, Streamed.text, loads_write plain, ← Streamed.text, spelled]
      rfl
    rw [documents, documentsFrom_line one, nil_append, reads]
    simp [counts_fields]
  next broken =>
    rw [filter_eq_nil_iff]
    have split_ : ∃ c ∈ s.text decimal, isLineEnd c = true := by
      simpa [Streamed.unbroken] using broken
    intro document member
    rw [documents_broken loads_ plain (append_nil _) (.inr split_) document member]
    decide

private theorem documents_item {item : Item} (fine : item.Fine decimal float)
    (loads_ : r.loads = JsonReader.loads float) :
    (documents r (item.text decimal)).filter counts =
      (item.answers.filter (Streamed.unbroken decimal)).map Streamed.fields := by
  cases item with
  | answer s =>
    rw [Item.text, documents_text fine loads_, Item.answers, filter_cons]
    split <;> rfl
  | log text =>
    rw [Item.text, documents, documentsFrom_quiet fine]
    rfl

private theorem documents_cut {item : Item} (fine : item.Fine decimal float)
    (loads_ : r.loads = JsonReader.loads float) {n : Nat} (cut : n < (item.text decimal).length) :
    (documents r ((item.text decimal).take n)).filter counts = [] := by
  have whole := take_append_drop n (item.text decimal)
  cases item with
  | answer s =>
    rw [filter_eq_nil_iff]
    intro document member
    have left : (s.text decimal).drop n ≠ [] := by
      rw [ne_eq, drop_eq_nil_iff]
      exact Nat.not_le.mpr cut
    rw [documents_broken loads_ (plain_fields fine) whole (.inl left) document member]
    decide
  | log text =>
    have is : quietFrom [] (text.take n ++ text.drop n) = true := by
      rw [take_append_drop]
      exact fine
    rw [Item.text, documents, documentsFrom_quiet (quietFrom_of_append is)]
    rfl

section Cut

variable (decimal)

def lineFeeds (items : List Item) : List Char :=
  items.flatMap fun item => '\n' :: item.text decimal

/-- What is printed behind the last line. -/
def closing : List Char := '\n' :: (endMark ++ ['\n'])

variable {decimal}

theorem lineFeeds_cons (item : Item) (items : List Item) :
    lineFeeds decimal (item :: items) =
      '\n' :: (item.text decimal ++ lineFeeds decimal items) := rfl

theorem documents_feed (text : List Char) : documents r ('\n' :: text) = documents r text := by
  have ends : isLineEnd '\n' = true := by decide
  rw [documents, documentsFrom_end ends, documentOf_nil]
  rfl

theorem printed_eq (items : List Item) :
    printed decimal items = beginMark ++ (lineFeeds decimal items ++ closing) := by
  have shifted (rest : List Char) :
      '\n' :: (items.flatMap (fun item => item.text decimal ++ ['\n']) ++ rest) =
        lineFeeds decimal items ++ '\n' :: rest := by
    induction items with
    | nil => rfl
    | cons item items ih =>
      rw [flatMap_cons, append_assoc, append_assoc, singleton_append, ih,
        lineFeeds_cons, cons_append, append_assoc]
  rw [printed, shifted, closing]

private theorem closing_quiet : quiet closing = true := by decide +kernel

theorem completedIn_zero (items : List Item) : completedIn decimal items 0 = [] := by
  induction items with
  | nil => rfl
  | cons item items ih =>
    rw [completedIn]
    split
    next short =>
      cases item with
      | answer s =>
        obtain ⟨inner, spelled⟩ := @exists_text decimal s
        rw [Item.text, spelled] at short
        exact absurd short (by simp)
      | log text => rw [Nat.zero_sub, ih]; rfl
    next => rfl

private theorem documents_append_feed {front rest : List Char}
    (feed : rest = [] ∨ ∃ more, rest = '\n' :: more) :
    documents r (front ++ rest) = documents r front ++ documents r rest := by
  have ends : isLineEnd '\n' = true := by decide
  rcases feed with rfl | ⟨more, rfl⟩
  · rw [append_nil]
    exact (append_nil _).symm
  · rw [documents, documentsFrom_append ends, documents_feed]
    rfl

private theorem take_feed {text : List Char} (feed : ∃ more, text = '\n' :: more) (n : Nat) :
    text.take n = [] ∨ ∃ more, text.take n = '\n' :: more := by
  obtain ⟨more, rfl⟩ := feed
  cases n with
  | zero => exact .inl rfl
  | succ n => exact .inr ⟨more.take n, rfl⟩

private theorem lineFeeds_feed (items : List Item) :
    ∃ more, lineFeeds decimal items ++ closing = '\n' :: more := by
  cases items with
  | nil => exact ⟨_, rfl⟩
  | cons item items => exact ⟨_, rfl⟩

variable {items : List Item}

theorem documents_take (fine : ∀ item ∈ items, item.Fine decimal float)
    (loads_ : r.loads = JsonReader.loads float) (n : Nat) :
    (documents r ((lineFeeds decimal items ++ closing).take n)).filter counts =
      ((completedIn decimal items (n - 1)).filter (Streamed.unbroken decimal)).map
        Streamed.fields := by
  induction items generalizing n with
  | nil =>
    have is : quietFrom [] (closing.take n ++ closing.drop n) = true := by
      rw [take_append_drop]
      exact closing_quiet
    rw [lineFeeds, flatMap_nil, nil_append, documents,
      documentsFrom_quiet (quietFrom_of_append is)]
    rfl
  | cons item items ih =>
    rw [forall_mem_cons] at fine
    cases n with
    | zero =>
      rw [completedIn_zero]
      rfl
    | succ n =>
      have spelled : lineFeeds decimal (item :: items) ++ closing =
          '\n' :: (item.text decimal ++ (lineFeeds decimal items ++ closing)) := by
        rw [lineFeeds_cons, cons_append, append_assoc]
      rw [spelled, take_succ_cons, documents_feed, completedIn, Nat.add_sub_cancel]
      split
      next complete =>
        -- the line is whole, and the rest is cut somewhere
        have later := ih fine.2 (n - (item.text decimal).length)
        rw [Nat.sub_sub] at later
        rw [take_append, take_of_length_le complete,
          documents_append_feed (take_feed (lineFeeds_feed items) _), filter_append, later,
          documents_item fine.1 loads_, filter_append, map_append]
      next cut =>
        have short : n < (item.text decimal).length := Nat.lt_of_not_le cut
        rw [take_append_of_le_length short.le, documents_cut fine.1 loads_ short]
        rfl

theorem completedIn_all {n : Nat}
    (all : (lineFeeds decimal items).length ≤ n + 1) :
    completedIn decimal items n = items.flatMap Item.answers := by
  induction items generalizing n with
  | nil => rfl
  | cons item items ih =>
    rw [lineFeeds_cons, length_cons, length_append] at all
    rw [completedIn, flatMap_cons, if_pos (by omega), ih (by omega)]

theorem completedIn_sublist (items : List Item) (n : Nat) :
    (completedIn decimal items n).Sublist (items.flatMap Item.answers) := by
  induction items generalizing n with
  | nil => exact List.Sublist.refl _
  | cons item items ih =>
    rw [completedIn, flatMap_cons]
    split
    · exact (List.Sublist.refl _).append (ih _)
    · exact nil_sublist _

end Cut

end OpenUltraSast.Cpg
