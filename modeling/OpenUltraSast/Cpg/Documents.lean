import Mathlib.Data.List.TakeWhile
import OpenUltraSast.Cpg.Payload
import OpenUltraSast.Library.JsonShape

/-!
# The documents of a text

Which documents the lines of a text hold, read from the line that has not ended yet and what comes
after it.
-/

namespace OpenUltraSast.Cpg

open Values List Option
open LineBreaks (isLineEnd)

variable {r : Reader}

variable {c : Char} {blank text line : List Char}

theorem isSpace_of_lineEnd (ends : isLineEnd c = true) : Text.isSpace c = true := by
  simp only [isLineEnd, Text.isSpace, Bool.or_eq_true, Bool.and_eq_true,
    decide_eq_true_eq] at ends ⊢
  omega

def Blank (text : List Char) : Prop := ∀ c ∈ text, Text.isSpace c = true

private theorem strip_blank_append (is : Blank blank) (text : List Char) :
    strip (blank ++ text) = strip text := by
  rw [strip, dropWhile_append_of_pos is, ← strip]

private theorem dropWhile_reverse_append (is : Blank blank) (text : List Char) :
    ((text ++ blank).reverse.dropWhile Text.isSpace).reverse =
      (text.reverse.dropWhile Text.isSpace).reverse := by
  have reversed : ∀ c ∈ blank.reverse, Text.isSpace c = true :=
    fun c member => is c (mem_reverse.mp member)
  rw [reverse_append, dropWhile_append_of_pos reversed]

theorem strip_append_blank (is : Blank blank) (text : List Char) :
    strip (text ++ blank) = strip text := by
  rw [strip, strip, dropWhile_append]
  split
  next none_ =>
    rw [List.isEmpty_iff] at none_
    rw [none_, dropWhile_eq_nil_iff.mpr is]
  next => exact dropWhile_reverse_append is _

theorem strip_append_trail (text : List Char) :
    strip text ++ ((text.dropWhile Text.isSpace).reverse.takeWhile Text.isSpace).reverse =
      text.dropWhile Text.isSpace := by
  rw [strip, ← reverse_append, takeWhile_append_dropWhile, reverse_reverse]

theorem exists_strip (text : List Char) :
    ∃ lead trail, Blank lead ∧ Blank trail ∧ text = lead ++ strip text ++ trail := by
  refine ⟨text.takeWhile Text.isSpace,
    ((text.dropWhile Text.isSpace).reverse.takeWhile Text.isSpace).reverse, ?_, ?_, ?_⟩
  · exact all_eq_true.mp all_takeWhile
  · intro c member
    exact all_eq_true.mp all_takeWhile c (mem_reverse.mp member)
  · rw [append_assoc, strip_append_trail, takeWhile_append_dropWhile]

theorem strip_of_ends {first last : Char} (begins : Text.isSpace first = false)
    (ends : Text.isSpace last = false) :
    strip (first :: (text ++ [last])) = first :: (text ++ [last]) := by
  rw [strip, dropWhile_cons_of_neg (by simp [begins])]
  have reversed : (first :: (text ++ [last])).reverse = last :: (text.reverse ++ [first]) := by simp
  rw [reversed, dropWhile_cons_of_neg (by simp [ends])]
  simp

theorem documentOf_strip {a b : List Char} (same : strip a = strip b) :
    documentOf r a = documentOf r b := by
  rw [documentOf, documentOf, same]

@[simp] theorem documentOf_nil : documentOf r [] = none := rfl

variable (r)

def documentsFrom (line : List Char) : List Char → List Fields
  | [] => (documentOf r line).toList
  | c :: text =>
    if isLineEnd c then (documentOf r line).toList ++ documentsFrom [] text
    else documentsFrom (line ++ [c]) text

def documents (text : List Char) : List Fields := documentsFrom r [] text

variable {r}

theorem documentsFrom_nil (line : List Char) :
    documentsFrom r line [] = (documentOf r line).toList := rfl

theorem documentsFrom_end (ends : isLineEnd c = true) (line text : List Char) :
    documentsFrom r line (c :: text) = (documentOf r line).toList ++ documents r text := if_pos ends

theorem documentsFrom_inner (inner : ¬ isLineEnd c = true) (line text : List Char) :
    documentsFrom r line (c :: text) = documentsFrom r (line ++ [c]) text := if_neg inner

private theorem filterMap_splitLinesFrom (line text : List Char) :
    (splitLinesFrom line text).filterMap (documentOf r) = documentsFrom r line text := by
  fun_induction splitLinesFrom line text with
  | case1 => rfl
  | case2 line _ =>
    rw [documentsFrom_nil, filterMap_cons]
    cases documentOf r line <;> rfl
  | case3 line rest ih =>
    have blank : Blank ['\r', '\n'] := Collections.forall_mem_of_all (by decide)
    have same := documentOf_strip (r := r) (strip_append_blank blank line)
    have carriage : isLineEnd '\r' = true := by decide
    have feed : isLineEnd '\n' = true := by decide
    rw [documentsFrom_end carriage, documents, documentsFrom_end feed, documentOf_nil, documents,
      filterMap_cons, same, ih]
    cases documentOf r line <;> rfl
  | case4 line c rest _ ends ih =>
    have blank : Blank [c] := by
      intro d member
      rw [mem_singleton.mp member]
      exact isSpace_of_lineEnd ends
    have same := documentOf_strip (r := r) (strip_append_blank blank line)
    rw [documentsFrom_end ends, documents, filterMap_cons, same, ih]
    cases documentOf r line <;> rfl
  | case5 line c rest _ inner ih => rw [documentsFrom_inner inner, ih]

theorem documents_eq (text : List Char) :
    (splitLines text).filterMap (documentOf r) = documents r text :=
  filterMap_splitLinesFrom [] text

theorem documentsFrom_append (ends : isLineEnd c = true) (line front rest : List Char) :
    documentsFrom r line (front ++ c :: rest) = documentsFrom r line front ++ documents r rest := by
  induction front generalizing line with
  | nil => exact documentsFrom_end ends line rest
  | cons d front ih =>
    rw [cons_append]
    by_cases here : isLineEnd d = true
    · rw [documentsFrom_end here, documentsFrom_end here, documents, ih, append_assoc]
      rfl
    · rw [documentsFrom_inner here, documentsFrom_inner here, ih]

private theorem documentsFrom_blank (is : Blank blank) (line text : List Char) :
    documentsFrom r (blank ++ line) text = documentsFrom r line text := by
  have same (line : List Char) := documentOf_strip (r := r) (strip_blank_append is line)
  induction text generalizing line with
  | nil => rw [documentsFrom_nil, documentsFrom_nil, same]
  | cons c text ih =>
    by_cases ends : isLineEnd c = true
    · rw [documentsFrom_end ends, documentsFrom_end ends, same]
    · rw [documentsFrom_inner ends, documentsFrom_inner ends, append_assoc, ih]

theorem Blank.of_cons (is : Blank (c :: text)) : Blank [c] ∧ Blank text := by
  constructor
  · intro d member
    rw [mem_singleton.mp member]
    exact is c mem_cons_self
  · exact fun d member => is d (mem_cons_of_mem _ member)

private theorem documents_blank_append (is : Blank blank) (text : List Char) :
    documents r (blank ++ text) = documents r text := by
  induction blank with
  | nil => rfl
  | cons c blank ih =>
    obtain ⟨first, later⟩ := is.of_cons
    rw [cons_append, documents]
    by_cases ends : isLineEnd c = true
    · rw [documentsFrom_end ends, documentOf_nil, ih later]
      rfl
    · have same := documentsFrom_blank (r := r) first [] (blank ++ text)
      rw [documentsFrom_inner ends]
      exact same.trans (ih later)

private theorem documentsFrom_of_blank (is : Blank blank) (line : List Char) :
    documentsFrom r line blank = (documentOf r line).toList := by
  induction blank generalizing line with
  | nil => rfl
  | cons c blank ih =>
    obtain ⟨first, later⟩ := is.of_cons
    by_cases ends : isLineEnd c = true
    · rw [documentsFrom_end ends, documents, ih later, documentOf_nil]
      simp
    · rw [documentsFrom_inner ends, ih later, documentOf_strip (strip_append_blank first line)]

private theorem documentsFrom_append_blank (is : Blank blank) (line text : List Char) :
    documentsFrom r line (text ++ blank) = documentsFrom r line text := by
  induction text generalizing line with
  | nil => exact documentsFrom_of_blank is line
  | cons c text ih =>
    rw [cons_append]
    by_cases ends : isLineEnd c = true
    · rw [documentsFrom_end ends, documentsFrom_end ends, documents, ih]
      rfl
    · rw [documentsFrom_inner ends, documentsFrom_inner ends, ih]

theorem documents_strip (text : List Char) : documents r (strip text) = documents r text := by
  obtain ⟨lead, trail, before, after, whole⟩ := exists_strip text
  have first := documents_blank_append (r := r) before (strip text ++ trail)
  have last := documentsFrom_append_blank (r := r) after [] (strip text)
  rw [append_assoc] at whole
  rw [← whole] at first
  rw [first]
  exact last.symm

def counts (document : Fields) : Bool :=
  Dicts.keys document = [censusKey] ||
    ((document.lookup streamId).isSome && (document.lookup streamRows).isSome)

variable {document : Fields}

private theorem add_of_not_counts (idle : counts document = false) (s : Stream) :
    s.add r document = s := by
  rw [counts, Bool.or_eq_false_iff, decide_eq_false_iff_not] at idle
  rw [Stream.add, if_neg idle.1]
  split
  next named rowed =>
    rw [named, rowed] at idle
    cases idle.2
  next => rfl

theorem foldl_add_counts (documents : List Fields) (s : Stream) :
    documents.foldl (Stream.add r) s = (documents.filter counts).foldl (Stream.add r) s := by
  induction documents generalizing s with
  | nil => rfl
  | cons document documents ih =>
    rw [foldl_cons, ih]
    cases idle : counts document with
    | true => rw [filter_cons_of_pos idle, foldl_cons]
    | false =>
      rw [filter_cons_of_neg (by simp [idle]), add_of_not_counts idle]

variable {more : List Char}

section Json

open JsonReader JsonWriter JsonShape

variable {decimal : ℚ → List Char} {float : List Char → ℚ}

theorem documentOf_eq_some (reads : documentOf r line = some document) :
    r.loads (strip line) = some (.obj document) := by
  rw [documentOf] at reads
  split at reads
  · split at reads
    next found =>
      cases reads
      exact found
    next => cases reads
  · cases reads

theorem isStrange_of_lineEnd (ends : isLineEnd c = true) : isStrange c = true := by
  apply isStrange_of_range
  simp only [isLineEnd, Bool.or_eq_true, Bool.and_eq_true, decide_eq_true_eq] at ends
  omega

private theorem isSpace_plain (space : Text.isSpace c = true) : c ≠ '"' ∧ c ≠ '\\' := by
  constructor <;> (rintro rfl; exact absurd space (by decide))

theorem shaped_strip (shape : shaped true line = true) : shaped true (strip line) = true := by
  obtain ⟨lead, trail, before, after, whole⟩ := exists_strip line
  rw [whole, append_assoc,
    shaped_inside fun c member => isSpace_plain (before c member)] at shape
  exact shaped_of_append shape

variable (loads_ : r.loads = JsonReader.loads float)

include loads_ in
theorem not_counts_of_inside (shape : shaped true line = true)
    (reads : documentOf r line = some document) : counts document = false := by
  have found := documentOf_eq_some reads
  rw [loads_] at found
  have keys := keys_of_inside (shaped_strip shape) found
  have unnamed : streamId ∉ Dicts.keys document := fun member => absurd (keys _ member) (by decide)
  have noCensus : Dicts.keys document ≠ [censusKey] := by
    intro same
    exact absurd (keys censusKey (same ▸ mem_cons_self)) (by decide)
  simp [counts, noCensus, Dicts.lookup_eq_none_iff.mpr unnamed]

include loads_ in
private theorem documents_inside (shape : shaped true (line ++ text) = true) :
    ∀ document ∈ documentsFrom r line text, counts document = false := by
  induction text generalizing line with
  | nil =>
    rw [append_nil] at shape
    intro document member
    exact not_counts_of_inside loads_ shape (mem_toList.mp member)
  | cons c text ih =>
    by_cases ends : isLineEnd c = true
    · rw [documentsFrom_end ends, forall_mem_append]
      constructor
      · intro document member
        exact not_counts_of_inside loads_ (shaped_of_append shape) (mem_toList.mp member)
      · apply ih
        exact shaped_behind (isStrange_of_lineEnd ends) shape
    · rw [documentsFrom_inner ends]
      apply ih
      rwa [append_assoc, singleton_append]

theorem documentsFrom_line (whole : ∀ c ∈ text, isLineEnd c = false) (line : List Char) :
    documentsFrom r line text = (documentOf r (line ++ text)).toList := by
  induction text generalizing line with
  | nil => rw [documentsFrom_nil, append_nil]
  | cons c text ih =>
    rw [forall_mem_cons] at whole
    rw [documentsFrom_inner (by simp [whole.1]), ih whole.2, append_assoc,
      singleton_append]

variable {fields : Fields}

include loads_ in
/-- A document that is cut short cannot be read. -/
theorem documentOf_cut (plain : Plain decimal float (.obj fields)) (cut : more ≠ [])
    (whole : text ++ more = write decimal (.obj fields)) : documentOf r text = none := by
  cases text with
  | nil => rfl
  | cons c text =>
    have brace : c = '\x7b' := by
      rw [write, cons_append] at whole
      exact (List.cons.inj whole).1
    obtain ⟨lead, trail, before, _, stripped⟩ := exists_strip (c :: text)
    have start : lead = [] := by
      cases lead with
      | nil => rfl
      | cons d lead =>
        rw [append_assoc, cons_append, List.cons.injEq] at stripped
        have space := before d mem_cons_self
        rw [← stripped.1, brace] at space
        exact absurd space (by decide)
    rw [eq_none_iff_forall_ne_some]
    intro document reads
    have found := documentOf_eq_some reads
    rw [start, nil_append] at stripped
    rw [stripped, append_assoc] at whole
    rw [loads_, loads_of_prefix plain (by simp [cut]) whole] at found
    cases found

include loads_ in
/-- An object that is cut, or that a line end splits, holds nothing that a stream takes up. -/
theorem documents_broken (plain : Plain decimal float (.obj fields))
    (whole : text ++ more = write decimal (.obj fields))
    (broken : more ≠ [] ∨ ∃ c ∈ text, isLineEnd c = true) :
    ∀ document ∈ documents r text, counts document = false := by
  have shape : shaped false (text ++ more) = true := by
    have closed := shaped_write (.obj fields) [] plain
    rw [append_nil, ← whole] at closed
    rw [closed]
    rfl
  by_cases one : ∀ c ∈ text, isLineEnd c = false
  · have cut : more ≠ [] := by
      rcases broken with cut | ⟨c, member, ends⟩
      · exact cut
      · rw [one c member] at ends
        cases ends
    rw [documents, documentsFrom_line one, nil_append,
      documentOf_cut loads_ plain cut whole]
    nofun
  · -- the part before the first line end is cut, and what is behind it starts inside a string
    obtain ⟨front, c, rest, rfl, before, ends⟩ :
        ∃ front c rest, text = front ++ c :: rest ∧ (∀ d ∈ front, isLineEnd d = false) ∧
          isLineEnd c = true := by
      obtain ⟨c, found⟩ : ∃ c, text.find? isLineEnd = some c := by
        rw [← isSome_iff_exists, List.find?_isSome]
        simpa using one
      obtain ⟨ends, front, rest, rfl, before⟩ := List.find?_eq_some_iff_append.mp found
      exact ⟨front, c, rest, rfl, fun d member => by simpa using before d member, ends⟩
    have first : documents r front = [] := by
      rw [documents, documentsFrom_line before, nil_append]
      rw [append_assoc] at whole
      rw [documentOf_cut loads_ plain (by simp) whole]
      rfl
    rw [documents, documentsFrom_append ends, ← documents, first, nil_append]
    rw [append_assoc, cons_append] at shape
    have inside := shaped_of_append (shaped_behind (isStrange_of_lineEnd ends) shape)
    exact documents_inside loads_ inside

end Json

def braceless (line : List Char) : Bool := !(['\x7b'].isPrefixOf (line.dropWhile Text.isSpace))

/-- No line of a text starts with a brace, after blanks; `line` is what is before the text. -/
def quietFrom (line : List Char) : List Char → Bool
  | [] => braceless line
  | c :: text =>
    if isLineEnd c then braceless line && quietFrom [] text else quietFrom (line ++ [c]) text

def quiet (text : List Char) : Bool := quietFrom [] text

theorem quietFrom_end (ends : isLineEnd c = true) (line text : List Char) :
    quietFrom line (c :: text) = (braceless line && quiet text) := if_pos ends

theorem quietFrom_inner (inner : ¬ isLineEnd c = true) (line text : List Char) :
    quietFrom line (c :: text) = quietFrom (line ++ [c]) text := if_neg inner

private theorem braceless_of_append (is : braceless (line ++ more) = true) :
    braceless line = true := by
  rw [braceless, Bool.not_eq_true', ← Bool.not_eq_true, isPrefixOf_iff_prefix] at is ⊢
  intro starts
  apply is
  rw [dropWhile_append]
  split
  next none_ =>
    rw [List.isEmpty_iff] at none_
    rw [none_] at starts
    cases prefix_nil.mp starts
  next => exact starts.trans (prefix_append _ _)

theorem braceless_of_quietFrom (is : quietFrom line text = true) : braceless line = true := by
  induction text generalizing line with
  | nil => exact is
  | cons c text ih =>
    by_cases ends : isLineEnd c = true
    · rw [quietFrom_end ends, Bool.and_eq_true] at is
      exact is.1
    · rw [quietFrom_inner ends] at is
      exact braceless_of_append (ih is)

variable {front rest : List Char}

theorem quietFrom_of_append (is : quietFrom line (front ++ rest) = true) :
    quietFrom line front = true := by
  induction front generalizing line with
  | nil => exact braceless_of_quietFrom is
  | cons c front ih =>
    rw [cons_append] at is
    by_cases ends : isLineEnd c = true
    · rw [quietFrom_end ends, Bool.and_eq_true] at is ⊢
      exact ⟨is.1, ih is.2⟩
    · rw [quietFrom_inner ends] at is ⊢
      exact ih is

theorem documentOf_braceless (is : braceless line = true) : documentOf r line = none := by
  rw [documentOf, if_neg]
  intro starts
  rw [braceless, Bool.not_eq_true', ← Bool.not_eq_true, isPrefixOf_iff_prefix] at is
  rw [ isPrefixOf_iff_prefix] at starts
  apply is
  -- stripping the end leaves a start of the line
  exact starts.trans ⟨_, strip_append_trail line⟩

theorem documentsFrom_quiet (is : quietFrom line text = true) : documentsFrom r line text = [] := by
  induction text generalizing line with
  | nil =>
    rw [documentsFrom_nil, documentOf_braceless is]
    rfl
  | cons c text ih =>
    by_cases ends : isLineEnd c = true
    · rw [quietFrom_end ends, Bool.and_eq_true] at is
      rw [documentsFrom_end ends, documentOf_braceless is.1, documents, ih is.2]
      rfl
    · rw [quietFrom_inner ends] at is
      rw [documentsFrom_inner ends, ih is]

variable (r)

def attempt (line rest : List Char) : Option Json :=
  let opened := line.dropWhile Text.isSpace
  if ['\x7b'].isPrefixOf opened || ['['].isPrefixOf opened then r.rawDecode (opened ++ rest)
  else none

/-- `_decoded_json`, with the line before the text that has not ended. -/
def decodes (line : List Char) : List Char → Option Json
  | [] => attempt r line []
  | c :: text =>
    if isLineEnd c then (attempt r line (c :: text)).or (decodes [] text)
    else decodes (line ++ [c]) text

variable {r}

theorem flatten_splitLinesFrom (line text : List Char) :
    (splitLinesFrom line text).flatten = line ++ text := by
  fun_induction splitLinesFrom line text with
  | case1 => rfl
  | case2 => simp
  | case3 line rest ih => simp [ih]
  | case4 line c rest _ _ ih => simp [ih]
  | case5 line c rest _ _ ih => simp [ih]

theorem attempt_append (is : Blank blank) (line rest : List Char) :
    attempt r (line ++ blank) rest = attempt r line (blank ++ rest) := by
  rw [attempt, attempt, dropWhile_append]
  split
  next none_ =>
    rw [List.isEmpty_iff] at none_
    rw [none_, dropWhile_eq_nil_iff.mpr is]
    rfl
  next filled =>
    obtain ⟨c, opened, head⟩ := exists_cons_of_ne_nil
      fun none_ : line.dropWhile Text.isSpace = [] => filled (by rw [none_]; rfl)
    rw [head]
    simp [List.isPrefixOf]

private theorem decodedFrom_splitLinesFrom (line text : List Char) :
    decodedFrom r (splitLinesFrom line text) = decodes r line text := by
  have first (line rest : List Char) (others : List (List Char)) (flat : others.flatten = rest) :
      decodedFrom r (line :: others) = (attempt r line rest).or (decodedFrom r others) := by
    rw [decodedFrom, attempt, flat]
    split
    · rfl
    · rw [none_or]
  fun_induction splitLinesFrom line text with
  | case1 => rfl
  | case2 line filled =>
    rw [first line [] [] rfl]
    exact or_none
  | case3 line rest ih =>
    have blank : Blank ['\r', '\n'] := Collections.forall_mem_of_all (by decide)
    have carriage : isLineEnd '\r' = true := by decide
    have feed : isLineEnd '\n' = true := by decide
    rw [first _ rest _ (flatten_splitLinesFrom [] rest), attempt_append blank, decodes,
      if_pos carriage, decodes, if_pos feed, ih]
    rfl
  | case4 line c rest _ ends ih =>
    have blank : Blank [c] := by
      intro d member
      rw [mem_singleton.mp member]
      exact isSpace_of_lineEnd ends
    rw [first _ rest _ (flatten_splitLinesFrom [] rest), attempt_append blank, decodes,
      if_pos ends, ih]
    rfl
  | case5 line c rest _ inner ih => rw [decodes, if_neg inner, ih]

theorem decodedJson_eq (text : List Char) : decodedJson r text = decodes r [] text :=
  decodedFrom_splitLinesFrom [] text

theorem decodes_end (ends : isLineEnd c = true) (line text : List Char) :
    decodes r line (c :: text) = (attempt r line (c :: text)).or (decodes r [] text) := if_pos ends

theorem decodes_inner (inner : ¬ isLineEnd c = true) (line text : List Char) :
    decodes r line (c :: text) = decodes r (line ++ [c]) text := if_neg inner

theorem attempt_blank_append (is : Blank blank) (line rest : List Char) :
    attempt r (blank ++ line) rest = attempt r line rest := by
  rw [attempt, attempt, dropWhile_append_of_pos is]

private theorem decodes_blank (is : Blank blank) (line text : List Char) :
    decodes r (blank ++ line) text = decodes r line text := by
  induction text generalizing line with
  | nil => exact attempt_blank_append is line []
  | cons c text ih =>
    by_cases ends : isLineEnd c = true
    · rw [decodes_end ends, decodes_end ends, attempt_blank_append is]
    · rw [decodes_inner ends, decodes_inner ends, append_assoc, ih]

theorem decodes_blank_append (is : Blank blank) (text : List Char) :
    decodes r [] (blank ++ text) = decodes r [] text := by
  induction blank with
  | nil => rfl
  | cons c blank ih =>
    obtain ⟨first, later⟩ := is.of_cons
    rw [cons_append]
    by_cases ends : isLineEnd c = true
    · rw [decodes_end ends, ih later]
      rfl
    · have same := decodes_blank (r := r) first [] (blank ++ text)
      rw [decodes_inner ends]
      exact same.trans (ih later)

variable {value : Json}

theorem decodes_brace {line text : List Char}
    (read : r.rawDecode ('\x7b' :: (line ++ text)) = some value) :
    decodes r ('\x7b' :: line) text = some value := by
  have here {line text : List Char} (read : r.rawDecode ('\x7b' :: (line ++ text)) = some value) :
      attempt r ('\x7b' :: line) text = some value := by
    rw [attempt, dropWhile_cons_of_neg (by decide)]
    exact read
  induction text generalizing line with
  | nil => exact here read
  | cons c text ih =>
    by_cases ends : isLineEnd c = true
    · rw [decodes_end ends, here read]
      rfl
    · rw [decodes_inner ends]
      apply @ih (line ++ [c])
      rwa [append_assoc]

section Json

variable {float : List Char → ℚ} (raw : r.rawDecode = JsonReader.rawDecode float)

include raw in
theorem attempt_braceless {rest : List Char} (is : braceless line = true)
    (found : attempt r line rest = some value) : ∃ items, value = .arr items := by
  rw [braceless, Bool.not_eq_true'] at is
  rw [attempt, is, Bool.false_or] at found
  split at found
  next starts =>
    obtain ⟨more, whole⟩ := isPrefixOf_iff_prefix.mp starts
    rw [← whole, raw] at found
    exact JsonReader.rawDecode_list found
  next => cases found

include raw in
theorem decodes_quiet (is : quietFrom line text = true)
    (found : decodes r line text = some value) : ∃ items, value = .arr items := by
  induction text generalizing line with
  | nil => exact attempt_braceless raw is found
  | cons c text ih =>
    by_cases ends : isLineEnd c = true
    · rw [quietFrom_end ends, Bool.and_eq_true] at is
      rw [decodes_end ends] at found
      rcases or_eq_some_iff.mp found with here | ⟨_, later⟩
      · exact attempt_braceless raw is.1 here
      · exact ih is.2 later
    · rw [quietFrom_inner ends] at is
      rw [decodes_inner ends] at found
      exact ih is found

include raw in
theorem decodes_quiet_append (is : quietFrom line front = true)
    (ends : isLineEnd c = true) (found : decodes r line (front ++ c :: rest) = some value) :
    (∃ items, value = .arr items) ∨ decodes r [] rest = some value := by
  induction front generalizing line with
  | nil =>
    rw [nil_append, decodes_end ends] at found
    rcases or_eq_some_iff.mp found with here | ⟨_, later⟩
    · exact .inl (attempt_braceless raw is here)
    · exact .inr later
  | cons d front ih =>
    rw [cons_append] at found
    by_cases here : isLineEnd d = true
    · rw [quietFrom_end here, Bool.and_eq_true] at is
      rw [decodes_end here] at found
      rcases or_eq_some_iff.mp found with first | ⟨_, later⟩
      · exact .inl (attempt_braceless raw is.1 first)
      · exact ih is.2 later
    · rw [quietFrom_inner here] at is
      rw [decodes_inner here] at found
      exact ih is found

end Json

end OpenUltraSast.Cpg
