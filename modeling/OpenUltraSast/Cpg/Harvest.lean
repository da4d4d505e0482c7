import OpenUltraSast.Cpg.Printed

/-!
# The harvest of a printed stream

What `extract_payload` returns for the output of a streamed batch that was cut at some place. The
entries of the complete lines come back unchanged, unless a string of one of them has a character
that ends a line for the reader and not for the printer.
-/

namespace OpenUltraSast.Cpg

open Values JsonReader JsonWriter JsonShape List
open LineBreaks (isLineEnd)

variable {decimal : ℚ → List Char} {float : List Char → ℚ} {r : Reader}

private theorem isMark_endMark : IsMark endMark where
  chars := Collections.forall_mem_of_all (by decide)
  apart := ⟨'O', by decide, by decide⟩

variable {part text : List Char}

theorem not_infix_of_length (short : text.length < part.length) :
    ¬ part <:+: text := fun inside => absurd inside.length_le (Nat.not_le.mpr short)

theorem find_eq_none (filled : part ≠ []) (absent : ¬ part <:+: text) :
    find part text = none := by
  induction text with
  | nil => exact if_neg filled
  | cons c text ih =>
    rw [infix_cons_iff, not_or] at absent
    rw [find, if_neg, ih absent.2]
    · rfl
    · rw [ isPrefixOf_iff_prefix]
      exact absent.1

theorem find_self (part rest : List Char) (filled : part ≠ []) :
    find part (part ++ rest) = some 0 := by
  obtain ⟨c, more, rfl⟩ := exists_cons_of_ne_nil filled
  exact if_pos ( isPrefixOf_iff_prefix.mpr (prefix_append _ _))

private theorem find_append {part front rest : List Char} {c : Char} (filled : part ≠ [])
    (other : c ∉ part) (absent : ¬ part <:+: front) :
    find part (front ++ c :: (part ++ rest)) = some (front.length + 1) := by
  induction front with
  | nil =>
    rw [nil_append, find, if_neg, find_self part rest filled]
    · rfl
    · rw [ isPrefixOf_iff_prefix]
      intro starts
      have inside : part <+: [] := @prefix_of_append_cons part c [] _ other starts
      exact filled (prefix_nil.mp inside)
  | cons d front ih =>
    rw [infix_cons_iff, not_or] at absent
    rw [cons_append, find, if_neg, ih absent.2]
    · rfl
    · rw [ isPrefixOf_iff_prefix]
      intro starts
      exact absent.1 (@prefix_of_append_cons part c (d :: front) _ other starts)

/-- A line that is read back and has no fence in it. -/
def Item.Printable (decimal : ℚ → List Char) (float : List Char → ℚ) (item : Item) : Prop :=
  item.Fine decimal float ∧
    match item with
    | .answer s => ∀ text ∈ s.strings, ¬ beginMark <:+: text.toList ∧ ¬ endMark <:+: text.toList
    | .log text => ¬ endMark <:+: text

private theorem texts_numberJson (value : ℚ) : JsonShape.texts (numberJson value) = [] := by
  rw [numberJson]
  split <;> rfl

theorem texts_fields (s : Streamed) :
    JsonShape.texts (.obj s.fields) =
      [streamId, s.id, streamRows] ++ (textsItems s.rows ++ ["ms"]) := by
  simp [Streamed.fields, JsonShape.texts, textsFields, texts_numberJson]

private theorem no_fence {item : Item} (printable : item.Printable decimal float) :
    ¬ endMark <:+: item.text decimal := by
  obtain ⟨fine, marks⟩ := printable
  cases item with
  | log text => exact marks
  | answer s =>
    rw [Item.text, Streamed.text, isMark_endMark.infix_write_iff _ (plain_fields fine),
      texts_fields]
    rintro ⟨text, member, inside⟩
    simp only [mem_append, mem_cons, not_mem_nil, or_false] at member
    rcases member with (rfl | rfl | rfl) | inner | rfl
    · exact not_infix_of_length (by decide) inside
    · exact (marks s.id mem_cons_self).2 inside
    · exact not_infix_of_length (by decide) inside
    · exact (marks text (mem_cons_of_mem _ inner)).2 inside
    · exact not_infix_of_length (by decide) inside

variable {items : List Item} {s : Streamed} {given : List Streamed}

theorem no_fence_lines (printable : ∀ item ∈ items, item.Printable decimal float) {front : List Char}
    (before : ¬ endMark <:+: front) : ¬ endMark <:+: front ++ lineFeeds decimal items := by
  induction items generalizing front with
  | nil =>
    rw [lineFeeds, flatMap_nil, append_nil]
    exact before
  | cons item items ih =>
    rw [forall_mem_cons] at printable
    rw [lineFeeds_cons, infix_append_cons_iff (by decide), not_or]
    exact ⟨before, ih printable.2 (no_fence printable.1)⟩

theorem length_printed (items : List Item) :
    (printed decimal items).length =
      beginMark.length + (lineFeeds decimal items).length + endMark.length + 2 := by
  rw [printed_eq, closing]
  simp only [length_append, length_cons, length_nil]
  omega

theorem drop_beginMark (rest : List Char) :
    (beginMark ++ rest).drop (0 + 1) = beginMark.drop 1 ++ rest := rfl

theorem fenced_open {rest : List Char} (absent : ¬ endMark <:+: beginMark.drop 1 ++ rest) :
    fenced (beginMark ++ rest) = some (strip rest, false) := by
  have none_ := find_eq_none (by decide) absent
  rw [fenced, find_self beginMark rest (by decide)]
  simp only [Option.bind_eq_bind, Option.bind_some, drop_beginMark, none_, Option.map_none,
    Nat.zero_add, drop_left]

private theorem fenced_closed {inner rest : List Char} {c : Char} (other : c ∉ endMark)
    (absent : ¬ endMark <:+: beginMark.drop 1 ++ inner) :
    fenced (beginMark ++ (inner ++ c :: (endMark ++ rest))) =
      some (strip (inner ++ [c]), true) := by
  have found : find endMark (beginMark.drop 1 ++ (inner ++ c :: (endMark ++ rest))) =
      some ((beginMark.drop 1 ++ inner).length + 1) := by
    rw [← append_assoc]
    exact find_append (by decide) other absent
  have stop : (beginMark.drop 1 ++ inner).length + 1 + (0 + 1) =
      (beginMark ++ (inner ++ [c])).length := by
    simp only [length_append, length_drop, length_cons, length_nil]
    have long : 1 ≤ beginMark.length := by decide
    omega
  have whole : beginMark ++ (inner ++ c :: (endMark ++ rest)) =
      (beginMark ++ (inner ++ [c])) ++ (endMark ++ rest) := by simp
  rw [fenced, find_self beginMark _ (by decide)]
  simp only [Option.bind_eq_bind, Option.bind_some, drop_beginMark, found, Option.map_some, stop,
    Nat.zero_add]
  rw [whole, take_left, drop_left]

/-- The part of the output that is between the fences, or behind the one that came. -/
theorem fenced_printed (printable : ∀ item ∈ items, item.Printable decimal float) {n : Nat}
    (opened : beginMark.length ≤ n) :
    ∃ m, fenced ((printed decimal items).take n) =
        some (strip ((lineFeeds decimal items ++ closing).take m), fenceClosed decimal items n) ∧
      completedIn decimal items (m - 1) = completed decimal items n ∧
      (fenceClosed decimal items n = true → m = (lineFeeds decimal items).length + 1) := by
  have head : ¬ endMark <:+: beginMark.drop 1 := by decide
  have absent := no_fence_lines printable head
  have feed : '\n' ∉ endMark := by decide
  have size := @length_printed decimal items
  have cut : (printed decimal items).take n =
      beginMark ++ (lineFeeds decimal items ++ closing).take (n - beginMark.length) := by
    rw [printed_eq, take_append, take_of_length_le opened]
  cases whole : fenceClosed decimal items n with
  | false =>
    rw [fenceClosed, decide_eq_false_iff_not, size] at whole
    refine ⟨n - beginMark.length, ?_, ?_, nofun⟩
    · -- what came out is part of the lines and a fence without its last character
      have short : (lineFeeds decimal items ++ closing).take (n - beginMark.length) =
          (lineFeeds decimal items ++ '\n' :: endMark.dropLast).take (n - beginMark.length) := by
        have spelled : lineFeeds decimal items ++ closing =
            (lineFeeds decimal items ++ '\n' :: endMark.dropLast) ++ ['-', '\n'] := by
          rw [append_assoc]
          rfl
        rw [spelled, take_append_of_le_length]
        have last : endMark.dropLast.length = endMark.length - 1 := length_dropLast
        rw [length_append, length_cons]
        omega
      rw [cut, fenced_open]
      rw [short]
      intro inside
      have longer : endMark <:+: beginMark.drop 1 ++ (lineFeeds decimal items ++
          '\n' :: endMark.dropLast) :=
        inside.trans ((prefix_append_right_inj _).mpr ( take_prefix _ _)).isInfix
      rw [← append_assoc, infix_append_cons_iff feed] at longer
      exact longer.elim absent (not_infix_of_length (by decide))
    · rw [completed, Nat.sub_sub]
  | true =>
    rw [fenceClosed, decide_eq_true_iff, size] at whole
    refine ⟨(lineFeeds decimal items).length + 1, ?_, ?_, fun _ => rfl⟩
    · have inner :
          (lineFeeds decimal items ++ closing).take ((lineFeeds decimal items).length + 1) =
            lineFeeds decimal items ++ ['\n'] := by
        rw [take_length_add_append]
        rfl
      obtain ⟨more, rest⟩ : ∃ more,
          (lineFeeds decimal items ++ closing).take (n - beginMark.length) =
            lineFeeds decimal items ++ '\n' :: (endMark ++ more) := by
        have spelled : lineFeeds decimal items ++ closing =
            (lineFeeds decimal items ++ '\n' :: endMark) ++ ['\n'] := by
          rw [append_assoc]
          rfl
        have long : (lineFeeds decimal items ++ '\n' :: endMark).length ≤ n - beginMark.length := by
          rw [length_append, length_cons]
          omega
        rw [spelled, take_append, take_of_length_le long, append_assoc,
          cons_append]
        exact ⟨_, rfl⟩
      rw [cut, rest, fenced_closed feed absent, inner]
    · rw [completed, completedIn_all (by omega), completedIn_all (by omega)]

/-- The entries of some answers under their ids, their costs in order, and the mark of a stream
that broke off. -/
structure Harvested (answers : Fields) (given : List Streamed) (closed : Bool) : Prop where
  entries : ∀ id, id ∉ reserved →
    answers.lookup id = (given.find? fun s => s.id = id).map fun s => .arr s.rows
  costs : answers.lookup timingKey =
    if given = [] then none else some (.arr (given.map Streamed.cost))
  noCensus : answers.lookup censusKey = none
  mark : answers.lookup partialKey = if closed then none else some (.bool true)

def streamOf (r : Reader) (given : List Streamed) : Stream :=
  (given.map Streamed.fields).foldl (Stream.add r) {}

private theorem line_fields : s.Line r s.fields where
  named := ⟨.str s.id, rfl, rfl⟩
  held := rfl
  timed := number_numberJson s.ms
  isNumber := numberJson_ne_bool s.ms

theorem add_fields (s : Streamed) (before : Stream) :
    before.add r s.fields =
      ⟨addCost r (Dicts.set before.answers s.id (.arr s.rows)) (.str s.id) (numberJson s.ms),
        true⟩ := by
  have named : Dicts.keys s.fields ≠ [censusKey] := by
    intro same
    have size := congrArg List.length same
    cases size
  rw [Stream.add, if_neg named]
  rfl

private theorem lookup_addCost {answers : Fields} {id cost : Json} {key : String}
    (other : key ≠ timingKey) :
    (addCost r answers id cost).lookup key = answers.lookup key := by
  unfold addCost
  split
  · rfl
  · rfl
  · split
    · rw [Dicts.lookup_set, if_neg other]
    · rw [Dicts.lookup_set, if_neg other]
    · rfl

theorem lookup_foldl_fields {key : String} (other : key ≠ timingKey) (absent : ∀ s ∈ given, s.id ≠ key)
    (before : Stream) :
    ((given.map Streamed.fields).foldl (Stream.add r) before).answers.lookup key =
      before.answers.lookup key := by
  induction given generalizing before with
  | nil => rfl
  | cons s given ih =>
    rw [forall_mem_cons] at absent
    rw [map_cons, foldl_cons, ih absent.2, add_fields, lookup_addCost other,
      Dicts.lookup_set, if_neg absent.1.symm]

theorem saw_streamOf (given : List Streamed) : (streamOf r given).saw = !given.isEmpty := by
  have keeps (given : List Streamed) (before : Stream) (saw : before.saw = true) :
      ((given.map Streamed.fields).foldl (Stream.add r) before).saw = true := by
    induction given generalizing before with
    | nil => exact saw
    | cons s given ih =>
      rw [map_cons, foldl_cons]
      apply ih
      rw [add_fields]
  cases given with
  | nil => rfl
  | cons s given =>
    rw [streamOf, map_cons, foldl_cons]
    exact keeps given _ (by rw [add_fields])

theorem prints_fields (given : List Streamed) : Prints r (given.map Streamed.fields) given := by
  induction given with
  | nil => exact .nothing
  | cons s given ih => exact .answer line_fields ih

/-- What is returned for a body whose documents are those of some answers. -/
def assembled (r : Reader) (given : List Streamed) (closed : Bool) : Fields :=
  if closed then (streamOf r given).answers
  else Dicts.set (streamOf r given).answers partialKey (.bool true)

/-- An assembled stream has its rows and costs, and a mark where it was left open. -/
theorem harvested_assembled (free : ∀ s ∈ given, s.id ∉ reserved) (distinct : (given.map (·.id)).Nodup)
    (closed : Bool) : Harvested (assembled r given closed) given closed := by
  have held : Holds ([] ++ given) (streamOf r given).answers :=
    (prints_fields given).holds .nothing free distinct
  have unset (key : String) (taken : key ∈ reserved) (other : key ≠ timingKey) :
      (streamOf r given).answers.lookup key = none := by
    rw [streamOf, lookup_foldl_fields other]
    · rfl
    · rintro s member rfl
      exact free s member taken
  have noCensus := unset censusKey (by decide) (by decide)
  have noMark := unset partialKey (by decide) (by decide)
  cases closed with
  | true => exact ⟨held.rows, held.costs, noCensus, noMark⟩
  | false =>
    have marked : Holds ([] ++ given)
        (Dicts.set (streamOf r given).answers partialKey (.bool true)) :=
      held.set_reserved (by decide) (by decide) _
    refine ⟨marked.rows, marked.costs, ?_, ?_⟩
    · rw [assembled, if_neg (by decide), Dicts.lookup_set, if_neg (by decide), noCensus]
    · rw [assembled, if_neg (by decide), Dicts.lookup_set, if_pos rfl]
      rfl

private theorem streamed_eq {body : List Char}
    (read : (documents r body).filter counts = given.map Streamed.fields) (closed : Bool) :
    streamed r body closed = if given = [] then none else some (assembled r given closed) := by
  rw [streamed, documents_eq, foldl_add_counts, read, ← streamOf, saw_streamOf]
  cases given with
  | nil => rfl
  | cons s given => cases closed <;> rfl

theorem decodes_answer {s : Streamed} (fine : (Item.answer s).Fine decimal float)
    (raw : r.rawDecode = JsonReader.rawDecode float) {rest : List Char} (ends : Ends rest) :
    decodes r [] (s.text decimal ++ rest) = some (.obj s.fields) := by
  have read : r.rawDecode (s.text decimal ++ rest) = some (.obj s.fields) := by
    rw [raw]
    exact rawDecode_write (plain_fields fine) ends
  obtain ⟨inner, spelled⟩ := @exists_text decimal s
  rw [spelled, cons_append] at read ⊢
  rw [decodes_inner (by decide)]
  exact @decodes_brace r _ [] _ read

theorem ends_of_feed {text trail more : List Char} (feed : text ++ trail = '\n' :: more) :
    Ends text := by
  intro c head
  cases text with
  | nil => cases head
  | cons d text =>
    rw [cons_append, List.cons.injEq] at feed
    cases head
    rw [feed.1]
    decide

private theorem decodes_lines (fine : ∀ item ∈ items, item.Fine decimal float)
    (raw : r.rawDecode = JsonReader.rawDecode float) {text trail : List Char} (blank : Blank trail)
    (whole : text ++ trail = lineFeeds decimal items ++ ['\n']) {fields : Fields}
    (found : decodes r [] text = some (.obj fields)) :
    ∃ s ∈ items.flatMap Item.answers, fields = s.fields := by
  have ends : isLineEnd '\n' = true := by decide
  have feed (text : List Char) : decodes r [] ('\n' :: text) = decodes r [] text :=
    decodes_end ends [] text
  have quiet_ {text more : List Char} (is : quiet (text ++ more) = true) :
      decodes r [] text ≠ some (.obj fields) := by
    intro found
    obtain ⟨_, same⟩ := decodes_quiet raw (quietFrom_of_append is) found
    cases same
  induction items generalizing text with
  | nil =>
    have is : quiet (text ++ trail) = true := by
      rw [whole, lineFeeds, flatMap_nil]
      decide
    exact absurd found (quiet_ is)
  | cons item items ih =>
    rw [forall_mem_cons] at fine
    rw [flatMap_cons]
    cases text with
    | nil => cases found
    | cons c text =>
      rw [lineFeeds_cons, cons_append, cons_append, List.cons.injEq, append_assoc]
        at whole
      obtain ⟨rfl, whole⟩ := whole
      rw [feed] at found
      -- the text ends within the line, or goes on behind it
      rcases append_eq_append_iff.mp whole with ⟨left, line, rfl⟩ | ⟨rest, rfl, later⟩
      · cases item with
        | log logged =>
          rw [Item.text] at line
          have is : quiet (text ++ left) = true := by
            rw [← line]
            exact fine.1
          exact absurd found (quiet_ is)
        | answer s =>
          -- the last character of the line is no blank
          have all : left = [] := by
            rcases eq_nil_or_concat left with none_ | ⟨front, last, rfl⟩
            · exact none_
            · obtain ⟨inner, spelled⟩ := @exists_text decimal s
              rw [Item.text, spelled, ← cons_append, concat_eq_append,
                ← append_assoc] at line
              have same := append_inj_right' line rfl
              have space := blank last (by simp)
              rw [← (List.cons.inj same).1] at space
              exact absurd space (by decide)
          rw [all, append_nil, Item.text] at line
          have decoded := @decodes_answer decimal float r s fine.1 raw [] (by simp [Ends])
          rw [append_nil, line, found] at decoded
          cases decoded
          exact ⟨s, mem_append_left _ mem_cons_self, rfl⟩
      · obtain ⟨more, begun⟩ : ∃ more, lineFeeds decimal items ++ ['\n'] = '\n' :: more := by
          cases items with
          | nil => exact ⟨_, rfl⟩
          | cons item items => exact ⟨_, rfl⟩
        cases item with
        | answer s =>
          rw [Item.text, decodes_answer fine.1 raw (ends_of_feed (later.symm.trans begun))] at found
          cases found
          exact ⟨s, mem_append_left _ mem_cons_self, rfl⟩
        | log logged =>
          rw [Item.text] at found
          cases rest with
          | nil =>
            rw [append_nil] at found
            have is : quiet (logged ++ []) = true := by
              rw [append_nil]
              exact fine.1
            exact absurd found (quiet_ is)
          | cons d rest =>
            have next_ : d = '\n' := by
              rw [begun, cons_append, List.cons.injEq] at later
              exact later.1.symm
            rw [next_] at found later
            rcases decodes_quiet_append raw fine.1 ends found with ⟨_, same⟩ | further
            · cases same
            · rw [← feed] at further
              obtain ⟨s, member, same⟩ := ih fine.2 later.symm further
              exact ⟨s, mem_append_right _ member, same⟩

/-- Characters that end a line for the reader and that the printer leaves as they are. -/
def lineSeparators : List Char := ['\u0085', '\u2028', '\u2029']

theorem unbroken_iff (fine : (Item.answer s).Fine decimal float) :
    s.unbroken decimal = true ↔
      ∀ text ∈ s.strings, ∀ c ∈ text.toList, c ∉ lineSeparators := by
  have plain := plain_fields fine
  have separator {c : Char} (is : c ∈ lineSeparators) : 127 ≤ c.toNat ∧ isLineEnd c = true := by
    have each : ∀ c ∈ lineSeparators, 127 ≤ c.toNat ∧ isLineEnd c = true :=
      Collections.forall_mem_of_all (by decide)
    exact each c is
  rw [Streamed.unbroken, all_eq_true, Streamed.text]
  constructor
  · intro whole text member c inside is
    obtain ⟨foreign, ends⟩ := separator is
    have printed_ : c ∈ write decimal (.obj s.fields) := by
      rw [mem_write_iff foreign plain, texts_fields]
      rcases mem_cons.mp member with rfl | inner
      · exact ⟨s.id, by simp, inside⟩
      · exact ⟨text, by simp [inner], inside⟩
    have other := whole c printed_
    rw [ends] at other
    cases other
  · intro free c member
    rw [Bool.not_eq_true', ← Bool.not_eq_true]
    intro ends
    -- only three line ends are no control characters
    have is : c ∈ lineSeparators ∧ 127 ≤ c.toNat := by
      have visible := visible_write _ plain c member
      simp only [isLineEnd, Bool.or_eq_true, Bool.and_eq_true, decide_eq_true_eq] at ends
      have value : c.toNat = 133 ∨ c.toNat = 8232 ∨ c.toNat = 8233 := by omega
      refine ⟨?_, by omega⟩
      rw [← Char.ofNat_toNat c]
      rcases value with same | same | same <;> (rw [same]; decide)
    rw [mem_write_iff is.2 plain, texts_fields] at member
    obtain ⟨text, among, inside⟩ := member
    simp only [mem_append, mem_cons, not_mem_nil, or_false] at among
    have ascii {name : String} (plain : ∀ c ∈ name.toList, c.toNat < 127) : c ∉ name.toList :=
      fun inside => absurd (plain c inside) (Nat.not_lt.mpr is.2)
    rcases among with (rfl | rfl | rfl) | inner | rfl
    · exact ascii (Collections.forall_mem_of_all (by decide)) inside
    · exact free s.id mem_cons_self c inside is.1
    · exact ascii (Collections.forall_mem_of_all (by decide)) inside
    · exact free text (mem_cons_of_mem _ inner) c inside is.1
    · exact ascii (Collections.forall_mem_of_all (by decide)) inside

structure Ids (items : List Item) : Prop where
  distinct : ((items.flatMap Item.answers).map (·.id)).Nodup
  free : ∀ s ∈ items.flatMap Item.answers, s.id ∉ reserved

/-- What is returned for an output that was cut holds the answers that were printed completely,
and nothing else, with the mark of a broken stream unless the closing fence was printed. -/
def Returns (r : Reader) (decimal : ℚ → List Char) (items : List Item) (n : Nat) : Prop :=
  ∃ answers, extractPayload r ((printed decimal items).take n) = some (.obj answers) ∧
    Harvested answers (completed decimal items n) (fenceClosed decimal items n)

theorem mem_answers_of_completed {n : Nat} (member : s ∈ completed decimal items n) :
    s ∈ items.flatMap Item.answers :=
  (completedIn_sublist items _).subset member

private theorem fine_of_answer (fine : ∀ item ∈ items, item.Fine decimal float)
    (member : s ∈ items.flatMap Item.answers) : (Item.answer s).Fine decimal float := by
  obtain ⟨item, among, inside⟩ := mem_flatMap.mp member
  cases item with
  | answer other =>
    cases mem_singleton.mp inside
    exact fine _ among
  | log text => cases inside

theorem extractPayload_printed {items : List Item}
    (printable : ∀ item ∈ items, item.Printable decimal float)
    (loads_ : r.loads = JsonReader.loads float) {n : Nat} (opened : beginMark.length ≤ n)
    {kept : List Streamed}
    (is : kept = (completed decimal items n).filter (Streamed.unbroken decimal)) :
    ∃ m, (fenceClosed decimal items n = true → m = (lineFeeds decimal items).length + 1) ∧
      extractPayload r ((printed decimal items).take n) =
        if kept = [] then
          if fenceClosed decimal items n then
            decodedJson r (strip ((lineFeeds decimal items ++ closing).take m))
          else none
        else some (.obj (assembled r kept (fenceClosed decimal items n))) := by
  obtain ⟨m, fence, same, whole⟩ := fenced_printed printable opened
  have fine : ∀ item ∈ items, item.Fine decimal float :=
    fun item member => (printable item member).1
  have read := documents_take fine loads_ m
  rw [← documents_strip, same, ← is] at read
  refine ⟨m, whole, ?_⟩
  rw [extractPayload, fence]
  simp only [Option.bind_eq_bind, Option.bind_some, streamed_eq read]
  by_cases none_ : kept = []
  · rw [if_pos none_, if_pos none_]
  · rw [if_neg none_, if_neg none_]

theorem completed_of_closed {n : Nat} (closed : fenceClosed decimal items n = true) :
    completed decimal items n = items.flatMap Item.answers := by
  rw [fenceClosed, decide_eq_true_iff, length_printed] at closed
  rw [completed, completedIn_all (by omega)]

private theorem decodedJson_lines (fine : ∀ item ∈ items, item.Fine decimal float)
    (raw : r.rawDecode = JsonReader.rawDecode float) {fields : Fields}
    (found : decodedJson r (strip (lineFeeds decimal items ++ ['\n'])) = some (.obj fields)) :
    ∃ s ∈ items.flatMap Item.answers, fields = s.fields := by
  obtain ⟨lead, trail, before, after, whole⟩ := exists_strip (lineFeeds decimal items ++ ['\n'])
  rw [decodedJson_eq, ← decodes_blank_append before] at found
  exact decodes_lines fine raw after whole.symm found

theorem mem_of_harvested (ids : Ids items) {answers : Fields} {kept : List Streamed} {closed : Bool}
    (all : ∀ s ∈ given, s ∈ items.flatMap Item.answers)
    (some_ : ∀ s ∈ kept, s ∈ items.flatMap Item.answers) (harvested : Harvested answers given closed)
    (held : Harvested answers kept closed) (member : s ∈ given) : s ∈ kept := by
  have one {a b : Streamed} (first : a ∈ items.flatMap Item.answers)
      (second : b ∈ items.flatMap Item.answers) (same : a.id = b.id) : a = b :=
    inj_on_of_nodup_map ids.distinct first second same
  have free := ids.free s (all s member)
  have found : (given.find? fun other => other.id = s.id).isSome := by
    rw [List.find?_isSome]
    exact ⟨s, member, by simp⟩
  have entry : ((kept.find? fun other => other.id = s.id).map fun s => Json.arr s.rows).isSome := by
    rw [← held.entries s.id free, harvested.entries s.id free, Option.isSome_map]
    exact found
  rw [Option.isSome_map, Option.isSome_iff_exists] at entry
  obtain ⟨other, found⟩ := entry
  have there := mem_of_find?_eq_some found
  have same : other.id = s.id := by simpa using List.find?_some found
  rw [← one (some_ other there) (all s member) same]
  exact there

/-- What is returned as it should be comes from a stream, and no answer of it was split. -/
theorem unbroken_of_returns (printable : ∀ item ∈ items, item.Printable decimal float) (ids : Ids items)
    (loads_ : r.loads = JsonReader.loads float) (raw : r.rawDecode = JsonReader.rawDecode float)
    {n : Nat} (returns : Returns r decimal items n) :
    completed decimal items n ≠ [] ∧
      ∀ s ∈ completed decimal items n, s.unbroken decimal = true := by
  obtain ⟨answers, payload, harvested⟩ := returns
  have opened : beginMark.length ≤ n := by
    by_contra short
    have absent : ¬ beginMark <:+: (printed decimal items).take n := by
      apply not_infix_of_length
      rw [length_take]
      omega
    have none_ := find_eq_none (by decide) absent
    rw [extractPayload, fenced, none_] at payload
    cases payload
  obtain ⟨m, whole, read⟩ := extractPayload_printed printable loads_ opened rfl
  rw [payload] at read
  split at read
  next none_ =>
    split at read
    next closed =>
      -- the one document of the body has no costs, but an answer was printed
      have lines : (lineFeeds decimal items ++ closing).take m =
          lineFeeds decimal items ++ ['\n'] := by
        rw [whole closed, take_length_add_append]
        rfl
      rw [lines] at read
      obtain ⟨s, member, same⟩ :=
        decodedJson_lines (fun item member => (printable item member).1) raw read.symm
      have filled : completed decimal items n ≠ [] := by
        rw [completed_of_closed closed]
        exact ne_nil_of_mem member
      have costs := harvested.costs
      rw [if_neg filled, same] at costs
      cases costs
    next => cases read
  next filled =>
    cases read
    have part (s : Streamed)
        (member : s ∈ (completed decimal items n).filter (Streamed.unbroken decimal)) :
        s ∈ items.flatMap Item.answers := mem_answers_of_completed (mem_of_mem_filter member)
    have distinct : (((completed decimal items n).filter (Streamed.unbroken decimal)).map
        (·.id)).Nodup :=
      ids.distinct.sublist ((filter_sublist.trans (completedIn_sublist items _)).map _)
    have held := harvested_assembled (r := r) (fun s member => ids.free s (part s member)) distinct
      (fenceClosed decimal items n)
    constructor
    · rintro none_
      rw [none_] at filled
      exact filled rfl
    · intro s member
      have kept :=
        mem_of_harvested ids (fun s => mem_answers_of_completed) part harvested held member
      exact (mem_filter.mp kept).2

/-- The harvest of an output that is cut anywhere is what was printed completely exactly when an
answer was, and no string of one has a character that ends a line for the reader alone. -/
theorem returns_iff {repr : Json → String} {int : String → Option Int} {items : List Item}
    (printable : ∀ item ∈ items, item.Printable decimal float) (ids : Ids items) (n : Nat) :
    Returns (jsonReader float repr int) decimal items n ↔
      completed decimal items n ≠ [] ∧ ∀ s ∈ completed decimal items n,
        ∀ text ∈ s.strings, ∀ c ∈ text.toList, c ∉ lineSeparators := by
  have fine {s : Streamed} (member : s ∈ completed decimal items n) :
      (Item.answer s).Fine decimal float :=
    fine_of_answer (fun item among => (printable item among).1) (mem_answers_of_completed member)
  constructor
  · intro returns
    obtain ⟨filled, unbroken⟩ := unbroken_of_returns printable ids rfl rfl returns
    exact ⟨filled, fun s member => (unbroken_iff (fine member)).mp (unbroken s member)⟩
  · rintro ⟨filled, whole⟩
    have opened : beginMark.length ≤ n := by
      by_contra short
      apply filled
      rw [completed, Nat.sub_eq_zero_of_le (by omega), completedIn_zero]
    have kept : completed decimal items n =
        (completed decimal items n).filter (Streamed.unbroken decimal) := by
      rw [filter_eq_self.mpr]
      exact fun s member => (unbroken_iff (fine member)).mpr (whole s member)
    obtain ⟨m, -, read⟩ :=
      @extractPayload_printed _ _ (jsonReader float repr int) _ printable rfl n opened _ kept
    rw [if_neg filled] at read
    have distinct : ((completed decimal items n).map (·.id)).Nodup :=
      ids.distinct.sublist ((completedIn_sublist items _).map _)
    exact ⟨_, read, harvested_assembled
      (fun s member => ids.free s (mem_answers_of_completed member)) distinct _⟩

def wholeReader : Reader := jsonReader (fun _ => 0) (fun _ => "") fun _ => none

def wholeDecimal : ℚ → List Char := fun _ => []

def twoAnswers (text : String) : List Item :=
  [.answer ⟨"a", [.str text], 5⟩, .log "[INFO ] running".toList, .answer ⟨"b", [], 7⟩]

theorem twoAnswers_ids (text : String) : Ids (twoAnswers text) where
  distinct := by
    have names : ["a", "b"].Nodup := by decide
    exact names
  free := by
    have names : ∀ id ∈ ["a", "b"], id ∉ reserved := by decide
    rintro s member
    exact names s.id (mem_map_of_mem (f := fun s : Streamed => s.id) member)

theorem twoAnswers_printable {text : String}
    (unmarked : ¬ beginMark <:+: text.toList ∧ ¬ endMark <:+: text.toList) :
    ∀ item ∈ twoAnswers text, item.Printable wholeDecimal (fun _ => 0) := by
  have number (n : Int) : Plain wholeDecimal (fun _ => 0) (numberJson n) := by
    simp [numberJson, Plain]
  have running : quiet "[INFO ] running".toList = true := by decide +kernel
  rw [twoAnswers, forall_mem_cons, forall_mem_cons, forall_mem_singleton]
  refine ⟨⟨⟨by simp [PlainItems, Plain], number 5⟩, ?_⟩, ⟨running, by decide⟩,
    ⟨⟨by simp [PlainItems], number 7⟩, ?_⟩⟩
  · simp only [Streamed.strings, textsItems, JsonShape.texts, append_nil,
      forall_mem_cons]
    exact ⟨by decide, unmarked, forall_mem_nil _⟩
  · simp only [Streamed.strings, textsItems, forall_mem_cons]
    exact ⟨by decide, forall_mem_nil _⟩

/-- An output that is cut in the second answer. -/
theorem cut_output_returned : Returns wholeReader wholeDecimal (twoAnswers "é") 80 := by
  apply (returns_iff (twoAnswers_printable (by decide)) (twoAnswers_ids _) 80).mpr
  constructor
  · have one : (completed wholeDecimal (twoAnswers "é") 80).length = 1 := by decide +kernel
    exact ne_nil_of_length_eq_add_one one
  · intro s member
    have both : ∀ s ∈ (twoAnswers "é").flatMap Item.answers,
        ∀ text ∈ s.strings, ∀ c ∈ text.toList, c ∉ lineSeparators := by
      have all : ((twoAnswers "é").flatMap Item.answers).all (fun s => s.strings.all fun text =>
          text.toList.all fun c => decide (c ∉ lineSeparators)) = true := by decide +kernel
      simpa only [all_eq_true, decide_eq_true_eq] using all
    exact both s (mem_answers_of_completed member)

/-- The answer with a line separator in a row is lost, though the whole output was printed. -/
theorem separator_loses_answer :
    ¬ Returns wholeReader wholeDecimal (twoAnswers "x\u2028y") 1000 := by
  intro returns
  obtain ⟨-, unbroken⟩ := unbroken_of_returns (twoAnswers_printable (by decide))
    (twoAnswers_ids _) rfl rfl returns
  have closed : fenceClosed wholeDecimal (twoAnswers "x\u2028y") 1000 = true := by decide +kernel
  have split_ := unbroken ⟨"a", [.str "x\u2028y"], 5⟩ (by
    rw [completed_of_closed closed]
    exact mem_cons_self)
  revert split_
  decide +kernel

end OpenUltraSast.Cpg
