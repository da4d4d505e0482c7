import OpenUltraSast.Learn.DiffRanges

/-!
# Diffs that are misread

A hunk that is read under another path is missing from the ranges of its file, unless another
misreading puts it there again.
-/

namespace OpenUltraSast.Learn.Labels

open GitDiff LineBreaks UnifiedDiff List Option

variable {f : Change}

variable {path : Line}

section Read
variable {letters : Alphabet Char} {side : Side}

def countOf {κ γ : Type} [DecidableEq κ] (d : List (κ × List γ)) (key : κ) : Nat :=
  ((d.lookup key).getD []).length

variable {κ γ : Type}

theorem countOf_extend [DecidableEq κ] (d : List (κ × List γ)) (key other : κ)
    (value : γ) : countOf (Dicts.extend d key [value]) other =
      countOf d other + if other = key then 1 else 0 := by
  rw [countOf, Dicts.extend, Dicts.lookup_set]
  split
  next here => rw [here]; simp [countOf]
  next => rfl

variable {d e : List (κ × List γ)}

private theorem countOf_append [DecidableEq κ] {key : κ}
    (absent : key ∉ Dicts.keys d) : countOf (d ++ e) key = countOf e key := by
  rw [countOf, lookup_append, Dicts.lookup_eq_none_iff.mpr absent, none_or, countOf]

private theorem countOf_append_right [DecidableEq κ] {key : κ}
    (absent : key ∉ Dicts.keys e) : countOf (d ++ e) key = countOf d key := by
  rw [countOf, lookup_append, Dicts.lookup_eq_none_iff.mpr absent, or_none, countOf]

private theorem countOf_entry [DecidableEq κ] (key : κ) (values : List γ) :
    countOf (entry key values) key = values.length := by
  cases values <;> simp [countOf, entry]

theorem countOf_record_other (d : ByPath) {other : Line} (apart : path ≠ other) (range : Range) :
    countOf (record d path range) other = countOf d other := by
  rw [record]
  split
  · rw [countOf_extend, if_neg fun same => apart same.symm]
    rfl
  · rfl

private theorem countOf_record_le (d : ByPath) (path other : Line) (side : Side) (s : Section) :
    countOf (record d path (side.range s.hunk)) other ≤
      countOf d other + (side.changed s).length := by
  rw [record, range_hunk, Side.changed]
  obtain ⟨start, count⟩ := side.lines s
  by_cases none_ : count = 0
  · simp [rangeOf, none_]
  · simp only [rangeOf, none_, if_false, length_singleton]
    split
    · rw [countOf_extend]
      split <;> omega
    · exact Nat.le_succ _

private theorem count_changedRanges (side : Side) {files : List Change}
    (distinct : (files.map Change.path).Nodup) (member : f ∈ files) :
    countOf (changedRanges side files) f.path =
      (f.script.sections.flatMap side.changed).length := by
  induction files with
  | nil => cases member
  | cons g files ih =>
    obtain ⟨apart, distinct⟩ := nodup_cons.mp distinct
    rw [changedRanges, flatMap_cons, ← changedRanges]
    rcases mem_cons.mp member with rfl | later
    · -- the other files have other paths
      rw [countOf_append_right, countOf_entry]
      intro held
      obtain ⟨e, there, same⟩ := mem_map.mp held
      obtain ⟨g, other, inside⟩ := mem_flatMap.mp there
      have key := keys_entry _ _ (mem_map_of_mem inside)
      exact apart (same ▸ key ▸ mem_map_of_mem other)
    · rw [countOf_append, ih distinct later]
      intro held
      exact apart (keys_entry _ _ held ▸ mem_map_of_mem later)

theorem count_sections (side : Side) (decimal : Decimal letters) (path : Line) (sections : List Section)
    (headless : ∀ s ∈ sections, ∀ line ∈ stray f s, readHead letters line = none) :
    ∀ reading : SideReading,
      countOf ((sections.flatMap fun s => s.head :: f.body s).flatMap pieces |>.foldl
          (sideStep letters side) reading).2 path ≤
        countOf reading.2 path + (sections.flatMap side.changed).length := by
  induction sections with
  | nil => intro reading; exact Nat.le_add_right _ _
  | cons s rest ih =>
    obtain ⟨first, later⟩ := forall_mem_cons.mp headless
    intro reading
    have most := ih later (pathAfter side reading.1 (stray f s),
      record reading.2 reading.1 (side.range s.hunk))
    have one := countOf_record_le reading.2 reading.1 path side s
    rw [flatMap_cons, flatMap_append, foldl_append, read_section decimal first,
      flatMap_cons, length_append]
    dsimp only at most
    omega

theorem path_sections (side : Side) (decimal : Decimal letters) (sections : List Section)
    (headless : ∀ s ∈ sections, ∀ line ∈ stray f s, readHead letters line = none) :
    ∀ reading : SideReading,
      ((sections.flatMap fun s => s.head :: f.body s).flatMap pieces |>.foldl
          (sideStep letters side) reading).1 =
        pathAfter side reading.1 (sections.flatMap (stray f)) := by
  induction sections with
  | nil => intro reading; rfl
  | cons s rest ih =>
    obtain ⟨first, later⟩ := forall_mem_cons.mp headless
    intro reading
    rw [flatMap_cons, flatMap_append, foldl_append, read_section decimal first,
      ih later, flatMap_cons, pathAfter_append]

theorem count_sections_lt (decimal : Decimal letters) {before after : List Section} {s : Section}
    (headless : ∀ t ∈ before ++ s :: after, ∀ line ∈ stray f t, readHead letters line = none)
    (reading : SideReading) (some_ : (side.lines s).2 ≠ 0)
    (apart : pathAfter side reading.1 (before.flatMap (stray f)) ≠ path) :
    countOf (((before ++ s :: after).flatMap fun s => s.head :: f.body s).flatMap pieces |>.foldl
        (sideStep letters side) reading).2 path <
      countOf reading.2 path + ((before ++ s :: after).flatMap side.changed).length := by
  -- the sections before and behind add at most their ranges, and this one adds nothing to the path
  have early (t : Section) (member : t ∈ before) :=
    headless t (mem_append_left _ member)
  obtain ⟨here, late⟩ := forall_mem_cons.mp fun t member =>
    headless t (mem_append_right _ member)
  have first := count_sections side decimal path before early reading
  have forced := path_sections side decimal before early reading
  rw [flatMap_append, flatMap_append, foldl_append, flatMap_cons,
    flatMap_append, foldl_append]
  generalize ((before.flatMap fun s => s.head :: f.body s).flatMap pieces).foldl
    (sideStep letters side) reading = middle at first forced ⊢
  rw [read_section decimal here]
  have rest := count_sections side decimal path after late
    (pathAfter side middle.1 (stray f s), record middle.2 middle.1 (side.range s.hunk))
  dsimp only at rest
  rw [countOf_record_other middle.2 (forced ▸ apart)] at rest
  have one : (side.changed s).length = 1 := by simp [Side.changed, some_]
  rw [flatMap_append, length_append, flatMap_cons, length_append, one]
  omega

private theorem count_lines_other (lines : List Line)
    (others : ∀ line ∈ lines, side.mark.isPrefixOf line = true →
      headerPath side.header line ≠ path) :
    ∀ reading : SideReading, reading.1 ≠ path →
      countOf (lines.foldl (sideStep letters side) reading).2 path = countOf reading.2 path := by
  induction lines with
  | nil => intro _ _; rfl
  | cons line rest ih =>
    obtain ⟨first, later⟩ := forall_mem_cons.mp others
    intro reading apart
    rw [foldl_cons, sideStep]
    split
    next begun => exact ih later _ (first begun)
    next =>
      split
      next hunk _ =>
        rw [← countOf_record_other reading.2 apart (side.range hunk)]
        exact ih later (reading.1, record reading.2 reading.1 (side.range hunk)) apart
      next => exact ih later _ apart

end Read

def ReadsRanges (letters : Alphabet Char) (files : List Change) : Prop :=
  parseDiff letters (render files) = (changedRanges .old files, changedRanges .new files)

instance (letters : Alphabet Char) (files : List Change) : Decidable (ReadsRanges letters files) :=
  inferInstanceAs (Decidable (_ = _))

theorem readsRanges_iff {letters : Alphabet Char} (decimal : Decimal letters)
    (files : List Change) :
    ReadsRanges letters files ↔ ∀ side : Side,
      (((files.flatMap Change.lines).flatMap pieces).foldl (sideStep letters side) ([], [])).2 =
        changedRanges side files := by
  have text : splitlines (render files) = (files.flatMap Change.lines).flatMap pieces :=
    splitlines_endEach _
  have own (side : Side) := congrArg Prod.snd
    (side_foldl letters side decimal (splitlines (render files)) {})
  rw [text] at own
  rw [ReadsRanges, parseDiff, text, Prod.ext_iff]
  constructor
  · rintro ⟨old, new⟩ side
    cases side with
    | old => exact (own .old).symm.trans old
    | new => exact (own .new).symm.trans new
  · intro sides
    exact ⟨(own .old).trans (sides .old), (own .new).trans (sides .new)⟩

/-- No line behind the head of a hunk begins like another head, and no line of a file names another
file of the diff. -/
def Isolated (letters : Alphabet Char) (files : List Change) : Prop :=
  ∀ f ∈ files, (∀ s ∈ f.script.sections, ∀ line ∈ stray f s, readHead letters line = none) ∧
    ∀ g ∈ files, g.path ≠ f.path → ∀ side : Side, ∀ line ∈ f.lines.flatMap pieces,
      side.mark.isPrefixOf line = true → headerPath side.header line ≠ g.path

section Isolated
variable {letters : Alphabet Char}

private theorem count_file_other (side : Side) (decimal : Decimal letters)
    (others : ∀ line ∈ f.lines.flatMap pieces, side.mark.isPrefixOf line = true →
      headerPath side.header line ≠ path) (s : SideReading) :
    countOf ((f.lines.flatMap pieces).foldl (sideStep letters side) s).2 path =
      countOf s.2 path := by
  by_cases none_ : f.script.sections = []
  · rw [read_unchanged decimal none_]
  · rw [Change.lines, flatMap_append] at others
    rw [Change.lines, flatMap_append, foldl_append, read_fileHeader decimal none_]
    refine count_lines_other _ (fun line inside => others line (mem_append_right _ inside)) _ ?_
    -- the name line is one of the lines of the file
    have named : side.mark ++ f.nameOf side.dir (side.file f) ∈ f.header.flatMap pieces := by
      have header : f.header = preamble f ++ f.nameLines := rfl
      rw [header, flatMap_append, nameLines_pieces none_]
      cases side <;> simp [Side.file]
    exact others _ (mem_append_left _ named)
      ( isPrefixOf_iff_prefix.mpr (prefix_append _ _))

theorem count_files_other (side : Side) (decimal : Decimal letters) (files : List Change)
    (others : ∀ f ∈ files, ∀ line ∈ f.lines.flatMap pieces,
      side.mark.isPrefixOf line = true → headerPath side.header line ≠ path) :
    ∀ s : SideReading,
      countOf (((files.flatMap Change.lines).flatMap pieces).foldl (sideStep letters side) s).2
        path = countOf s.2 path := by
  induction files with
  | nil => intro _; rfl
  | cons f files ih =>
    obtain ⟨first, later⟩ := forall_mem_cons.mp others
    intro s
    rw [flatMap_cons, flatMap_append, foldl_append, ih later,
      count_file_other side decimal first]

variable {files : List Change}

theorem pathAfter_of_reads (decimal : Decimal letters)
    (distinct : (files.map Change.path).Nodup) (isolated : Isolated letters files)
    (reads : ReadsRanges letters files) (member : f ∈ files) (side : Side) {before after : List Section}
    {s : Section} (split : f.script.sections = before ++ s :: after) (some_ : (side.lines s).2 ≠ 0) :
    pathAfter side (nameSide side f) (before.flatMap (stray f)) = f.path := by
  -- otherwise the path has fewer ranges than its sections, since no other file makes up for it
  by_contra apart
  have total := count_changedRanges side distinct member
  rw [← (readsRanges_iff decimal files).mp reads side] at total
  have others (g : Change) (there : g ∈ files) (other : f.path ≠ g.path) :=
    (isolated g there).2 f member other side
  have headless := (isolated f member).1
  obtain ⟨left, right, rfl⟩ := append_of_mem member
  rw [map_append, map_cons, nodup_append, nodup_cons] at distinct
  have earlier := count_files_other side decimal left (fun g there => others g
    (mem_append_left _ there) fun same => distinct.2.2 _ (mem_map_of_mem there) _
      mem_cons_self same.symm) ([], [])
  rw [flatMap_append, flatMap_append, foldl_append, flatMap_cons,
    flatMap_append, foldl_append, count_files_other side decimal right (fun g there =>
      others g (mem_append_right _ (mem_cons_of_mem _ there)) fun same =>
        distinct.2.1.1 (same ▸ mem_map_of_mem there))] at total
  generalize ((left.flatMap Change.lines).flatMap pieces).foldl (sideStep letters side) ([], [])
    = start at earlier total
  have hunks : f.script.sections ≠ [] := by simp [split]
  rw [Change.lines, flatMap_append, foldl_append, read_fileHeader decimal hunks] at total
  rw [split] at headless total
  have fewer := count_sections_lt decimal headless (nameSide side f, start.2) some_ apart
  have none_ : countOf ([] : ByPath) f.path = 0 := rfl
  dsimp only at fewer earlier
  omega

theorem eq_of_headerPath {side : Side} {line : Line} (some_ : path ≠ [])
    (named : headerPath side.header line = path) : line = side.header ++ path := by
  rw [headerPath] at named
  split at named
  next begun =>
    obtain ⟨rest, rfl⟩ := isPrefixOf_iff_prefix.mp begun
    have length : side.header.length = 6 := by cases side <;> rfl
    rw [← length, drop_left] at named
    rw [named]
  next => exact absurd named.symm some_

theorem bare_of_nameSide (side : Side) (named : nameSide side f = f.path) :
    f.path.any quotes = false ∧ ' ' ∉ f.path := by
  have line := eq_of_headerPath f.named named
  rw [Side.header, append_assoc, append_cancel_left_eq, Change.nameOf] at line
  split at line
  -- `/dev/null` has no prefix of a side
  next => cases side <;> cases line
  next =>
    cases quoted : f.path.any quotes with
    | true =>
      -- a quoted name begins with its quote
      rw [label, quoted, if_pos rfl, terminated] at line
      split at line <;> cases side <;> cases line
    | false =>
      refine ⟨rfl, fun blank => ?_⟩
      -- the tab behind a name with a blank stays in the path
      rw [label, quoted, if_neg Bool.false_ne_true, terminated,
        if_pos (mem_append_right _ blank)] at line
      have lengths := congrArg List.length line
      simp at lengths

private theorem plain_of_reads (decimal : Decimal letters)
    (distinct : (files.map Change.path).Nodup) (isolated : Isolated letters files)
    (reads : ReadsRanges letters files) (member : f ∈ files) : Plain letters f where
  bare hunks := by
    obtain ⟨s, after, split⟩ := exists_cons_of_ne_nil hunks
    -- the first hunk has lines on some side, and is read under the name that the header gives
    have changes := f.script.changes s (split ▸ mem_cons_self)
    have own (side : Side) (some_ : (side.lines s).2 ≠ 0) :=
      pathAfter_of_reads decimal distinct isolated reads member side
        (split.trans (nil_append _).symm) some_
    rcases changes with removed | added
    · exact bare_of_nameSide .old (own .old removed)
    · exact bare_of_nameSide .new (own .new added)
  headless := (isolated f member).1
  own side before s after split some_ line header := by
    have forced := pathAfter_of_reads decimal distinct isolated reads member side split some_
    rw [pathAfter, mem_def.mp header, elim_some] at forced
    exact eq_of_headerPath f.named forced

end Isolated

/-- The ranges of a diff are right when each of its files is read plainly. Otherwise some are wrong,
unless misreadings cancel: a line of a file reads as the head of a hunk, or names another file. -/
theorem parseDiff_render (letters : Alphabet Char) (files : List Change)
    (decimal : Decimal letters) (distinct : (files.map Change.path).Nodup) :
    ((∀ f ∈ files, Plain letters f) → ReadsRanges letters files) ∧
      (Isolated letters files → ReadsRanges letters files → ∀ f ∈ files, Plain letters f) := by
  constructor
  · intro plain
    refine (readsRanges_iff decimal files).mpr fun side => ?_
    exact read_files decimal files ([], [])
      (fun f member => ⟨plain f member, not_mem_nil⟩) distinct
  · intro isolated reads f member
    exact plain_of_reads decimal distinct isolated reads member

def asciiLetters : Alphabet Char where
  ascii := id
  digit c := if c.isDigit then some (c.toNat - '0'.toNat) else none

private theorem decimal_asciiLetters : Decimal asciiLetters where
  ascii _ := rfl
  digit c digit := by simp [asciiLetters, digit]
  blank := by decide
  comma := by decide

def schema (first : SourceLine) : Change where
  path := "schema.sql".toList
  base := some [first, ⟨"create".toList, true, by decide⟩, ⟨"grant".toList, false, by decide⟩]
  tip := some [⟨"create".toList, true, by decide⟩]
  script :=
    { sections := [⟨0, 1, 0, 0, []⟩, ⟨2, 1, 1, 0, []⟩]
      within := by simp
      changes := by decide
      headings := by decide
      same := rfl }
  baseMode := ⟨"100644".toList, by simp⟩
  tipMode := ⟨"100644".toList, by simp⟩
  ids := ⟨"1a2b3c4..5d6e7f8".toList, by simp⟩
  named := by decide

private theorem plain_of_unmarked {letters : Alphabet Char}
    (bare : f.script.sections ≠ [] → f.path.any quotes = false ∧ ' ' ∉ f.path)
    (unmarked : ∀ s ∈ f.script.sections, ∀ line ∈ stray f s, readHead letters line = none ∧
      ∀ side ∈ [Side.old, Side.new], side.mark.isPrefixOf line = false) : Plain letters f where
  bare := bare
  headless s member line inside := (unmarked s member line inside).1
  own side before s after split _ line header := by
    have found := mem_of_getLast? header
    obtain ⟨inside, begun⟩ := mem_filter.mp found
    obtain ⟨s', member, inside⟩ := mem_flatMap.mp inside
    have other := (unmarked s' (split ▸ mem_append_left _ member) line inside).2 side
      (by cases side <;> simp)
    exact absurd (other.symm.trans begun) Bool.false_ne_true

theorem schema_read : ReadsRanges asciiLetters [schema ⟨"drop".toList, true, by decide⟩] :=
  (parseDiff_render asciiLetters _ decimal_asciiLetters (by decide)).1 fun f member => by
    cases mem_singleton.mp member
    exact plain_of_unmarked (by decide) (by decide)

/-- A comment of two hyphens is removed, and with it the name of the file. -/
theorem comment_misread :
    ¬ ReadsRanges asciiLetters [schema ⟨"-- drop".toList, true, by decide⟩] := by
  decide

end OpenUltraSast.Learn.Labels
