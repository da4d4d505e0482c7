import OpenUltraSast.Library.Dicts
import OpenUltraSast.Library.GitDiff

/-!
# Changed line ranges

The reader of git's diff knows a header line and the head of a hunk by how a line begins, wherever it
stands.
-/

namespace OpenUltraSast.Learn.Labels

open GitDiff LineBreaks UnifiedDiff List Option

abbrev Ranges := List (Nat × Nat)

abbrev ByPath := List (Line × Ranges)

structure DiffReading where
  oldPath : Line := []
  newPath : Line := []
  old : ByPath := []
  new : ByPath := []

/-- `line[6:]` behind the header of a side, and no path in another header. -/
def headerPath (header line : Line) : Line := if header.isPrefixOf line then line.drop 6 else []

/-- `ranges.setdefault(path, []).append(...)` for a hunk that has lines there. -/
def record (ranges : ByPath) (path : Line) (range : Range) : ByPath :=
  if path ≠ [] ∧ range.count ≠ 0 then
    Dicts.extend ranges path [(range.start, range.start + range.count - 1)]
  else ranges

section Reader
variable (letters : Alphabet Char)

/-- One round of the loop. -/
def DiffReading.step (s : DiffReading) (line : Line) : DiffReading :=
  if "--- ".toList.isPrefixOf line then { s with oldPath := headerPath "--- a/".toList line }
  else if "+++ ".toList.isPrefixOf line then { s with newPath := headerPath "+++ b/".toList line }
  else
    match readHead letters line with
    | some hunk => { s with
        old := record s.old s.oldPath hunk.old, new := record s.new s.newPath hunk.new }
    | none => s

/-- `parse_diff(diff)`. -/
def parseDiff (diff : Line) : ByPath × ByPath :=
  let s := (splitlines diff).foldl (DiffReading.step letters) {}
  (s.old, s.new)

end Reader

inductive Side where
  | old
  | new
deriving DecidableEq

namespace Side

def mark : Side → Line
  | .old => "--- ".toList
  | .new => "+++ ".toList

def dir : Side → Line
  | .old => "a/".toList
  | .new => "b/".toList

def header (side : Side) : Line := side.mark ++ side.dir

def range : Side → Hunk → Range
  | .old => Hunk.old
  | .new => Hunk.new

def file : Side → Change → Option (List SourceLine)
  | .old => Change.base
  | .new => Change.tip

def lines : Side → Section → Nat × Nat
  | .old => fun s => (s.oldAt, s.oldCount)
  | .new => fun s => (s.newAt, s.newCount)

end Side

abbrev SideReading := Line × ByPath

def DiffReading.of (s : DiffReading) : Side → SideReading
  | .old => (s.oldPath, s.old)
  | .new => (s.newPath, s.new)

section OneSide
variable (letters : Alphabet Char) (side : Side)

def sideStep (s : SideReading) (line : Line) : SideReading :=
  if side.mark.isPrefixOf line then (headerPath side.header line, s.2)
  else
    match readHead letters line with
    | some hunk => (s.1, record s.2 s.1 (side.range hunk))
    | none => s

theorem readHead_none {c : Char} (other : letters.ascii '@' ≠ c) (rest : Line) :
    readHead letters (c :: rest) = none := by
  have apart : (c == letters.ascii '@') = false := beq_false_of_ne other.symm
  simp [readHead, List.dropPrefix?, apart]

theorem side_step (decimal : Decimal letters) (s : DiffReading) (line : Line) :
    (s.step letters line).of side = sideStep letters side (s.of side) line := by
  have headless {c : Char} (other : '@' ≠ c) (rest : Line) : readHead letters (c :: rest) = none :=
    readHead_none letters (by rwa [decimal.ascii]) rest
  rw [DiffReading.step]
  -- a header of the one side is neither a header of the other nor the head of a hunk
  by_cases old : "--- ".toList.isPrefixOf line
  · obtain ⟨rest, rfl⟩ := isPrefixOf_iff_prefix.mp old
    cases side with
    | old => rfl
    | new =>
      rw [if_pos old, sideStep, if_neg (by simp [Side.mark]), show "--- ".toList ++ rest =
        '-' :: ("-- ".toList ++ rest) from rfl, headless (by decide)]
      rfl
  · by_cases new : "+++ ".toList.isPrefixOf line
    · obtain ⟨rest, rfl⟩ := isPrefixOf_iff_prefix.mp new
      cases side with
      | new => rfl
      | old =>
        have other : ¬ Side.old.mark.isPrefixOf ("+++ ".toList ++ rest) = true := old
        rw [if_neg old, if_pos new, sideStep, if_neg other, show "+++ ".toList ++ rest =
          '+' :: ("++ ".toList ++ rest) from rfl, headless (by decide)]
        rfl
    · have other : ¬ side.mark.isPrefixOf line = true := by cases side <;> assumption
      rw [if_neg old, if_neg new, sideStep, if_neg other]
      cases readHead letters line <;> cases side <;> rfl

theorem side_foldl (decimal : Decimal letters) (lines : List Line) :
    ∀ s : DiffReading, (lines.foldl (DiffReading.step letters) s).of side =
      lines.foldl (sideStep letters side) (s.of side) := by
  induction lines with
  | nil => intro s; rfl
  | cons line rest ih =>
    intro s
    rw [foldl_cons, foldl_cons, ih, side_step letters side decimal]

end OneSide

def Side.changed (side : Side) (s : Section) : Ranges :=
  let (start, count) := side.lines s
  if count = 0 then [] else [(start + 1, start + count)]

def entry {κ γ : Type} (key : κ) (values : List γ) : List (κ × List γ) :=
  match values with
  | [] => []
  | _ => [(key, values)]

def changedRanges (side : Side) (files : List Change) : ByPath :=
  files.flatMap fun f => entry f.path (f.script.sections.flatMap side.changed)

theorem range_hunk (side : Side) (s : Section) :
    side.range s.hunk = rangeOf (side.lines s).1 (side.lines s).2 := by cases side <;> rfl

private theorem extend_entry {κ γ : Type} [DecidableEq κ] {d : List (κ × List γ)} {key : κ}
    (absent : key ∉ Dicts.keys d) (held : List γ) (value : γ) :
    Dicts.extend (d ++ entry key held) key [value] = d ++ entry key (held ++ [value]) := by
  have before : d.lookup key = none := Dicts.lookup_eq_none_iff.mpr absent
  rw [Dicts.extend, lookup_append, before, none_or, Dicts.set]
  cases held with
  | nil => simp [entry, absent]
  | cons first rest =>
    have there : key ∈ Dicts.keys (d ++ entry key (first :: rest)) := by
      simp [entry, Dicts.keys]
    have others : ∀ e ∈ d, ¬ e.1 = key := fun e member same =>
      absent (mem_map.mpr ⟨e, member, same⟩)
    rw [if_pos there, map_append, map_congr_left fun e member => if_neg (others e member)]
    simp [entry]

variable {path : Line}

private theorem record_section {ranges : ByPath} (absent : path ∉ Dicts.keys ranges)
    (some_ : path ≠ []) (changed : Ranges) (side : Side) (s : Section) :
    record (ranges ++ entry path changed) path (side.range s.hunk) =
      ranges ++ entry path (changed ++ side.changed s) := by
  rw [record, range_hunk, Side.changed]
  obtain ⟨start, count⟩ := side.lines s
  by_cases none_ : count = 0
  · simp [rangeOf, none_]
  · have last : start + 1 + count - 1 = start + count := by omega
    rw [if_pos ⟨some_, none_⟩]
    simp only [rangeOf, none_, if_false, last, extend_entry absent]

def lastHeader (side : Side) (lines : List Line) : Option Line :=
  (lines.filter (side.mark.isPrefixOf ·)).getLast?

def stray (f : Change) (s : Section) : List Line :=
  (pieces s.head).tail ++ (f.body s).flatMap pieces

/-- The lines of a file are read for what they are: its name is written bare, none of them begins
like the head of a hunk, and no header before a hunk with lines on a side names another file. -/
structure Plain (letters : Alphabet Char) (f : Change) : Prop where
  bare : f.script.sections ≠ [] → f.path.any quotes = false ∧ ' ' ∉ f.path
  headless : ∀ s ∈ f.script.sections, ∀ line ∈ stray f s, readHead letters line = none
  own : ∀ side : Side, ∀ before s after, f.script.sections = before ++ s :: after →
    (side.lines s).2 ≠ 0 → ∀ line ∈ lastHeader side (before.flatMap (stray f)),
      line = side.header ++ f.path

variable {f : Change}

section Read
variable {letters : Alphabet Char} {side : Side}

def pathAfter (side : Side) (path : Line) (lines : List Line) : Line :=
  (lastHeader side lines).elim path (headerPath side.header)

theorem pathAfter_append (path : Line) (front back : List Line) :
    pathAfter side path (front ++ back) = pathAfter side (pathAfter side path front) back := by
  rw [pathAfter, lastHeader, filter_append, List.getLast?_append, ← lastHeader, ← lastHeader,
    pathAfter, pathAfter]
  cases lastHeader side back <;> rfl

theorem read_headless (lines : List Line) (headless : ∀ line ∈ lines, readHead letters line = none) :
    ∀ s : SideReading,
      lines.foldl (sideStep letters side) s = (pathAfter side s.1 lines, s.2) := by
  induction lines with
  | nil => intro s; rfl
  | cons line rest ih =>
    obtain ⟨first, later⟩ := forall_mem_cons.mp headless
    intro s
    have step : sideStep letters side s line = (pathAfter side s.1 [line], s.2) := by
      rw [sideStep, first, pathAfter, lastHeader, filter_singleton]
      cases side.mark.isPrefixOf line <;> rfl
    rw [foldl_cons, ih later, step, ← pathAfter_append, singleton_append]

private theorem read_head (decimal : Decimal letters) (s : Section) (reading : SideReading) :
    (pieces s.head).foldl (sideStep letters side) reading =
      (pieces s.head).tail.foldl (sideStep letters side)
        (reading.1, record reading.2 reading.1 (side.range s.hunk)) := by
  obtain ⟨head, tail, -, split⟩ := pieces_append (whole_headText s.hunk)
    (if s.heading = [] then [] else ' ' :: s.heading)
  -- the text of the head is not split, so it begins the first piece
  have apart : ¬ side.mark.isPrefixOf (headText s.hunk ++ head) = true := by
    cases side <;> simp [Side.mark, headText]
  rw [Section.head, split, foldl_cons, tail_cons, sideStep, if_neg apart,
    readHead_headText decimal]

variable {s : Section}

theorem read_section (decimal : Decimal letters)
    (headless : ∀ line ∈ stray f s, readHead letters line = none) (reading : SideReading) :
    ((s.head :: f.body s).flatMap pieces).foldl (sideStep letters side) reading =
      (pathAfter side reading.1 (stray f s),
        record reading.2 reading.1 (side.range s.hunk)) := by
  rw [flatMap_cons, foldl_append, read_head decimal, ← foldl_append, ← stray,
    read_headless _ headless]

theorem headerPath_own (side : Side) (path : Line) :
    headerPath side.header (side.header ++ path) = path := by
  have begun : side.header.isPrefixOf (side.header ++ path) = true :=
    isPrefixOf_iff_prefix.mpr (prefix_append _ _)
  have length : side.header.length = 6 := by cases side <;> rfl
  rw [headerPath, if_pos begun, ← length, drop_left]

theorem Plain.path_own (plain : Plain letters f) {before after : List Section}
    (split : f.script.sections = before ++ s :: after) (first : path = f.path)
    (some_ : (side.lines s).2 ≠ 0) : pathAfter side path (before.flatMap (stray f)) = f.path := by
  have own := plain.own side before s after split some_
  rw [pathAfter]
  cases header : lastHeader side (before.flatMap (stray f)) with
  | none => exact first
  | some line =>
    rw [elim_some, own line (header ▸ rfl), headerPath_own]

private theorem read_sections (decimal : Decimal letters) (plain : Plain letters f)
    {ranges : ByPath} (absent : f.path ∉ Dicts.keys ranges)
    (first : ∀ s ∈ f.script.sections, (side.lines s).2 ≠ 0 → path = f.path) (before : List Section) :
    ∀ after, f.script.sections = before ++ after →
      ((before.flatMap fun s => s.head :: f.body s).flatMap pieces).foldl (sideStep letters side)
          (path, ranges) =
        (pathAfter side path (before.flatMap (stray f)),
          ranges ++ entry f.path (before.flatMap side.changed)) := by
  -- by the sections that were read; the path in force is the one behind their stray lines
  induction before using List.reverseRecOn with
  | nil => intro _ _; simp [entry, pathAfter, lastHeader]
  | append_singleton before s ih =>
    intro after split
    rw [append_assoc, singleton_append] at split
    have member : s ∈ f.script.sections := split ▸ mem_append_right _ mem_cons_self
    have recorded : record (ranges ++ entry f.path (before.flatMap side.changed))
        (pathAfter side path (before.flatMap (stray f))) (side.range s.hunk) =
          ranges ++ entry f.path (before.flatMap side.changed ++ side.changed s) := by
      -- without lines on the side the hunk records nothing, whatever path is in force
      by_cases none_ : (side.lines s).2 = 0
      · simp [record, range_hunk, rangeOf, Side.changed, none_]
      · rw [plain.path_own split (first s member none_) none_, record_section absent f.named]
    rw [flatMap_append, flatMap_append, foldl_append, ih _ split,
      flatMap_singleton, read_section decimal (plain.headless s member)]
    dsimp only
    rw [recorded, ← pathAfter_append, flatMap_append, flatMap_append,
      flatMap_singleton, flatMap_singleton]

variable {line : Line}

private theorem pass_line (decimal : Decimal letters)
    (first : ∃ c ∈ ['d', 'n', 'o', 'i'], ∃ rest, line = c :: rest) (s : SideReading) :
    sideStep letters side s line = s := by
  obtain ⟨c, letter, rest, rfl⟩ := first
  have apart : '@' ≠ c ∧ ¬ side.mark.isPrefixOf (c :: rest) = true := by
    simp only [mem_cons, not_mem_nil, or_false] at letter
    rcases letter with rfl | rfl | rfl | rfl <;> cases side <;> simp [Side.mark]
  have headless : readHead letters (c :: rest) = none :=
    readHead_none letters (by rw [decimal.ascii]; exact apart.1) rest
  rw [sideStep, if_neg apart.2, headless]

def preamble (f : Change) : List Line :=
  ("diff --git ".toList ++ label "a/".toList f.path ++ ' ' :: label "b/".toList f.path) ::
    f.modeLines ++ f.indexLines

theorem mem_modeLines (member : line ∈ f.modeLines) :
    ∃ words ∈ ["new file mode ", "deleted file mode ", "old mode ", "new mode "],
      ∃ mode : Word, line = words.toList ++ mode.text := by
  unfold Change.modeLines at member
  split at member
  · exact ⟨_, by simp, _, mem_singleton.mp member⟩
  · exact ⟨_, by simp, _, mem_singleton.mp member⟩
  · split at member
    · cases member
    · rcases mem_pair.mp member with same | same
      · exact ⟨_, by simp, _, same⟩
      · exact ⟨_, by simp, _, same⟩

theorem whole_word (word : Word) : Whole word.text := whole_of_alphanum word.plain

private theorem preamble_first (member : line ∈ preamble f) :
    ∃ c ∈ ['d', 'n', 'o', 'i'], ∃ rest, line = c :: rest := by
  rcases mem_append.mp member with early | index
  · rcases mem_cons.mp early with rfl | mode
    · exact ⟨'d', by simp, _, rfl⟩
    · obtain ⟨words, known, word, rfl⟩ := mem_modeLines mode
      simp only [mem_cons, not_mem_nil, or_false] at known
      rcases known with rfl | rfl | rfl | rfl
      · exact ⟨'n', by simp, _, rfl⟩
      · exact ⟨'d', by simp, _, rfl⟩
      · exact ⟨'o', by simp, _, rfl⟩
      · exact ⟨'n', by simp, _, rfl⟩
  · rw [Change.indexLines] at index
    split at index
    · cases index
    · cases mem_singleton.mp index
      exact ⟨'i', by simp, _, rfl⟩

private theorem whole_preamble (member : line ∈ preamble f) : Whole line := by
  rcases mem_append.mp member with early | index
  · rcases mem_cons.mp early with rfl | mode
    · exact whole_append (whole_append (by decide) (whole_label (by decide) _))
        (whole_cons (by decide) (whole_label (by decide) _))
    · obtain ⟨words, known, word, rfl⟩ := mem_modeLines mode
      refine whole_append ?_ (whole_word word)
      simp only [mem_cons, not_mem_nil, or_false] at known
      rcases known with rfl | rfl | rfl | rfl <;> decide
  · rw [Change.indexLines] at index
    split at index
    · cases index
    · cases mem_singleton.mp index
      refine whole_append (whole_append (by decide) (whole_word _)) ?_
      split
      · exact whole_cons (by decide) (whole_word _)
      · decide

theorem read_preamble (decimal : Decimal letters) (f : Change) (s : SideReading) :
    ((preamble f).flatMap pieces).foldl (sideStep letters side) s = s := by
  have passed : ∀ lines : List Line, (∀ line ∈ lines, line ∈ preamble f) →
      (lines.flatMap pieces).foldl (sideStep letters side) s = s := by
    intro lines
    induction lines with
    | nil => intro _; rfl
    | cons line rest ih =>
      intro inside
      obtain ⟨first, later⟩ := forall_mem_cons.mp inside
      rw [flatMap_cons, pieces_whole (whole_preamble first), singleton_append,
        foldl_cons, pass_line decimal (preamble_first first), ih later]
  exact passed _ fun _ member => member

def nameSide (side : Side) (f : Change) : Line :=
  headerPath side.header (side.mark ++ f.nameOf side.dir (side.file f))

theorem whole_nameOf {dir : Line} (plain : Whole dir) (file : Option (List SourceLine)) :
    Whole (f.nameOf dir file) := by
  rw [Change.nameOf]
  split
  · decide
  · exact whole_terminated (whole_label plain f.path)

private theorem nameSide_bare (bare : f.path.any quotes = false ∧ ' ' ∉ f.path)
    (there : (side.file f).isNone = false) : nameSide side f = f.path := by
  have blank : ' ' ∉ side.dir ++ f.path := by
    rw [mem_append, not_or]
    exact ⟨by cases side <;> decide, bare.2⟩
  rw [nameSide, Change.nameOf, if_neg (by simp [there]), label, bare.1,
    if_neg Bool.false_ne_true, terminated, if_neg blank, ← append_assoc]
  exact headerPath_own side f.path

theorem step_own (s : SideReading) (name : Line) :
    sideStep letters side s (side.mark ++ name) =
      (headerPath side.header (side.mark ++ name), s.2) := by
  have begun : side.mark.isPrefixOf (side.mark ++ name) = true :=
    isPrefixOf_iff_prefix.mpr (prefix_append _ _)
  rw [sideStep, if_pos begun]

theorem step_other (decimal : Decimal letters) (other : Side) (apart : other ≠ side)
    (s : SideReading) (name : Line) : sideStep letters side s (other.mark ++ name) = s := by
  have begun : ¬ side.mark.isPrefixOf (other.mark ++ name) = true := by
    cases side <;> cases other <;> simp_all [Side.mark]
  have headless : readHead letters (other.mark ++ name) = none := by
    cases other <;> exact readHead_none letters (by rw [decimal.ascii]; decide) _
  rw [sideStep, if_neg begun, headless]

theorem nameLines_pieces (some_ : f.script.sections ≠ []) :
    f.nameLines.flatMap pieces = [Side.old.mark ++ f.nameOf Side.old.dir f.base,
      Side.new.mark ++ f.nameOf Side.new.dir f.tip] := by
  rw [Change.nameLines, if_neg some_, flatMap_cons, flatMap_singleton,
    pieces_whole (whole_append (by decide) (whole_nameOf (by decide) _)),
    pieces_whole (whole_append (by decide) (whole_nameOf (by decide) _))]
  rfl

theorem read_fileHeader (decimal : Decimal letters) (some_ : f.script.sections ≠ []) (s : SideReading) :
    (f.header.flatMap pieces).foldl (sideStep letters side) s = (nameSide side f, s.2) := by
  have header : f.header = preamble f ++ f.nameLines := rfl
  rw [header, flatMap_append, foldl_append, read_preamble decimal,
    nameLines_pieces some_, foldl_cons, foldl_cons, foldl_nil]
  cases side with
  | old => rw [step_own, step_other decimal .new (by decide)]; rfl
  | new => rw [step_other decimal .old (by decide), step_own]; rfl

theorem read_unchanged (decimal : Decimal letters) (none_ : f.script.sections = []) (s : SideReading) :
    (f.lines.flatMap pieces).foldl (sideStep letters side) s = s := by
  have lines : f.lines = preamble f := by
    rw [Change.lines, none_, Change.header, Change.nameLines, if_pos none_]
    simp [preamble]
  rw [lines, read_preamble decimal]

private theorem file_there (member : s ∈ f.script.sections) (some_ : (side.lines s).2 ≠ 0) :
    (side.file f).isNone = false := by
  -- a file that is not there has no lines for the section to lie in
  have within := f.script.within s member
  cases side with
  | old =>
    cases file : f.base with
    | none =>
      rw [file, getD_none, length_nil] at within
      exact absurd (show s.oldCount = 0 by omega) some_
    | some => simp [Side.file, file]
  | new =>
    cases file : f.tip with
    | none =>
      rw [file, getD_none, length_nil] at within
      exact absurd (show s.newCount = 0 by omega) some_
    | some => simp [Side.file, file]

theorem read_file (side : Side) (decimal : Decimal letters) (plain : Plain letters f) (s : SideReading)
    (absent : f.path ∉ Dicts.keys s.2) :
    ((f.lines.flatMap pieces).foldl (sideStep letters side) s).2 =
      s.2 ++ entry f.path (f.script.sections.flatMap side.changed) := by
  by_cases none_ : f.script.sections = []
  · rw [read_unchanged decimal none_, none_]
    exact (append_nil _).symm
  · have own (t : Section) (member : t ∈ f.script.sections) (some_ : (side.lines t).2 ≠ 0) :
        nameSide side f = f.path := nameSide_bare (plain.bare none_) (file_there member some_)
    rw [Change.lines, flatMap_append, foldl_append, read_fileHeader decimal none_,
      read_sections decimal plain absent own _ [] (append_nil _).symm]

theorem keys_entry (path : Line) (changed : Ranges) {key : Line}
    (member : key ∈ Dicts.keys (entry path changed)) : key = path := by
  cases changed with
  | nil => cases member
  | cons => exact mem_singleton.mp member

/-- From plain changes each side reads the ranges that they have. -/
theorem read_files (decimal : Decimal letters) (files : List Change) :
    ∀ s : SideReading, (∀ f ∈ files, Plain letters f ∧ f.path ∉ Dicts.keys s.2) →
      (files.map Change.path).Nodup →
      (((files.flatMap Change.lines).flatMap pieces).foldl (sideStep letters side) s).2 =
        s.2 ++ changedRanges side files := by
  -- the path of a file is new to the ranges, since no two files share one
  induction files with
  | nil => intro s _ _; exact (append_nil _).symm
  | cons f files ih =>
    intro s all distinct
    obtain ⟨⟨plain, absent⟩, others⟩ := forall_mem_cons.mp all
    obtain ⟨apart, distinct⟩ := nodup_cons.mp distinct
    have first := read_file side decimal plain s absent
    rw [flatMap_cons, flatMap_append, foldl_append, ih _ _ distinct, first,
      append_assoc]
    · rfl
    · intro g member
      refine ⟨(others g member).1, ?_⟩
      rw [first, Dicts.keys, map_append, mem_append, not_or]
      refine ⟨(others g member).2, fun held => ?_⟩
      exact apart (keys_entry _ _ held ▸ mem_map_of_mem member)

end Read

end OpenUltraSast.Learn.Labels
