import OpenUltraSast.Learn.Comments

/-!
# Excerpts

An excerpt shows a window of a function, redacted and numbered, and for a changed function the diff
of its two sides.
-/

namespace OpenUltraSast.Learn.Excerpts

structure Bounds where
  lines : Nat
  chars : Nat

def candidate : Bounds := ⟨80, 4000⟩

def example_ : Bounds := ⟨40, 2000⟩

def diffLines : Nat := 40

def maxLineChars : Nat := 240

structure Excerpt where
  text : Line
  sha : String
  first : Nat
  last : Nat
  truncated : Bool

inductive Edit where
  | hunk (head : Line)
  | same (base head : Nat)
  | removed (base : Nat)
  | added (head : Nat)
deriving DecidableEq

def Edit.Fits (base head : List Line) : Edit → Prop
  | .hunk _ => True
  | .same b h => b < base.length ∧ h < head.length ∧ base[b]? = head[h]?
  | .removed b => b < base.length
  | .added h => h < head.length

structure Diff (base head : List Line) where
  edits : List Edit
  fits : ∀ edit ∈ edits, edit.Fits base head

def Edit.line (base head : List Line) : Edit → Line
  | .hunk text => text
  | .same b _ => ' ' :: base[b]?.getD []
  | .removed b => '-' :: base[b]?.getD []
  | .added h => '+' :: head[h]?.getD []

/-- What the excerpts read besides the comments. -/
structure Reader extends Wording where
  resolveLanguage : List Line → String → String
  functionBounds : List Line → String → Line → Option (Nat × Nat)
  unifiedDiff : (base head : List Line) → Diff base head

variable (r : Reader)

def lineFeeds : Line → Line
  | '\r' :: '\n' :: rest => '\n' :: lineFeeds rest
  | '\r' :: rest => '\n' :: lineFeeds rest
  | c :: rest => c :: lineFeeds rest
  | [] => []

def normalise (text : Line) : Line :=
  let lines := (((lineFeeds text).splitOn '\n').map rstrip).reverse.dropWhile (· = [])
  if lines = [] then [] else ['\n'].intercalate lines.reverse ++ ['\n']

def excerptSha (sha256 : Line → String) (text : Line) : String := sha256 (normalise text)

/-- `_window(start, end, focus, size)`. -/
def window (start stop : Nat) (focus : List Nat) (size : Nat) : Nat × Nat :=
  if stop - start ≤ size then (start, stop)
  else
    let inside := ((focus.filter fun f => 1 ≤ f ∧ start ≤ f - 1 ∧ f - 1 < stop).map
      (· - 1)).insertionSort (· ≤ ·)
    match inside[inside.length / 2]? with
    | none => (start, start + size)
    | some centre =>
      let lo := max start (min (centre - size / 2) (stop - size))
      (lo, lo + size)

/-- `f"{number:>5}  {text}"` with the text cut. -/
def numberLine (number : Nat) (line : Line) : Line :=
  let text := if line.length ≤ maxLineChars then line else line.take (maxLineChars - 3) ++ "...".toList
  let digits := (toString number).toList
  List.replicate (5 - digits.length) ' ' ++ digits ++ "  ".toList ++ text

def numbered (first : Nat) (lines : List Line) : List Line :=
  lines.mapIdx fun offset line => numberLine (first + offset) line

/-- The numbered lines of an excerpt, their place in the file, and whether lines of the function are
missing. -/
structure Shown where
  rendered : List Line
  lo : Nat
  hi : Nat
  truncated : Bool

/-- The loop that drops the line farthest from the centre while the text is too long. -/
def trim (chars : Nat) (focused : Bool) : Nat → Nat → Shown → Shown
  | 0, _, shown => shown
  | fuel + 1, centre, shown =>
    let size := shown.rendered.length
    if 1 < size ∧ chars < (['\n'].intercalate shown.rendered).length then
      if focused ∧ size - 1 - centre < centre then
        trim chars focused fuel (centre - 1)
          ⟨shown.rendered.tail, shown.lo + 1, shown.lo + 1 + (size - 1), true⟩
      else
        trim chars focused fuel centre
          ⟨shown.rendered.dropLast, shown.lo, shown.lo + (size - 1), true⟩
    else shown

def windowOf (lines : List Line) (language : String) (function : Line) (bounds : Bounds)
    (focus : List Nat) : Option ((Nat × Nat) × (Nat × Nat)) := do
  if lines = [] then none
  let (start, stop) ← r.functionBounds lines (r.resolveLanguage lines language) function
  some ((start, stop), window start stop focus bounds.lines)

/-- The numbered lines that `excerpt` shows. -/
def shownLines (lines : List Line) (language : String) (function : Line) (bounds : Bounds)
    (focus : List Nat) (identities : List Line) : Option Shown := do
  let (span, (lo, hi)) ← windowOf r lines language function bounds focus
  let shown := redact r.toWording ((lines.drop lo).take (hi - lo)) (r.resolveLanguage lines language)
    identities
  let rendered := numbered (lo + 1) shown
  let centre := if focus ≠ [] then (rendered.length - 1) / 2 else 0
  some (trim bounds.chars (focus ≠ []) rendered.length centre ⟨rendered, lo, hi, (lo, hi) ≠ span⟩)

/-- `excerpt(lines, language, function, ...)`. -/
def excerpt (sha256 : Line → String) (lines : List Line) (language : String) (function : Line)
    (bounds : Bounds) (focus : List Nat) (identities : List Line) (diff : Option Line) :
    Option Excerpt := do
  let shown ← shownLines r lines language function bounds focus identities
  let body := ['\n'].intercalate shown.rendered ++
    match diff with
    | some diff => if diff = [] then [] else "\ndiff:\n".toList ++ diff
    | none => []
  let text := normalise body
  if text.all Text.isSpace then none
  some ⟨text, excerptSha sha256 text, shown.lo + 1, shown.hi, shown.truncated⟩

def redactEdit (base head : List Line) (language : String) (identities : List Line) (edit : Edit) :
    Line :=
  let line := edit.line base head
  if "@@".toList.isPrefixOf line then line
  else line.take 1 ++ (redact r.toWording [line.drop 1] language identities).headD []

def shownEdits (maxLines : Nat) (edits : List Edit) : List Edit :=
  if maxLines < edits.length then
    if maxLines = 0 then edits.dropLast else edits.take (maxLines - 1)
  else edits

/-- `delta_diff(base, head, language, ...)`. -/
def deltaDiff (base head : List Line) (language : String) (maxLines : Nat)
    (identities : List Line) : Line :=
  let language := r.resolveLanguage head language
  let edits := (r.unifiedDiff base head).edits
  let out := (shownEdits maxLines edits).map (redactEdit r base head language identities)
  let more := if maxLines < edits.length then
    ["... (".toList ++ (toString (edits.length - maxLines + 1)).toList ++ " more diff lines)".toList]
  else []
  ['\n'].intercalate (out ++ more)

end OpenUltraSast.Learn.Excerpts

/-!
## What an excerpt hides

The lines of an excerpt and of a diff are those of the redacted file wherever the comments that the
redaction changes are the same for a reading that begins at the window, or at the line itself, and one
that begins with the file.
-/

namespace OpenUltraSast.Learn.Excerpts

open List

theorem length_comments (language : String) (lines : List Line) :
    ∀ state, (comments language state lines).length = lines.length := by
  induction lines with
  | nil => intro _; rfl
  | cons line rest ih => intro _; simp [comments, ih]

theorem comments_take (language : String) (lines : List Line) :
    ∀ state n, comments language state (lines.take n) = (comments language state lines).take n := by
  induction lines with
  | nil => intro _ _; simp [comments]
  | cons line rest ih =>
    intro state n
    cases n with
    | zero => rfl
    | succ n => simp [comments, ih]

def opened (language : String) (lines : List Line) : Option Open :=
  lines.foldl (fun state line => (commentRanges language line state).2) none

private theorem comments_append (language : String) (front back : List Line) :
    ∀ state, comments language state (front ++ back)
      = comments language state front ++ comments language
          (front.foldl (fun state line => (commentRanges language line state).2) state) back := by
  induction front with
  | nil => intro _; rfl
  | cons line rest ih => intro _; simp [comments, ih]

variable {lines identities : List Line}

/-- From a line on that no comment before it reaches, a file reads like one that begins there. -/
theorem comments_drop {language : String} {n : Nat} (outside : opened language (lines.take n) = none) :
    (comments language none lines).drop n = comments language none (lines.drop n) := by
  have split := comments_append language (lines.take n) (lines.drop n) none
  rw [take_append_drop] at split
  rw [split, comments_take, ← opened, outside, drop_append, drop_take]
  rcases Nat.le_total n lines.length with within | past
  · simp [length_comments, within]
  · simp [drop_eq_nil_of_le past, comments]

variable {r : Reader}

theorem length_redact (w : Wording) (lines : List Line) (language : String)
    (identities : List Line) : (redact w lines language identities).length = lines.length := by
  simp [redact, length_comments]

theorem redact_getElem? (w : Wording) (lines : List Line) (language : String)
    (identities : List Line) (i : Nat) :
    (redact w lines language identities)[i]? =
      lines[i]?.bind fun line => (comments (w.canonicalLanguage language) none lines)[i]?.map
        (redactLine w identities line) := by
  rw [redact, List.getElem?_zipWith]
  cases lines[i]? <;> cases (comments (w.canonicalLanguage language) none lines)[i]? <;> rfl

theorem redact_congr {w : Wording} {lines others : List Line} {language other : String}
    {identities : List Line} {i j : Nat} (text : lines[i]? = others[j]?)
    (same : ∀ line, lines[i]? = some line →
      (comments (w.canonicalLanguage language) none lines)[i]?.map (telling w line) =
        (comments (w.canonicalLanguage other) none others)[j]?.map (telling w line)) :
    (redact w lines language identities)[i]? = (redact w others other identities)[j]? := by
  rw [redact_getElem?, redact_getElem?, ← text]
  cases at_ : lines[i]? with
  | none => rfl
  | some line =>
    have length {file : List Line} {n : Nat} (found : file[n]? = some line) (language : String) :
        ∃ ranges, (comments language none file)[n]? = some ranges := by
      have inside := (List.getElem?_eq_some_iff.mp found).1
      exact ⟨_, List.getElem?_eq_getElem (by rwa [length_comments])⟩
    obtain ⟨ranges, read⟩ := length at_ (w.canonicalLanguage language)
    obtain ⟨ranges', read'⟩ := length (text ▸ at_) (w.canonicalLanguage other)
    have alike := same line at_
    rw [read, read', Option.map_some, Option.map_some, Option.some.injEq] at alike
    rw [Option.bind_some, Option.bind_some, read, read', Option.map_some, Option.map_some,
      redactLine_congr (comments_ordered at_ read) (comments_ordered (text ▸ at_) read') alike]

def ExcerptRedacted (r : Reader) (lines : List Line) (language : String) (function : Line)
    (bounds : Bounds) (focus : List Nat) (identities : List Line) : Prop :=
  ∀ shown, shownLines r lines language function bounds focus identities = some shown →
    shown.rendered = numbered (shown.lo + 1)
      (((redact r.toWording lines (r.resolveLanguage lines language) identities).drop shown.lo).take
        shown.rendered.length)

/-- Every line that the excerpt shows has the same telling comments, read from the window or from the
file. -/
def SameInWindow (r : Reader) (lines : List Line) (language : String) (function : Line)
    (bounds : Bounds) (focus : List Nat) (identities : List Line) : Prop :=
  ∀ span lo hi, windowOf r lines language function bounds focus = some (span, (lo, hi)) →
    ∀ shown, shownLines r lines language function bounds focus identities = some shown →
      ∀ i, shown.lo ≤ i → i < shown.lo + shown.rendered.length → ∀ line, lines[i]? = some line →
        let language := r.canonicalLanguage (r.resolveLanguage lines language)
        (comments language none (lines.drop lo))[i - lo]?.map (telling r.toWording line) =
          (comments language none lines)[i]?.map (telling r.toWording line)

private theorem trim_part (chars : Nat) (focused : Bool) (fuel : Nat) :
    ∀ centre shown, ∃ k, (trim chars focused fuel centre shown).lo = shown.lo + k ∧
      (trim chars focused fuel centre shown).rendered <+: shown.rendered.drop k := by
  induction fuel with
  | zero => intro _ shown; exact ⟨0, rfl, prefix_rfl⟩
  | succ fuel ih =>
    intro centre shown
    rw [trim]
    split
    next =>
      split
      next =>
        -- the first line is dropped: what follows is a piece of the rest
        obtain ⟨k, place, part⟩ := ih (centre - 1)
          ⟨shown.rendered.tail, shown.lo + 1, shown.lo + 1 + (shown.rendered.length - 1), true⟩
        refine ⟨k + 1, place.trans (Nat.add_right_comm _ 1 k), ?_⟩
        rwa [drop_tail] at part
      next =>
        obtain ⟨k, place, part⟩ := ih centre
          ⟨shown.rendered.dropLast, shown.lo, shown.lo + (shown.rendered.length - 1), true⟩
        exact ⟨k, place, part.trans (( dropLast_prefix _).drop k)⟩
    next => exact ⟨0, rfl, prefix_rfl⟩

theorem numbered_getElem? (first : Nat) (lines : List Line) (i : Nat) :
    (numbered first lines)[i]? = lines[i]?.map (numberLine (first + i)) := by
  rw [numbered, List.getElem?_mapIdx]

variable {focus : List Nat} {function : Line} {bounds : Bounds}

theorem shownLines_part {language : String}
    {shown : Shown} (found : shownLines r lines language function bounds focus identities = some shown) :
    ∃ span lo hi k, windowOf r lines language function bounds focus = some (span, (lo, hi)) ∧
      shown.lo = lo + k ∧
      shown.rendered <+: (numbered (lo + 1) (redact r.toWording ((lines.drop lo).take (hi - lo))
        (r.resolveLanguage lines language) identities)).drop k := by
  rw [shownLines, Option.bind_eq_bind, Option.bind_eq_some_iff] at found
  obtain ⟨⟨span, lo, hi⟩, cut, kept⟩ := found
  cases kept
  obtain ⟨k, place, part⟩ := trim_part bounds.chars (decide (focus ≠ [])) _ _ _
  exact ⟨span, lo, hi, k, cut, place, part⟩

private theorem excerptRedacted_of_same {language : String}
    (same : SameInWindow r lines language function bounds focus identities) :
    ExcerptRedacted r lines language function bounds focus identities := by
  intro shown found
  obtain ⟨span, lo, hi, k, cut, place, part⟩ := shownLines_part found
  have reads := same span lo hi cut shown found
  apply ext_getElem?
  intro j
  rw [numbered_getElem?, List.getElem?_take]
  split
  next within =>
    have inside : k + j < hi - lo := by
      have most := part.length_le
      simp only [numbered, length_drop, length_mapIdx, redact, length_zipWith,
        length_take, length_comments] at most
      omega
    -- the line of the window is that of the file, and so are its telling comments
    have line : ((lines.drop lo).take (hi - lo))[k + j]? = lines[shown.lo + j]? := by
      rw [List.getElem?_take_of_lt inside, List.getElem?_drop, place, Nat.add_assoc]
    have ranges := reads (shown.lo + j) (Nat.le_add_right _ _) (by omega)
    rw [show shown.lo + j - lo = k + j by omega] at ranges
    rw [List.getElem?_eq_getElem within, ← prefix_iff_getElem?.mp part j within,
      List.getElem?_drop, List.getElem?_drop, numbered_getElem?, redact_congr line ?_]
    · congr 2
      omega
    · rw [line, comments_take, List.getElem?_take_of_lt inside]
      exact ranges
  next past => rw [List.getElem?_eq_none (by omega), Option.map_none]

private theorem sameInWindow_of_outside {language : String}
    (outside : ∀ span lo hi, windowOf r lines language function bounds focus = some (span, (lo, hi)) →
      opened (r.canonicalLanguage (r.resolveLanguage lines language)) (lines.take lo) = none) :
    SameInWindow r lines language function bounds focus identities := by
  intro span lo hi cut shown found i from_ _ _ _
  obtain ⟨span', lo', hi', k, cut', place, -⟩ := shownLines_part found
  cases cut.symm.trans cut'
  dsimp only
  rw [← comments_drop (outside span lo hi cut), List.getElem?_drop, Nat.add_sub_of_le (by omega)]

structure Version where
  file : List Line
  start : Nat
  stop : Nat

def Version.side (v : Version) : List Line := (v.file.drop v.start).take (v.stop - v.start)

/-- Where the line of an edit stands in the files. -/
def Edit.origins (base head : Version) : Edit → List (Version × Nat)
  | .hunk _ => []
  | .same b h => [(base, base.start + b), (head, head.start + h)]
  | .removed b => [(base, base.start + b)]
  | .added h => [(head, head.start + h)]

section Diff
variable (r : Reader) (base head : Version) (language : String) (maxLines : Nat)

def diffEdits : List Edit := shownEdits maxLines (r.unifiedDiff base.side head.side).edits

def DiffRedacted (identities : List Line) : Prop :=
  ∀ edit ∈ diffEdits r base head maxLines, ∀ origin ∈ edit.origins base head,
    some ((redactEdit r base.side head.side (r.resolveLanguage head.side language) identities
      edit).drop 1) =
    (redact r.toWording origin.1.file (r.resolveLanguage origin.1.file language)
      identities)[origin.2]?

/-- Every line of the diff has the same telling comments, read alone or in its file. -/
def SameInDiff : Prop :=
  ∀ edit ∈ diffEdits r base head maxLines, ∀ origin ∈ edit.origins base head,
    ∀ line, origin.1.file[origin.2]? = some line →
      (comments (r.canonicalLanguage (r.resolveLanguage head.side language)) none
          [line])[0]?.map (telling r.toWording line) =
        (comments (r.canonicalLanguage (r.resolveLanguage origin.1.file language)) none
          origin.1.file)[origin.2]?.map (telling r.toWording line)

end Diff

theorem Version.side_getElem? {v : Version} {i : Nat} (within : i < v.side.length) :
    v.side[i]? = v.file[v.start + i]? := by
  have inside : i < v.stop - v.start := by
    have most := within
    rw [side, length_take] at most
    omega
  rw [side, List.getElem?_take_of_lt inside, List.getElem?_drop]

theorem Edit.line_of_origin {base head : Version} {edit : Edit}
    (fits : edit.Fits base.side head.side) {origin : Version × Nat}
    (member : origin ∈ edit.origins base head) :
    ∃ mark text, origin.1.file[origin.2]? = some text ∧ mark ≠ '@' ∧
      edit.line base.side head.side = mark :: text := by
  have read {v : Version} {i : Nat} (within : i < v.side.length) :
      v.file[v.start + i]? = some (v.side[i]?.getD []) := by
    rw [← Version.side_getElem? within, List.getElem?_eq_getElem within]
    rfl
  cases edit with
  | hunk => cases member
  | same b h =>
    obtain ⟨inBase, inHead, common⟩ := fits
    rcases mem_pair.mp member with rfl | rfl
    · exact ⟨' ', _, read inBase, by decide, rfl⟩
    · exact ⟨' ', _, read inHead, by decide, by rw [Edit.line, common]⟩
  | removed b =>
    cases mem_singleton.mp member
    exact ⟨'-', _, read fits, by decide, rfl⟩
  | added h =>
    cases mem_singleton.mp member
    exact ⟨'+', _, read fits, by decide, rfl⟩

private theorem mem_of_mem_shownEdits {maxLines : Nat} {edits : List Edit} {edit : Edit}
    (member : edit ∈ shownEdits maxLines edits) : edit ∈ edits := by
  unfold shownEdits at member
  split at member
  · split at member
    · exact mem_of_mem_dropLast member
    · exact mem_of_mem_take member
  · exact member

private theorem diffRedacted_of_same {base head : Version} {language : String} {maxLines : Nat}
    (same : SameInDiff r base head language maxLines) :
    DiffRedacted r base head language maxLines identities := by
  intro edit shown origin member
  have fits := (r.unifiedDiff base.side head.side).fits edit (mem_of_mem_shownEdits shown)
  obtain ⟨mark, text, read, other, line⟩ := edit.line_of_origin fits member
  have plain : "@@".toList.isPrefixOf (mark :: text) = false := by
    have apart : ¬ '@' = mark := fun same => other same.symm
    simp [List.isPrefixOf, apart]
  have alone := @redact_congr r.toWording [text] _ _ _ identities 0 _ (by rw [read]; rfl)
    fun found held => by cases held; exact same edit shown origin member text read
  rw [redactEdit, line, plain, ← alone]
  simp [redact, comments]

/-- An excerpt and a diff show what the redacted files show, when each line that they show has the
same comments whether its reading begins with the file or with the window or the line. -/
theorem redacted_of_same {lines : List Line} {language : String} {function : Line} {bounds : Bounds}
    {focus : List Nat} {identities : List Line} {base head : Version} {maxLines : Nat}
    (window : SameInWindow r lines language function bounds focus identities)
    (diff : SameInDiff r base head language maxLines) :
    ExcerptRedacted r lines language function bounds focus identities ∧
      DiffRedacted r base head language maxLines identities :=
  ⟨excerptRedacted_of_same window, diffRedacted_of_same diff⟩

def lineDiff (base head : List Line) : Diff base head where
  edits := .hunk (s!"@@ -1,{base.length} +1,{head.length} @@").toList ::
    (List.range (max base.length head.length)).flatMap fun i =>
      if base[i]? = head[i]? then [.same i i]
      else (if i < base.length then [.removed i] else []) ++
        if i < head.length then [.added i] else []
  fits edit member := by
    rcases mem_cons.mp member with rfl | member
    · trivial
    · obtain ⟨i, inside, shown⟩ := mem_flatMap.mp member
      rw [mem_range] at inside
      split at shown
      next common =>
        cases mem_singleton.mp shown
        have ends : base.length ≤ i ↔ head.length ≤ i := by
          rw [← List.getElem?_eq_none_iff, ← List.getElem?_eq_none_iff, common]
        exact ⟨by omega, by omega, common⟩
      next =>
        rcases mem_append.mp shown with removed | added
        · split at removed
          next within => cases mem_singleton.mp removed; exact within
          next => cases removed
        · split at added
          next within => cases mem_singleton.mp added; exact within
          next => cases added

def wholeReader : Reader where
  canonicalLanguage := id
  securityReason text :=
    if Text.contains (String.ofList text) "xss" then some "english" else none
  subAdvisory := id
  subIdentities _ := id
  resolveLanguage _ language := language
  functionBounds lines _ _ := some (0, lines.length)
  unifiedDiff := lineDiff

def noted (note : String) : List Line := ["/* prevent".toList, note.toList]

def versionOf (file : List Line) : Version := ⟨file, 0, file.length⟩

/-- A comment over two lines, and behind it one with security wording. -/
def closedNote (value : String) : List Line :=
  ["/* two".toList, "   lines */".toList, ("y = " ++ value ++ "; /* xss */").toList]

theorem redacted_closedNote :
    (shownLines wholeReader (closedNote "2") "c" "<module>".toList ⟨1, 4000⟩ [3] []).map (·.lo) =
        some 2 ∧
      ExcerptRedacted wholeReader (closedNote "2") "c" "<module>".toList ⟨1, 4000⟩ [3] [] ∧
      DiffRedacted wholeReader (versionOf (closedNote "2")) (versionOf (closedNote "3")) "c"
        diffLines [] := by
  refine ⟨by decide +kernel, redacted_of_same ?_ ?_⟩
  · apply sameInWindow_of_outside
    intro span lo hi cut
    cases cut
    decide +kernel
  · have all : ∀ edit ∈ diffEdits wholeReader (versionOf (closedNote "2"))
          (versionOf (closedNote "3")) diffLines,
        ∀ origin ∈ edit.origins (versionOf (closedNote "2")) (versionOf (closedNote "3")),
          (comments "c" none [origin.1.file[origin.2]?.getD []])[0]?.map
              (telling wholeReader.toWording (origin.1.file[origin.2]?.getD [])) =
            (comments "c" none origin.1.file)[origin.2]?.map
              (telling wholeReader.toWording (origin.1.file[origin.2]?.getD [])) := by
      decide +kernel
    intro edit shown origin member line at_
    have same := all edit shown origin member
    rwa [at_] at same

/-- The window begins inside the comment, and the changed lines of the diff stand in it. -/
theorem shown_inside_comment :
    ¬ ExcerptRedacted wholeReader (noted "   xss here */") "c" "<module>".toList ⟨1, 4000⟩ [2] [] ∧
      ¬ DiffRedacted wholeReader (versionOf (noted "   xss here */"))
        (versionOf (noted "   xss there */")) "c" diffLines [] := by
  constructor
  · intro redacted
    have found : (shownLines wholeReader (noted "   xss here */") "c" "<module>".toList ⟨1, 4000⟩ [2]
        []).map (fun shown => (shown.rendered, shown.lo)) =
          some (["    2     xss here */".toList], 1) := by decide +kernel
    obtain ⟨shown, kept, same⟩ := Option.map_eq_some_iff.mp found
    obtain ⟨rendered, place⟩ := Prod.mk.inj same
    have lines := redacted shown kept
    rw [rendered, place] at lines
    revert lines
    decide +kernel
  · intro redacted
    have edit := redacted (.removed 1) (by decide +kernel) (_, 1) mem_cons_self
    revert edit
    decide +kernel

end OpenUltraSast.Learn.Excerpts
