import OpenUltraSast.Library.Joined
import OpenUltraSast.Learn.Excerpt

/-!
# What an excerpt is centred on

The window is laid around the middle one of the focus lines, but the loop over the characters drops
the lines farthest from the middle of the window.
-/

namespace OpenUltraSast.Learn.Excerpts

open List

variable {c : Char} {line : Line}

theorem mem_rstrip (inside : c ∈ line) (visible : Text.isSpace c = false) :
    c ∈ rstrip line :=
  Joined.mem_rdropWhile inside visible

private theorem mem_of_mem_rstrip (inside : c ∈ rstrip line) : c ∈ line :=
  ( rdropWhile_prefix Text.isSpace line).mem inside

variable {text : Line}

private theorem mem_lineFeeds (inside : c ∈ text) (other : c ≠ '\r') :
    c ∈ lineFeeds text := by
  induction text using lineFeeds.induct with
  | case1 rest ih =>
    rw [lineFeeds]
    simp only [mem_cons] at inside ⊢
    rcases inside with same | same | later
    · exact absurd same other
    · exact .inl same
    · exact .inr (ih later)
  | case2 rest _ ih =>
    rw [lineFeeds]
    · rcases mem_cons.mp inside with same | later
      · exact absurd same other
      · exact mem_cons_of_mem _ (ih later)
    · assumption
  | case3 d rest _ _ ih =>
    rw [lineFeeds]
    · rcases mem_cons.mp inside with rfl | later
      · exact mem_cons_self
      · exact mem_cons_of_mem _ (ih later)
    all_goals assumption
  | case4 => cases inside

theorem lineFeeds_append {front : Line} (plain : '\r' ∉ front) (back : Line) :
    lineFeeds (front ++ back) = front ++ lineFeeds back := by
  induction front with
  | nil => rfl
  | cons c rest ih =>
    obtain ⟨other, plain⟩ := not_or.mp (mt mem_cons.mpr plain)
    rw [cons_append, lineFeeds, ih plain, cons_append]
    · rintro _ rfl
      exact absurd rfl other
    · rintro rfl
      exact absurd rfl other

def normalLines (text : Line) : List Line :=
  (((lineFeeds text).splitOn '\n').map rstrip).rdropWhile (· = [])

theorem normalise_eq (text : Line) :
    normalise text =
      if normalLines text = [] then [] else ['\n'].intercalate (normalLines text) ++ ['\n'] := by
  simp only [normalise, normalLines, List.rdropWhile, reverse_eq_nil_iff]

private theorem mem_normalise (inside : c ∈ text)
    (visible : Text.isSpace c = false) : c ∈ normalise text := by
  have noBreak : c ≠ '\r' ∧ c ≠ '\n' := by
    constructor <;> rintro rfl <;> revert visible <;> decide
  obtain ⟨piece, member, inside⟩ := Joined.mem_piece (mem_lineFeeds inside noBreak.1) noBreak.2
  have stays := mem_rstrip inside visible
  have line : rstrip piece ∈ normalLines text :=
    Joined.mem_rdropWhile (mem_map_of_mem member) (decide_eq_false (ne_nil_of_mem stays))
  rw [normalise_eq, if_neg (ne_nil_of_mem line)]
  exact mem_append_left _ (Joined.mem_joined '\n' line stays)

theorem normalLines_unbroken {text line : Line} (member : line ∈ normalLines text) : '\n' ∉ line := by
  obtain ⟨piece, part, rfl⟩ := mem_map.mp (( rdropWhile_prefix _ _).mem member)
  exact fun broken => Joined.not_mem_piece part (mem_of_mem_rstrip broken)

theorem splitOn_normalise (some_ : normalLines text ≠ []) :
    (normalise text).splitOn '\n' = normalLines text ++ [[]] := by
  rw [normalise_eq, if_neg some_, splitOn_append_cons_self,
    splitOn_intercalate '\n' (fun _ => normalLines_unbroken) some_, splitOn_nil]

structure Legible (line : Line) : Prop where
  feed : '\n' ∉ line
  return_ : '\r' ∉ line
  visible : rstrip line ≠ []

theorem return_not_mem {lines : List Line} (legible : ∀ line ∈ lines, Legible line) :
    '\r' ∉ ['\n'].intercalate lines := by
  intro inside
  rcases Joined.mem_of_mem_joined inside with same | ⟨line, member, inside⟩
  · revert same
    decide
  · exact (legible line member).return_ inside

theorem splitOn_joined {lines : List Line} (some_ : lines ≠ [])
    (legible : ∀ line ∈ lines, Legible line) : (['\n'].intercalate lines).splitOn '\n' = lines :=
  splitOn_intercalate '\n' (fun line member => (legible line member).feed) some_

theorem rdropWhile_legible {lines : List Line} (legible : ∀ line ∈ lines, Legible line)
    (more : List Line) : (lines.map rstrip ++ more).rdropWhile (· = []) =
      lines.map rstrip ++ more.rdropWhile (· = []) := by
  apply Joined.rdropWhile_append
  intro stripped kept
  obtain ⟨line, member, rfl⟩ := mem_map.mp kept
  exact decide_eq_false (legible line member).visible

private theorem normalLines_joined {lines : List Line} (some_ : lines ≠ [])
    (legible : ∀ line ∈ lines, Legible line) :
    normalLines (['\n'].intercalate lines) = lines.map rstrip := by
  have feeds := lineFeeds_append (return_not_mem legible) []
  rw [append_nil, lineFeeds, append_nil] at feeds
  have kept := rdropWhile_legible legible []
  rw [append_nil, rdropWhile_nil, append_nil] at kept
  rw [normalLines, feeds, splitOn_joined some_ legible, kept]

theorem normalLines_append {lines : List Line} (some_ : lines ≠ [])
    (legible : ∀ line ∈ lines, Legible line) (more : Line) :
    normalLines (['\n'].intercalate lines ++ '\n' :: more) =
      lines.map rstrip ++ normalLines more := by
  have feed : lineFeeds ('\n' :: more) = '\n' :: lineFeeds more := by
    rw [lineFeeds] <;> simp
  rw [normalLines, lineFeeds_append (return_not_mem legible), feed, splitOn_append_cons_self,
    splitOn_joined some_ legible, map_append, rdropWhile_legible legible, ← normalLines]

private theorem digit_visible (digit : c.isDigit) : Text.isSpace c = false := by
  simp only [Char.isDigit, Bool.and_eq_true, decide_eq_true_eq] at digit
  have low : 48 ≤ c.toNat := digit.1
  have high : c.toNat ≤ 57 := digit.2
  simp [Text.isSpace]
  omega

private theorem numberLine_visible (number : Nat) (line : Line) :
    ∃ c ∈ numberLine number line, Text.isSpace c = false := by
  obtain ⟨c, rest, digits⟩ := exists_cons_of_ne_nil
    (show (toString number).toList ≠ [] by simp)
  have inside : c ∈ (toString number).toList := digits ▸ mem_cons_self
  have digit : c.isDigit :=
    Nat.isDigit_of_mem_toDigits (b := 10) (by decide) (by decide) (Nat.toList_repr ▸ inside)
  refine ⟨c, ?_, digit_visible digit⟩
  exact mem_append_left _ (mem_append_left _ (mem_append_right _ inside))

/-- The lines around the middle of a window that begins at `lo`. -/
def around (window : List Line) (lo size : Nat) (truncated : Bool) : Shown where
  rendered := Centred.piece window size
  lo := lo + Centred.start window.length size
  hi := lo + Centred.start window.length size + size
  truncated := truncated

def centreOf (length size : Nat) : Nat := Centred.middle length - Centred.start length size

theorem fromFront_iff {length size : Nat} (within : size + 1 ≤ length) :
    Centred.fromFront length (size + 1) ↔
      size - centreOf length (size + 1) < centreOf length (size + 1) := by
  simp only [Centred.fromFront, centreOf, Centred.start, Centred.middle]
  omega

/-- One turn of the loop goes from the centred piece of one size to that of the next smaller. -/
theorem trim_step {chars : Nat} {window : List Line} {lo size : Nat} {truncated : Bool} (fuel : Nat)
    (some_ : 1 ≤ size) (within : size + 1 ≤ window.length)
    (long : chars < (['\n'].intercalate (Centred.piece window (size + 1))).length) :
    trim chars true (fuel + 1) (centreOf window.length (size + 1))
        (around window lo (size + 1) truncated) =
      trim chars true fuel (centreOf window.length size) (around window lo size true) := by
  have length := Centred.length_piece within
  have more : 1 < size + 1 := Nat.lt_succ_of_le some_
  -- the loop compares the distances of both ends from the centre, as the pieces do
  have ends := fromFront_iff within
  simp only [around]
  rw [trim, length, if_pos ⟨more, long⟩, Nat.add_sub_cancel]
  by_cases front : Centred.fromFront window.length (size + 1)
  · rw [if_pos ⟨rfl, ends.mp front⟩, ← Centred.piece_front front, Centred.start_front front]
    congr 1
    rw [centreOf, centreOf, Centred.start_front front]
    omega
  · rw [if_neg fun both => front (ends.mpr both.2), ← Centred.piece_back within front, centreOf,
      centreOf, Centred.start_back front]

private theorem trim_around (chars : Nat) (window : List Line) (lo : Nat) (fuel : Nat) :
    ∀ size truncated, 1 ≤ size → size ≤ window.length → size ≤ fuel + 1 →
      ∃ left truncated', 1 ≤ left ∧ left ≤ size ∧
        trim chars true fuel (centreOf window.length size) (around window lo size truncated) =
          around window lo left truncated' ∧
        (left = 1 ∨ (['\n'].intercalate (Centred.piece window left)).length ≤ chars) ∧
        ∀ larger, left < larger → larger ≤ size →
          chars < (['\n'].intercalate (Centred.piece window larger)).length := by
  induction fuel with
  | zero =>
    intro size truncated some_ _ most
    exact ⟨size, truncated, some_, Nat.le_refl _, rfl, .inl (by omega), fun _ _ _ => by omega⟩
  | succ fuel ih =>
    intro size truncated some_ within most
    by_cases long : 1 < size ∧ chars < (['\n'].intercalate (Centred.piece window size)).length
    · -- too long: one round, and the rest of the loop on the smaller piece
      obtain ⟨smaller, rfl⟩ : ∃ smaller, size = smaller + 1 := ⟨size - 1, by omega⟩
      obtain ⟨left, truncated', one, order, same, short, larger⟩ :=
        ih smaller true (by omega) (by omega) (by omega)
      refine ⟨left, truncated', one, by omega, ?_, short, ?_⟩
      · rw [trim_step fuel (by omega) within long.2, same]
      · intro bigger above below
        rcases Nat.lt_or_eq_of_le below with under | rfl
        · exact larger bigger above (by omega)
        · exact long.2
    · refine ⟨size, truncated, some_, Nat.le_refl _, ?_, by omega, fun _ _ _ => by omega⟩
      rw [trim]
      simp only [around, Centred.length_piece within, long, if_false]

variable {left : Nat} {shown : Shown}

theorem kept_iff {chars : Nat} {window : List Line} {place : Nat} (some_ : 1 ≤ left)
    (within : left ≤ window.length) (inside : place < window.length)
    (short : left = 1 ∨ (['\n'].intercalate (Centred.piece window left)).length ≤ chars)
    (larger : ∀ size, left < size → size ≤ window.length →
      chars < (['\n'].intercalate (Centred.piece window size)).length) :
    Centred.start window.length left ≤ place ∧ place < Centred.start window.length left + left ↔
      Centred.reach window.length place = 1 ∨ (['\n'].intercalate
        (Centred.piece window (Centred.reach window.length place))).length ≤ chars := by
  rw [Centred.held_iff some_ within inside]
  have least := Centred.reach_pos inside
  constructor
  · intro held
    rcases short with rfl | short
    · exact .inl (by omega)
    · -- a smaller piece has fewer lines, so it fits as well
      exact .inr ((Joined.length_joined_le (Centred.piece_sublist held within)).trans short)
  · rintro (one | fits)
    · omega
    · by_contra above
      have long := larger _ (Nat.lt_of_not_le above) (Centred.reach_le _ _)
      omega

def middleFocus (focus : List Nat) : Nat :=
  (focus.insertionSort (· ≤ ·))[focus.length / 2]?.getD 0

/-- The focus is in the function, which stands in the file. -/
structure Inside (lines : List Line) (span : Nat × Nat) (focus : List Nat) : Prop where
  within : span.2 ≤ lines.length
  some_ : focus ≠ []
  lines : ∀ line ∈ focus, span.1 < line ∧ line ≤ span.2

section Window
variable {lines : List Line} {span : Nat × Nat} {focus : List Nat} {size : Nat}

theorem middleFocus_getElem? (some_ : focus ≠ []) :
    (focus.insertionSort (· ≤ ·))[focus.length / 2]? = some (middleFocus focus) := by
  have short : focus.length / 2 < (focus.insertionSort (· ≤ ·)).length := by
    rw [length_insertionSort]
    exact Nat.div_lt_self (length_pos_of_ne_nil some_) (by decide)
  rw [middleFocus, List.getElem?_eq_getElem short, Option.getD_some]

theorem middleFocus_mem (some_ : focus ≠ []) : middleFocus focus ∈ focus :=
  (mem_insertionSort _).mp (mem_of_getElem? (middleFocus_getElem? some_))

section
variable (inside : Inside lines span focus)
include inside

private theorem window_focus :
    ((focus.filter fun f => 1 ≤ f ∧ span.1 ≤ f - 1 ∧ f - 1 < span.2).map (· - 1)).insertionSort
      (· ≤ ·) = (focus.insertionSort (· ≤ ·)).map (· - 1) := by
  -- no focus line is outside the function, so none is left out
  have all : focus.filter (fun f => 1 ≤ f ∧ span.1 ≤ f - 1 ∧ f - 1 < span.2) = focus := by
    apply filter_eq_self.mpr
    intro line member
    have between := inside.lines line member
    exact decide_eq_true (by omega)
  rw [all]
  refine (map_insertionSort (r := (· ≤ ·)) (s := (· ≤ ·)) _ _ fun a left b right => ?_).symm
  have first := inside.lines a left
  have second := inside.lines b right
  omega

theorem window_eq (long : ¬ span.2 - span.1 ≤ size) :
    window span.1 span.2 focus size =
      let lo := max span.1 (min (middleFocus focus - 1 - size / 2) (span.2 - size))
      (lo, lo + size) := by
  simp only [window, if_neg long]
  rw [window_focus inside]
  simp only [length_map, length_insertionSort, List.getElem?_map,
    middleFocus_getElem? inside.some_, Option.map_some]

private theorem window_zero :
    (window span.1 span.2 focus 0).2 = (window span.1 span.2 focus 0).1 := by
  have between := inside.lines _ (middleFocus_mem inside.some_)
  rw [window_eq inside (by omega)]
  rfl

end

theorem window_ordered (size : Nat) (inside : Inside lines span focus) :
    (window span.1 span.2 focus size).1 ≤ (window span.1 span.2 focus size).2 ∧
      ((window span.1 span.2 focus size).2 ≤ span.2 ∨ size = 0) := by
  have between := inside.lines _ (middleFocus_mem inside.some_)
  by_cases short : span.2 - span.1 ≤ size
  · rw [window, if_pos short]
    exact ⟨by omega, .inl (Nat.le_refl _)⟩
  · rw [window_eq inside short]
    dsimp only
    omega

theorem window_holds (inside : Inside lines span focus) (some_ : 1 ≤ size) :
    let view := window span.1 span.2 focus size
    span.1 ≤ view.1 ∧ view.1 < middleFocus focus ∧ middleFocus focus ≤ view.2 ∧ view.2 ≤ span.2 ∧
      view.2 - view.1 ≤ size := by
  have between := inside.lines _ (middleFocus_mem inside.some_)
  by_cases short : span.2 - span.1 ≤ size
  · rw [window, if_pos short]
    exact ⟨Nat.le_refl _, between.1, between.2, Nat.le_refl _, short⟩
  · rw [window_eq inside short]
    dsimp only
    omega

end Window

section Keeps
variable (r : Reader) (lines : List Line) (language : String) (span : Nat × Nat) (bounds : Bounds)
  (focus : List Nat) (identities : List Line)

def redactedWindow : List Line :=
  let (lo, hi) := window span.1 span.2 focus bounds.lines
  redact r.toWording ((lines.drop lo).take (hi - lo)) (r.resolveLanguage lines language) identities

def wholeWindow : List Line :=
  numbered ((window span.1 span.2 focus bounds.lines).1 + 1)
    (redactedWindow r lines language span bounds focus identities)

def shownAs (number : Nat) : Option Line :=
  ((redactedWindow r lines language span bounds focus identities)[number - 1 -
    (window span.1 span.2 focus bounds.lines).1]?).map (numberLine number)

structure Keeps (diff : Option Line) (e : Excerpt) (shown : List Line) : Prop where
  first : span.1 < e.first
  last : e.last ≤ span.2
  count : shown.length + e.first = e.last + 1
  some_ : 1 ≤ shown.length
  short : shown.length ≤ bounds.lines
  chars : shown.length = 1 ∨ (['\n'].intercalate shown).length ≤ bounds.chars
  numbers : ∀ i < shown.length,
    shown[i]? = shownAs r lines language span bounds focus identities (e.first + i)
  /-- The text begins with these lines (a line of a file has no line break in it), and what follows
  is its end or the diff. -/
  text : (∀ line ∈ shown, '\n' ∉ line ∧ '\r' ∉ line) →
    ∃ rest, e.text.splitOn '\n' = shown.map rstrip ++ rest ∧
      if diff.getD [] = [] then rest = [[]] else rest.head? = some "diff:".toList
  focus : (e.first ≤ middleFocus focus ∧ middleFocus focus ≤ e.last) ∨
    ∃ line ∈ shownAs r lines language span bounds focus identities (middleFocus focus),
      bounds.chars < line.length

/-- The middle focus line is longer than the bound, or the smallest piece around the middle of the
window that holds it is not. -/
def FocusFits : Prop :=
  let whole := wholeWindow r lines language span bounds focus identities
  let place := middleFocus focus - 1 - (window span.1 span.2 focus bounds.lines).1
  1 ≤ bounds.lines ∧ ((∃ line ∈ whole[place]?, bounds.chars < line.length) ∨
    (['\n'].intercalate (Centred.piece whole (Centred.reach whole.length place))).length ≤
      bounds.chars)

end Keeps

def afterLines (diff : Option Line) : Line :=
  if diff.getD [] = [] then [] else '\n' :: ("diff:".toList ++ '\n' :: diff.getD [])

theorem excerpt_eq (r : Reader) (sha256 : Line → String) (lines : List Line) (language : String)
    (function : Line) (bounds : Bounds) (focus : List Nat) (identities : List Line)
    (diff : Option Line) :
    excerpt r sha256 lines language function bounds focus identities diff =
      (shownLines r lines language function bounds focus identities).bind fun shown =>
        let text := normalise (['\n'].intercalate shown.rendered ++ afterLines diff)
        if text.all Text.isSpace then none
        else some ⟨text, excerptSha sha256 text, shown.lo + 1, shown.hi, shown.truncated⟩ := by
  unfold excerpt
  cases shownLines r lines language function bounds focus identities with
  | none => rfl
  | some shown =>
    cases diff with
    | none => rfl
    | some diff =>
      have marked : "\ndiff:\n".toList ++ diff = '\n' :: ("diff:".toList ++ '\n' :: diff) := rfl
      rcases eq_or_ne diff [] with rfl | some_
      · rfl
      · simp only [afterLines, Option.getD_some, if_neg some_, ← marked]
        rfl

private theorem text_lines {shown : List Line} (some_ : shown ≠ [])
    (legible : ∀ line ∈ shown, Legible line) (diff : Option Line) :
    ∃ rest, (normalise (['\n'].intercalate shown ++ afterLines diff)).splitOn '\n' =
        shown.map rstrip ++ rest ∧
      if diff.getD [] = [] then rest = [[]] else rest.head? = some "diff:".toList := by
  have more : shown.map rstrip ≠ [] := by simpa using some_
  rw [afterLines]
  split
  next =>
    have normal := normalLines_joined some_ legible
    refine ⟨[[]], ?_, rfl⟩
    rw [append_nil, splitOn_normalise (normal ▸ more), normal]
  next =>
    have normal := normalLines_append some_ legible ("diff:".toList ++ '\n' :: diff.getD [])
    -- the line that introduces the diff can be seen, so the normal form keeps it
    have head : normalLines ("diff:".toList ++ '\n' :: diff.getD []) =
        "diff:".toList :: normalLines (diff.getD []) :=
      @normalLines_append ["diff:".toList] (cons_ne_nil _ _)
        (fun line member => by
          cases mem_singleton.mp member
          exact ⟨by decide, by decide, by decide⟩) _
    rw [head] at normal
    refine ⟨"diff:".toList :: normalLines (diff.getD []) ++ [[]], ?_, rfl⟩
    have some' : normalLines (['\n'].intercalate shown ++ '\n' ::
        ("diff:".toList ++ '\n' :: diff.getD [])) ≠ [] := by
      rw [normal]
      exact append_ne_nil_of_left_ne_nil more _
    rw [splitOn_normalise some', normal, append_assoc]

section Declared
variable {r : Reader} {lines : List Line} {language : String} {function : Line}
  {span : Nat × Nat} {bounds : Bounds} {focus : List Nat} {identities : List Line}

theorem length_wholeWindow (r : Reader) (language : String) (bounds : Bounds)
    (identities : List Line) (inside : Inside lines span focus) :
    (wholeWindow r lines language span bounds focus identities).length =
      (window span.1 span.2 focus bounds.lines).2 - (window span.1 span.2 focus bounds.lines).1 := by
  have within := inside.within
  have ordered := window_ordered bounds.lines inside
  rw [wholeWindow, numbered, length_mapIdx, redactedWindow, length_redact, length_take,
    length_drop]
  rcases ordered.2 with most | none_
  · omega
  · rw [none_, window_zero inside]
    omega

theorem wholeWindow_getElem? (place : Nat) :
    (wholeWindow r lines language span bounds focus identities)[place]? =
      shownAs r lines language span bounds focus identities
        ((window span.1 span.2 focus bounds.lines).1 + 1 + place) := by
  rw [wholeWindow, numbered_getElem?, shownAs, Nat.add_right_comm, Nat.add_sub_cancel,
    Nat.add_sub_cancel_left]

private theorem shownLines_declared
    (declared : r.functionBounds lines (r.resolveLanguage lines language) function = some span)
    (inside : Inside lines span focus) :
    let whole := wholeWindow r lines language span bounds focus identities
    let view := window span.1 span.2 focus bounds.lines
    shownLines r lines language function bounds focus identities =
      some (trim bounds.chars true whole.length (centreOf whole.length whole.length)
        (around whole view.1 whole.length (view ≠ span))) := by
  have between := inside.lines _ (middleFocus_mem inside.some_)
  have read : lines ≠ [] := by
    rintro rfl
    have within := inside.within
    rw [length_nil] at within
    omega
  intro whole view
  have ends : view.2 = view.1 + whole.length := by
    rw [length_wholeWindow r language bounds identities inside,
      Nat.add_sub_of_le (window_ordered bounds.lines inside).1]
  -- before the first round the piece is the whole window
  have start : around whole view.1 whole.length (view ≠ span) =
      ⟨whole, view.1, view.2, view ≠ span⟩ := by
    simp only [around, Centred.piece_length, Centred.start_length, Nat.add_zero, ends]
  rw [start, centreOf, Centred.start_length, Nat.sub_zero]
  simp only [shownLines, windowOf, if_neg read, declared]
  simp [inside.some_, whole, view, wholeWindow, redactedWindow, Centred.middle]

structure Left (r : Reader) (lines : List Line) (language : String) (span : Nat × Nat)
    (bounds : Bounds) (focus : List Nat) (identities : List Line) (shown : Shown)
    (left : Nat) : Prop where
  some_ : 1 ≤ left
  within : left ≤ (wholeWindow r lines language span bounds focus identities).length
  rendered : shown.rendered =
    Centred.piece (wholeWindow r lines language span bounds focus identities) left
  lo : shown.lo = (window span.1 span.2 focus bounds.lines).1 +
    Centred.start (wholeWindow r lines language span bounds focus identities).length left
  hi : shown.hi = shown.lo + left
  short : left = 1 ∨ (['\n'].intercalate shown.rendered).length ≤ bounds.chars
  larger : ∀ size, left < size →
    size ≤ (wholeWindow r lines language span bounds focus identities).length →
      bounds.chars < (['\n'].intercalate (Centred.piece
        (wholeWindow r lines language span bounds focus identities) size)).length

theorem shownLines_left (identities : List Line)
    (declared : r.functionBounds lines (r.resolveLanguage lines language) function = some span)
    (inside : Inside lines span focus) (some_ : 1 ≤ bounds.lines) :
    ∃ shown left, shownLines r lines language function bounds focus identities = some shown ∧
      Left r lines language span bounds focus identities shown left := by
  have holds := window_holds inside some_
  have length := length_wholeWindow r language bounds identities inside
  obtain ⟨left, truncated, one, order, kept, short, larger⟩ := trim_around bounds.chars
    (wholeWindow r lines language span bounds focus identities)
    (window span.1 span.2 focus bounds.lines).1
    (wholeWindow r lines language span bounds focus identities).length _
    (window span.1 span.2 focus bounds.lines ≠ span) (by omega) (Nat.le_refl _) (Nat.le_succ _)
  refine ⟨_, left, shownLines_declared declared inside, ?_⟩
  rw [kept]
  exact ⟨one, order, rfl, rfl, rfl, short, larger⟩

section
variable (kept : Left r lines language span bounds focus identities shown left)
include kept

theorem Left.focus_iff (inside : Inside lines span focus) (some_ : 1 ≤ bounds.lines) :
    ((shown.lo + 1 ≤ middleFocus focus ∧ middleFocus focus ≤ shown.hi) ∨
        ∃ line ∈ shownAs r lines language span bounds focus identities (middleFocus focus),
          bounds.chars < line.length) ↔
      FocusFits r lines language span bounds focus identities := by
  have holds := window_holds inside some_
  have length := length_wholeWindow r language bounds identities inside
  rw [FocusFits]
  set lo := (window span.1 span.2 focus bounds.lines).1
  set whole := wholeWindow r lines language span bounds focus identities
  -- the place of the middle focus line in the window
  set place := middleFocus focus - 1 - lo with at_
  have within : place < whole.length := by omega
  have line : whole[place]? = shownAs r lines language span bounds focus identities
      (middleFocus focus) := by
    rw [wholeWindow_getElem?]
    congr 1
    omega
  have held := kept_iff kept.some_ kept.within within (kept.rendered ▸ kept.short) kept.larger
  have first : shown.lo = lo + Centred.start whole.length left := kept.lo
  have last := kept.hi
  have between : (shown.lo + 1 ≤ middleFocus focus ∧ middleFocus focus ≤ shown.hi) ↔
      Centred.start whole.length left ≤ place ∧ place < Centred.start whole.length left + left := by
    omega
  rw [between, held, line]
  constructor
  · rintro ((one | fits) | long)
    · -- a single line is left: the condition asks of it whether it is too long by itself
      rcases Nat.lt_or_ge bounds.chars whole[place].length with long | fits
      · exact ⟨some_, .inl ⟨_, line ▸ List.getElem?_eq_getElem within, long⟩⟩
      · refine ⟨some_, .inr ?_⟩
        rw [one, Centred.piece_one within one]
        simpa using fits
    · exact ⟨some_, .inr fits⟩
    · exact ⟨some_, .inl long⟩
  · rintro ⟨-, long | fits⟩
    · exact .inr long
    · exact .inl (.inr fits)

theorem Left.length_rendered :
    shown.rendered.length = left := by
  rw [kept.rendered, Centred.length_piece kept.within]

theorem Left.numbers {i : Nat}
    (inside : i < left) :
    shown.rendered[i]? =
      shownAs r lines language span bounds focus identities (shown.lo + 1 + i) := by
  rw [kept.rendered, Centred.piece_getElem? inside, wholeWindow_getElem?, kept.lo]
  congr 1
  omega

theorem Left.visible (member : line ∈ shown.rendered) : ∃ c ∈ line, Text.isSpace c = false := by
  obtain ⟨i, inside, rfl⟩ := mem_iff_getElem.mp member
  have numbered := kept.numbers (kept.length_rendered ▸ inside)
  rw [List.getElem?_eq_getElem inside, shownAs, eq_comm, Option.map_eq_some_iff] at numbered
  obtain ⟨line, -, same⟩ := numbered
  exact same ▸ numberLine_visible _ line

/-- What the loop leaves is an excerpt as it should be, where the focus fits. -/
theorem Left.keeps (inside : Inside lines span focus) (some_ : 1 ≤ bounds.lines)
    (fits : FocusFits r lines language span bounds focus identities) {diff : Option Line} {e : Excerpt}
    (first : e.first = shown.lo + 1) (last : e.last = shown.hi)
    (text : e.text = normalise (['\n'].intercalate shown.rendered ++ afterLines diff)) :
    Keeps r lines language span bounds focus identities diff e shown.rendered := by
  have holds := window_holds inside some_
  have length := length_wholeWindow r language bounds identities inside
  have ends := Centred.start_add_le kept.within
  have one := kept.some_
  have lo := kept.lo
  have hi := kept.hi
  have count := kept.length_rendered
  have within := kept.within
  refine ⟨by omega, by omega, by omega, by omega, by omega, ?_, ?_, ?_, ?_⟩
  · exact kept.short.imp_left count.trans
  · intro i inside
    rw [first]
    exact kept.numbers (count ▸ inside)
  · intro unbroken
    rw [text]
    refine text_lines (ne_nil_of_length_pos (by omega)) (fun line member => ?_) diff
    obtain ⟨c, shows, visible⟩ := kept.visible member
    exact ⟨(unbroken line member).1, (unbroken line member).2,
      ne_nil_of_mem (mem_rstrip shows visible)⟩
  · rw [first, last]
    exact (kept.focus_iff inside some_).mpr fits

end

end Declared

/-- The excerpt of a function keeps the line that its window is centred on just when that line fits.
The window is laid around the line, but the loop drops the lines that are farthest from the middle of
the window, and with them the line when the window was clamped, or the whole function fitted. -/
theorem excerpt_keeps_iff (r : Reader) (sha256 : Line → String) (lines : List Line)
    (language : String) (function : Line) (span : Nat × Nat) (bounds : Bounds) (focus : List Nat)
    (identities : List Line) (diff : Option Line)
    (declared : r.functionBounds lines (r.resolveLanguage lines language) function = some span)
    (inside : Inside lines span focus) :
    (∃ e, excerpt r sha256 lines language function bounds focus identities diff = some e ∧
      ∃ shown, Keeps r lines language span bounds focus identities diff e shown) ↔
      FocusFits r lines language span bounds focus identities := by
  rw [excerpt_eq]
  constructor
  · rintro ⟨e, rendered, lines', keeps⟩
    have some_ : 1 ≤ bounds.lines := keeps.some_.trans keeps.short
    obtain ⟨shown, left, found, kept⟩ := shownLines_left identities declared inside some_
    rw [found, Option.bind_some] at rendered
    dsimp only at rendered
    split at rendered
    next => cases rendered
    next =>
      cases rendered
      exact (kept.focus_iff inside some_).mp keeps.focus
  · intro fits
    obtain ⟨shown, left, found, kept⟩ := shownLines_left identities declared inside fits.1
    obtain ⟨line, first⟩ := exists_mem_of_ne_nil shown.rendered
      (ne_nil_of_length_pos (kept.length_rendered ▸ kept.some_))
    obtain ⟨c, shows, visible⟩ := kept.visible first
    -- the number of the first line can be seen, so the text is not blank
    have text := mem_normalise (mem_append_left (afterLines diff)
      (Joined.mem_joined '\n' first shows)) visible
    have some' : ¬ (normalise (['\n'].intercalate shown.rendered ++ afterLines diff)).all
        Text.isSpace = true := fun blank => by
      rw [all_eq_true] at blank
      exact Bool.false_ne_true (visible.symm.trans (blank c text))
    rw [found, Option.bind_some]
    refine ⟨_, if_neg some', shown.rendered, ?_⟩
    exact kept.keeps inside fits.1 fits rfl rfl rfl

def longLines : List Line := List.replicate 20 (List.replicate 230 'x')

theorem longLines_kept :
    ∃ e, excerpt wholeReader String.ofList longLines "c" "<module>".toList candidate [10] [] none =
        some e ∧
      ∃ shown, Keeps wholeReader longLines "c" (0, 20) candidate [10] [] none e shown := by
  refine (excerpt_keeps_iff wholeReader String.ofList longLines "c" "<module>".toList (0, 20)
    candidate [10] [] none (by decide) ⟨by decide, by decide, by decide⟩).mpr ⟨by decide, .inr ?_⟩
  decide +kernel

/-- The first line of the function is dropped for the sake of those in its middle. -/
theorem longLines_first_dropped :
    ¬ ∃ e, excerpt wholeReader String.ofList longLines "c" "<module>".toList candidate [1] [] none =
        some e ∧
      ∃ shown, Keeps wholeReader longLines "c" (0, 20) candidate [1] [] none e shown := by
  rintro ⟨e, found, shown, keeps⟩
  have rendered : (excerpt wholeReader String.ofList longLines "c" "<module>".toList candidate [1] []
      none).map (fun e => (e.first, e.last)) = some (2, 17) := by decide +kernel
  rw [found] at rendered
  have ends : e.first = 2 := congrArg Prod.fst (Option.some.inj rendered)
  rcases keeps.focus with shown | long
  · have first : middleFocus [1] = 1 := by decide
    omega
  · revert long
    decide +kernel

end OpenUltraSast.Learn.Excerpts
