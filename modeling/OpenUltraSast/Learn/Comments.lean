import OpenUltraSast.Library.Collections
import OpenUltraSast.Library.Text

/-!
# Comments and what is redacted in them

The comment spans of a line depend on the block comment or docstring that the lines before it left
open.
-/

namespace OpenUltraSast.Learn.Excerpts

open List

abbrev Line := List Char

def hashComments : List String := ["python", "php", "ruby", "shell", "perl", "yaml", "r"]

def slashComments : List String :=
  ["c", "cpp", "java", "javascript", "typescript", "php", "go", "groovy", "csharp", "kotlin",
    "rust", "swift", "scala"]

inductive Open where
  | block
  | docstring (delim : Line)
deriving DecidableEq

def Open.close : Open → Line
  | .block => ['*', '/']
  | .docstring delim => delim

abbrev Range := Nat × Nat

/-- `line.find(part, start)`, as a distance from the start. -/
def findFrom (part : Line) : Line → Option Nat
  | [] => if part.isEmpty then some 0 else none
  | c :: rest => if part.isPrefixOf (c :: rest) then some 0 else (findFrom part rest).map (· + 1)

def find (line part : Line) (start : Nat) : Option Nat :=
  (findFrom part (line.drop start)).map (start + ·)

/-- `line.startswith(part, i)`. -/
def startsAt (line part : Line) (i : Nat) : Bool := part.isPrefixOf (line.drop i)

def scan (language : String) (line : Line) :
    Nat → Nat → Option Char → List Range → List Range × Option Open
  | 0, _, _, ranges => (ranges, none)
  | fuel + 1, i, quote, ranges =>
    match (line)[i]?, quote with
    | none, _ => (ranges, none)
    | some c, some delim =>
      if c = '\\' then scan language line fuel (i + 2) quote ranges
      else scan language line fuel (i + 1) (if c = delim then none else quote) ranges
    | some c, none =>
      let slashes := slashComments.contains language
      if language = "python" ∧ (startsAt line "\"\"\"".toList i ∨ startsAt line "'''".toList i) ∧
          (line.take i).all Text.isSpace then
        let delim := (line.drop i).take 3
        match find line delim (i + 3) with
        | none => (ranges ++ [(i, line.length)], some (.docstring delim))
        | some j => scan language line fuel (j + 3) none (ranges ++ [(i, j + 3)])
      else if c ∈ ['"', '\'', '\x60'] then scan language line fuel (i + 1) (some c) ranges
      else if slashes ∧ startsAt line "//".toList i ∨ hashComments.contains language ∧ c = '#' then
        (ranges ++ [(i, line.length)], none)
      else if slashes ∧ startsAt line "/*".toList i then
        match find line "*/".toList (i + 2) with
        | none => (ranges ++ [(i, line.length)], some .block)
        | some j => scan language line fuel (j + 2) none (ranges ++ [(i, j + 2)])
      else scan language line fuel (i + 1) none ranges

/-- `_comment_ranges(line, state, language)`. -/
def commentRanges (language : String) (line : Line) : Option Open → List Range × Option Open
  | none => scan language line (line.length + 1) 0 none []
  | some opened =>
    match find line opened.close 0 with
    | none => ([(0, line.length)], some opened)
    | some j =>
      let i := j + opened.close.length
      scan language line (line.length + 1) i none [(0, i)]

def comments (language : String) : Option Open → List Line → List (List Range)
  | _, [] => []
  | state, line :: rest =>
    let (ranges, next) := commentRanges language line state
    ranges :: comments language next rest

/-- What the label rules read in a text, and the languages under their usual names. -/
structure Wording where
  canonicalLanguage : String → String
  securityReason : Line → Option String
  subAdvisory : Line → Line
  subIdentities : List Line → Line → Line

def redacted : Line := "<redacted>".toList

def lstrip (text : Line) : Line := text.dropWhile Text.isSpace

def rstrip (text : Line) : Line := (text.reverse.dropWhile Text.isSpace).reverse

def openers : List Line := ["/**", "/*", "//", "#", "\"\"\"", "'''", "*"].map String.toList

def closers : List Line := ["*/", "\"\"\"", "'''"].map String.toList

variable (w : Wording)

/-- `_redact_comment(text)`. -/
def redactComment (text : Line) : Line :=
  match w.securityReason text with
  | none => w.subAdvisory text
  | some _ =>
    let stripped := rstrip (lstrip text)
    let opener := (openers.find? (·.isPrefixOf stripped)).getD []
    let closer := (closers.find? fun c =>
      c.isSuffixOf stripped && opener.length < stripped.length).getD []
    let lead := text.take (text.length - (lstrip text).length)
    lead ++ [' '].intercalate ([opener, redacted, closer].filter (· ≠ []))

def identityNames (identities : List Line) : List Line :=
  (identities.filter (4 ≤ ·.length)).eraseDups.insertionSort fun a b => b.length ≤ a.length

/-- `text[start:end]`. -/
def piece (text : Line) (range : Range) : Line := (text.drop range.1).take (range.2 - range.1)

def redactComments (line : Line) (ranges : List Range) : Line :=
  ranges.foldr (fun range text =>
    text.take range.1 ++ redactComment w (piece text range) ++ text.drop range.2) line

def redactLine (identities : List Line) (line : Line) (ranges : List Range) : Line :=
  let text := redactComments w line ranges
  let names := identityNames identities
  if names = [] then w.subAdvisory text else w.subIdentities names (w.subAdvisory text)

/-- `redact(lines, language, identities)`. -/
def redact (lines : List Line) (language : String) (identities : List Line) : List Line :=
  List.zipWith (redactLine w identities) lines (comments (w.canonicalLanguage language) none lines)

/-- Ranges of a line, none of which begins before the one before it ends. -/
structure Ordered (line : Line) (ranges : List Range) : Prop where
  within : ∀ range ∈ ranges, range.1 ≤ range.2 ∧ range.2 ≤ line.length
  apart : ranges.Pairwise fun a b => a.2 ≤ b.1

theorem Ordered.snoc {line : Line} {ranges : List Range} (ordered : Ordered line ranges) {i j : Nat}
    (before : ∀ range ∈ ranges, range.2 ≤ i) (up : i ≤ j) (inside : j ≤ line.length) :
    Ordered line (ranges ++ [(i, j)]) where
  within range member := by
    rcases mem_append.mp member with held | new
    · exact ordered.within range held
    · cases mem_singleton.mp new
      exact ⟨up, inside⟩
  apart := by
    rw [pairwise_append]
    refine ⟨ordered.apart, pairwise_singleton _ _, fun range held new member => ?_⟩
    cases mem_singleton.mp member
    exact before range held

private theorem findFrom_le {part text : Line} {n : Nat} (found : findFrom part text = some n) :
    n + part.length ≤ text.length := by
  induction text generalizing n with
  | nil =>
    rw [findFrom] at found
    split at found
    next empty => cases found; simp [List.isEmpty_iff.mp empty]
    next => cases found
  | cons c rest ih =>
    rw [findFrom] at found
    split at found
    next here =>
      cases found
      have most := ( isPrefixOf_iff_prefix.mp here).length_le
      omega
    next =>
      obtain ⟨m, later, rfl⟩ := Option.map_eq_some_iff.mp found
      have most := ih later
      rw [length_cons]
      omega

variable {line : Line} {ranges : List Range}

theorem find_le {part : Line} {start j : Nat} (inside : start ≤ line.length)
    (found : find line part start = some j) : start ≤ j ∧ j + part.length ≤ line.length := by
  obtain ⟨n, later, rfl⟩ := Option.map_eq_some_iff.mp found
  have most := findFrom_le later
  rw [length_drop] at most
  omega

theorem length_of_startsAt {part : Line} {i : Nat} (starts : startsAt line part i = true) :
    i + part.length ≤ line.length ∨ part = [] := by
  have most := ( isPrefixOf_iff_prefix.mp starts).length_le
  rw [length_drop] at most
  cases part with
  | nil => exact .inr rfl
  | cons c rest =>
    rw [length_cons] at most ⊢
    omega

/-- The scan finds ranges within the line, in order and apart. -/
theorem scan_ordered (language : String) (line : Line) (fuel : Nat) :
    ∀ i quote ranges, Ordered line ranges → (∀ range ∈ ranges, range.2 ≤ i) →
      Ordered line (scan language line fuel i quote ranges).1 := by
  induction fuel with
  | zero => intro _ _ _ ordered _; exact ordered
  | succ fuel ih =>
    intro i quote ranges ordered before
    have further {k : Nat} (n : Nat) (held : ∀ range ∈ ranges, range.2 ≤ k) :
        ∀ range ∈ ranges, range.2 ≤ k + n :=
      fun range member => (held range member).trans (Nat.le_add_right k n)
    -- a comment that the scan has just passed
    have past {j : Nat} (n : Nat) (up : i ≤ j + n) :
        ∀ range ∈ ranges ++ [(i, j + n)], range.2 ≤ j + n := by
      intro range member
      rcases mem_append.mp member with held | new
      · exact (before range held).trans up
      · cases mem_singleton.mp new
        exact le_rfl
    unfold scan
    split
    next => exact ordered
    next c delim _ =>
      split
      · exact ih _ _ _ ordered (further 2 before)
      · exact ih _ _ _ ordered (further 1 before)
    next c at_ =>
      have inside : i < line.length := (List.getElem?_eq_some_iff.mp at_).1
      split
      next docstring =>
        have size : i + 3 ≤ line.length := by
          rcases docstring.2.1 with starts | starts
          all_goals simpa using length_of_startsAt starts
        have delim : ((line.drop i).take 3).length = 3 := by
          rw [length_take, length_drop]
          omega
        dsimp only
        split
        next => exact ordered.snoc before inside.le le_rfl
        next j found =>
          have bounds := find_le size found
          rw [delim] at bounds
          exact ih _ _ _ (ordered.snoc before (by omega) bounds.2) (past 3 (by omega))
      next =>
        split
        next => exact ih _ _ _ ordered (further 1 before)
        next =>
          dsimp only
          split
          next => exact ordered.snoc before inside.le le_rfl
          next =>
            split
            next block =>
              have size : i + 2 ≤ line.length := by
                simpa using length_of_startsAt block.2
              split
              next => exact ordered.snoc before inside.le le_rfl
              next j found =>
                have bounds := find_le size found
                exact ih _ _ _ (ordered.snoc before (by omega) bounds.2) (past 2 (by omega))
            next => exact ih _ _ _ ordered (further 1 before)

private theorem commentRanges_ordered (language : String) (line : Line) (state : Option Open) :
    Ordered line (commentRanges language line state).1 := by
  have none_ : Ordered line [] := ⟨by simp, List.Pairwise.nil⟩
  cases state with
  | none => exact scan_ordered _ _ _ _ _ _ none_ (by simp)
  | some opened =>
    rw [commentRanges]
    split
    next => exact none_.snoc (i := 0) (by simp) (Nat.zero_le _) le_rfl
    next j found =>
      have bounds := find_le (Nat.zero_le _) found
      apply scan_ordered
      · exact none_.snoc (i := 0) (by simp) (Nat.zero_le _) bounds.2
      · simp

theorem comments_ordered {language : String} {lines : List Line} {state : Option Open} {i : Nat}
    (at_ : lines[i]? = some line) (read : (comments language state lines)[i]? = some ranges) :
    Ordered line ranges := by
  induction lines generalizing state i with
  | nil => cases at_
  | cons first rest ih =>
    cases i with
    | zero =>
      cases at_
      cases read
      exact commentRanges_ordered _ _ _
    | succ i => exact ih at_ read

/-- The comments of a line that the redaction changes: those with security wording or an advisory
id. -/
def telling (line : Line) (ranges : List Range) : List Range :=
  ranges.filter fun range => redactComment w (piece line range) ≠ piece line range

variable {w}

theorem redactComments_take (ordered : Ordered line ranges) {n : Nat} (inside : n ≤ line.length)
    (before : ∀ range ∈ ranges, n ≤ range.1) :
    (redactComments w line ranges).take n = line.take n := by
  induction ranges with
  | nil => rfl
  | cons range rest ih =>
    have same := ih ⟨fun other held => ordered.within other (mem_cons_of_mem _ held),
      ordered.apart.of_cons⟩ fun other held => before other (mem_cons_of_mem _ held)
    have long : n ≤ (redactComments w line rest).length := by
      have size := congrArg List.length same
      rw [length_take, length_take] at size
      omega
    rw [redactComments, foldr_cons, ← redactComments, append_assoc,
      take_append_of_le_length, take_take,
      Nat.min_eq_left (before range mem_cons_self), same]
    rw [length_take]
    exact Nat.le_min.mpr ⟨before range mem_cons_self, long⟩

theorem redactComments_cons {range : Range} {rest : List Range} (ordered : Ordered line (range :: rest)) :
    redactComments w line (range :: rest) =
      (redactComments w line rest).take range.1 ++ redactComment w (piece line range) ++
        (redactComments w line rest).drop range.2 := by
  have own := ordered.within range mem_cons_self
  have same : (redactComments w line rest).take range.2 = line.take range.2 :=
    redactComments_take ⟨fun other held => ordered.within other (mem_cons_of_mem _ held),
      ordered.apart.of_cons⟩ own.2
      fun _ held => rel_of_pairwise_cons ordered.apart held
  have cut (text : Line) : piece text range = (text.take range.2).drop range.1 := by
    rw [piece, drop_take]
  rw [redactComments, foldr_cons, ← redactComments, cut, same, ← cut]

theorem redactComments_telling (ordered : Ordered line ranges) :
    redactComments w line ranges = redactComments w line (telling w line ranges) := by
  induction ranges with
  | nil => rfl
  | cons range rest ih =>
    have later : Ordered line rest :=
      ⟨fun other held => ordered.within other (mem_cons_of_mem _ held), ordered.apart.of_cons⟩
    have fewer : Ordered line (telling w line (range :: rest)) :=
      ⟨fun other held => ordered.within other (mem_of_mem_filter held),
        ordered.apart.filter _⟩
    by_cases keeps : redactComment w (piece line range) = piece line range
    · have dropped : telling w line (range :: rest) = telling w line rest := by
        simp [telling, keeps]
      -- the comment is put back where it was taken from
      obtain ⟨up, inside⟩ := ordered.within range mem_cons_self
      have after : ∀ other ∈ rest, range.2 ≤ other.1 :=
        fun _ held => rel_of_pairwise_cons ordered.apart held
      have first : (redactComments w line rest).take range.1 ++ piece line range
          = (redactComments w line rest).take range.2 := by
        rw [redactComments_take later inside after, redactComments_take later (up.trans inside)
          fun other held => up.trans (after other held), piece, ← take_add,
          Nat.add_sub_of_le up]
      rw [redactComments_cons ordered, keeps, first, take_append_drop, dropped, ih later]
    · have kept : telling w line (range :: rest) = range :: telling w line rest := by
        simp [telling, keeps]
      rw [kept] at fewer ⊢
      rw [redactComments_cons ordered, redactComments_cons fewer, ih later]

theorem redactLine_congr {identities : List Line} {others : List Range} (ordered : Ordered line ranges)
    (ordered' : Ordered line others) (same : telling w line ranges = telling w line others) :
    redactLine w identities line ranges = redactLine w identities line others := by
  rw [redactLine, redactLine, redactComments_telling ordered, redactComments_telling ordered', same]

end OpenUltraSast.Learn.Excerpts
