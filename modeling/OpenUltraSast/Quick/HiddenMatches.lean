import Mathlib.Tactic.NormNum
import OpenUltraSast.Quick.Findings

/-!
# Matches that are hidden

The quick scan leaves a match out when its line begins with a mark of a comment or has one before the
match.
-/

namespace OpenUltraSast.Quick

open List

open Learn.Excerpts (comments findFrom startsAt)

def Begins (mark : String) (line : List Char) : Prop :=
  ∃ blanks rest, blanks.all Text.isSpace = true ∧ line = blanks ++ mark.toList ++ rest

def Before (mark : String) (line : List Char) (column : Nat) : Prop :=
  ∃ front rest, front.length < column ∧ line = front ++ mark.toList ++ rest

/-- A line with a mark that makes the scan leave a match at a column out. -/
def Marked (language : String) (line : List Char) (column : Nat) : Prop :=
  if language ∈ hashCommentLanguages then Begins "#" line ∨ Before "#" line column
  else
    (language = "php" ∧ Begins "#" line ∧ ¬ Begins "#[" line) ∨
      (Begins "//" line ∨ Begins "/*" line ∨ Begins "*" line) ∨ Before "//" line column

/-- A place of a text that lies in a comment, with the comments read from the first line on. -/
def InComment (language : String) (text : List Char) (offset : Nat) : Prop :=
  ∃ ranges ∈ (comments language none (text.splitOn '\n'))[lineIndex text offset]?,
    ∃ range ∈ ranges, range.1 ≤ column text offset ∧ column text offset < range.2

instance (language : String) (text : List Char) (offset : Nat) :
    Decidable (InComment language text offset) :=
  inferInstanceAs (Decidable
    (∃ ranges ∈ (comments language none (text.splitOn '\n'))[lineIndex text offset]?,
      ∃ range ∈ ranges, range.1 ≤ column text offset ∧ column text offset < range.2))

theorem startsWith_stripped_iff (mark : String) {first : Char} {others : List Char}
    (spelled : mark.toList = first :: others) (visible : Text.isSpace first = false)
    (line : List Char) : startsWith (stripped line) mark = true ↔ Begins mark line := by
  rw [startsWith, isPrefixOf_iff_prefix]
  constructor
  · rintro ⟨rest, whole⟩
    have blank : (line.takeWhile Text.isSpace).all Text.isSpace = true := all_takeWhile
    have joined := takeWhile_append_dropWhile (p := Text.isSpace) (l := line)
    refine ⟨line.takeWhile Text.isSpace, rest, blank, ?_⟩
    rw [append_assoc, whole]
    exact joined.symm
  · rintro ⟨blanks, rest, blank, rfl⟩
    -- the blanks end where the mark begins
    have dropped : stripped (blanks ++ mark.toList ++ rest) = mark.toList ++ rest := by
      rw [stripped, append_assoc, dropWhile_append_of_pos (all_eq_true.mp blank),
        spelled, cons_append, dropWhile_cons_of_neg (by simp [visible])]
    rw [dropped]
    exact prefix_append _ _

theorem findFrom_lt_iff {part : List Char} (filled : part ≠ []) (line : List Char) (column : Nat) :
    (∃ found, findFrom part line = some found ∧ found < column) ↔
      ∃ front rest, front.length < column ∧ line = front ++ part ++ rest := by
  induction line generalizing column with
  | nil =>
    have none_ : findFrom part [] = none := by simp [findFrom, filled]
    constructor
    · rintro ⟨_, found, _⟩
      rw [none_] at found
      cases found
    · rintro ⟨front, rest, _, whole⟩
      simp [filled] at whole
  | cons c line ih =>
    rw [findFrom]
    split
    next here =>
      obtain ⟨rest, whole⟩ := isPrefixOf_iff_prefix.mp here
      constructor
      · rintro ⟨found, at_, early⟩
        cases at_
        exact ⟨[], rest, early, whole.symm⟩
      · rintro ⟨front, _, early, _⟩
        exact ⟨0, rfl, by omega⟩
    next elsewhere =>
      constructor
      · rintro ⟨_, at_, early⟩
        obtain ⟨found, later, rfl⟩ := Option.map_eq_some_iff.mp at_
        obtain ⟨front, rest, early, rfl⟩ :=
          (ih (column - 1)).mp ⟨found, later, by omega⟩
        exact ⟨c :: front, rest, by simp; omega, rfl⟩
      · rintro ⟨front, rest, early, whole⟩
        -- the part does not begin with the line
        cases front with
        | nil =>
          exact absurd ( isPrefixOf_iff_prefix.mpr ⟨rest, whole.symm⟩) elsewhere
        | cons d front =>
          simp only [cons_append, List.cons.injEq] at whole
          rw [length_cons] at early
          obtain ⟨found, later, early⟩ :=
            (ih (column - 1)).mpr ⟨front, rest, by omega, whole.2⟩
          exact ⟨found + 1, by simp [later], by omega⟩

theorem markBefore_iff (mark : String) (filled : mark.toList ≠ []) (line : List Char)
    (column : Nat) : markBefore mark line column = true ↔ Before mark line column := by
  rw [Before, ← findFrom_lt_iff filled, markBefore]
  cases findFrom mark.toList line with
  | none => simp
  | some found => simp

theorem matchIsInComment_iff (text : List Char) (offset : Nat) (language : String) :
    matchIsInComment text offset language = true ↔
      Marked language (lineAt text offset) (column text offset) := by
  have hash := startsWith_stripped_iff "#" rfl (by decide) (lineAt text offset)
  have attribute_ := startsWith_stripped_iff "#[" rfl (by decide) (lineAt text offset)
  have slashes := startsWith_stripped_iff "//" rfl (by decide) (lineAt text offset)
  have block := startsWith_stripped_iff "/*" rfl (by decide) (lineAt text offset)
  have star := startsWith_stripped_iff "*" rfl (by decide) (lineAt text offset)
  rw [matchIsInComment, Marked]
  by_cases hashes : language ∈ hashCommentLanguages
  · rw [if_pos (by simpa using hashes), if_pos hashes, Bool.or_eq_true, hash,
      markBefore_iff "#" (by decide)]
  · rw [if_neg (by simpa using hashes), if_neg hashes, ← hash, ← attribute_, ← slashes, ← block,
      ← star, ← markBefore_iff "//" (by decide)]
    by_cases attributed : language = "php" ∧ startsWith (stripped (lineAt text offset)) "#" = true ∧
        startsWith (stripped (lineAt text offset)) "#[" = false
    · simp [attributed]
    · have other : ¬ (language = "php" && startsWith (stripped (lineAt text offset)) "#" &&
          !startsWith (stripped (lineAt text offset)) "#[") = true := by simpa using attributed
      have opened : (["//", "/*", "*"].any (startsWith (stripped (lineAt text offset)))) = true ↔
          startsWith (stripped (lineAt text offset)) "//" = true ∨
            startsWith (stripped (lineAt text offset)) "/*" = true ∨
              startsWith (stripped (lineAt text offset)) "*" = true := by simp
      rw [if_neg other, ← opened]
      split
      next begun => simp [begun]
      next => simp_all

variable {w : Surroundings}

/-- A match is emitted exactly where it does not count as in a comment. -/
theorem mem_emitted_iff {minEmitPriority minEmitPrecision : ℚ} {ruleset : List PatternRule}
    {targets : List FileTarget} {target : FileTarget} {rule : PatternRule} {found : Match}
    (scanned : target ∈ targets) (member : rule ∈ ruleset)
    (on : enabled minEmitPrecision rule = true) (applies : appliesTo target rule = true)
    (matched : found ∈ w.finditer rule.pattern (w.text target))
    (noFloor : minEmitPriority ≤ (findingFromMatch w ⟨target, rule, found⟩).rankingPriority) :
    (⟨target, rule, found⟩ : Hit) ∈ emitted w minEmitPriority minEmitPrecision ruleset targets ↔
      matchIsInComment (w.text target) found.start target.language = false := by
  rw [emitted, mem_flatMap]
  constructor
  · rintro ⟨other, _, inside⟩
    obtain ⟨_, _, kept⟩ := mem_flatMap.mp inside
    obtain ⟨mapped, passes⟩ := mem_filter.mp kept
    obtain ⟨_, _, same⟩ := mem_map.mp mapped
    -- the hit names its target
    cases same
    simp only [Bool.and_eq_true, Bool.not_eq_true'] at passes
    exact passes.1
  · intro shown
    refine ⟨target, scanned, mem_flatMap.mpr ⟨rule, ?_, mem_filter.mpr ⟨?_, ?_⟩⟩⟩
    · exact mem_filter.mpr ⟨mem_filter.mpr ⟨member, on⟩, applies⟩
    · exact mem_map_of_mem matched
    · simp [shown, noFloor]

theorem findingFromMatch_priority_nonneg (ranked : ∀ ranking ∈ w.rankings, 0 ≤ ranking.priority)
    (hit : Hit) : 0 ≤ (findingFromMatch w hit).rankingPriority := by
  have own : 0 ≤ ((w.ranking hit.target.path).map (·.priority)).getD 1 := by
    cases held : w.ranking hit.target.path with
    | none => simp
    | some ranking =>
      exact ranked ranking (mem_reverse.mp (mem_of_find?_eq_some held))
  simp only [findingFromMatch, findingPriority]
  split
  · exact le_min own (by norm_num)
  · exact own

theorem quickScanFindings_perm (minEmitPriority minEmitPrecision : ℚ) (ruleset : List PatternRule)
    (targets : List FileTarget) :
    (quickScanFindings w minEmitPriority minEmitPrecision ruleset targets).Perm
      ((emitted w minEmitPriority minEmitPrecision ruleset targets).map (findingFromMatch w)) :=
  perm_insertionSort _ _

/-- A match that is not in a comment gets its finding exactly when the marks on its line do not
show, or show a comment that it is in. -/
theorem emitted_unless_comment_iff {minEmitPrecision : ℚ} {ruleset : List PatternRule}
    {targets : List FileTarget} (ranked : ∀ ranking ∈ w.rankings, 0 ≤ ranking.priority)
    {target : FileTarget} {rule : PatternRule} {found : Match} (scanned : target ∈ targets)
    (member : rule ∈ ruleset) (on : enabled minEmitPrecision rule = true)
    (applies : appliesTo target rule = true)
    (matched : found ∈ w.finditer rule.pattern (w.text target)) :
    (quickScanFindings w 0 minEmitPrecision ruleset targets).Perm
        ((emitted w 0 minEmitPrecision ruleset targets).map (findingFromMatch w)) ∧
      (((⟨target, rule, found⟩ : Hit) ∈ emitted w 0 minEmitPrecision ruleset targets ∨
          InComment target.language (w.text target) found.start) ↔
        (Marked target.language (lineAt (w.text target) found.start)
            (column (w.text target) found.start) →
          InComment target.language (w.text target) found.start)) := by
  refine ⟨quickScanFindings_perm _ _ _ _, ?_⟩
  rw [mem_emitted_iff scanned member on applies matched (findingFromMatch_priority_nonneg ranked _),
    ← matchIsInComment_iff]
  cases matchIsInComment (w.text target) found.start target.language with
  | false => simp
  | true => simp

def literalMatches (pattern : String) (text : List Char) : List Match :=
  (List.range text.length).filterMap fun i =>
    if startsAt text pattern.toList i then some ⟨i, pattern, []⟩ else none

def fetched : Surroundings where
  finditer := literalMatches
  str _ := ""
  text _ := "x = \"http://a\"; eval(y)\neval(z)".toList
  rankings := []
  policy := []

def page : FileTarget where
  path := "page.js"
  language := "javascript"

def evalRule : PatternRule where
  ruleId := "js-eval"
  title := "eval"
  languages := ["javascript"]
  cwe := "CWE-95"
  pattern := "eval"

theorem second_eval_emitted :
    (⟨page, evalRule, ⟨24, "eval", []⟩⟩ : Hit) ∈ emitted fetched 0 0 [evalRule] [page] ∨
      InComment "javascript" (fetched.text page) 24 := by
  have unmarked : ¬ Marked "javascript" (lineAt (fetched.text page) 24)
      (column (fetched.text page) 24) := by
    rw [← matchIsInComment_iff]
    decide
  have matched : ⟨24, "eval", []⟩ ∈ fetched.finditer evalRule.pattern (fetched.text page) := by
    decide
  exact (emitted_unless_comment_iff (by simp [fetched]) mem_cons_self mem_cons_self
    (by decide) (by decide) matched).2.mpr fun marked => absurd marked unmarked

/-- The two slashes of the address hide the call behind it. -/
theorem address_hides_eval :
    ¬ ((⟨page, evalRule, ⟨16, "eval", []⟩⟩ : Hit) ∈ emitted fetched 0 0 [evalRule] [page] ∨
      InComment "javascript" (fetched.text page) 16) := by
  rintro (shown | commented)
  · rw [mem_emitted_iff mem_cons_self mem_cons_self (by decide) (by decide) (by decide)
      (findingFromMatch_priority_nonneg (by simp [fetched]) _)] at shown
    exact absurd shown (by decide)
  · exact absurd commented (by decide)

end OpenUltraSast.Quick
