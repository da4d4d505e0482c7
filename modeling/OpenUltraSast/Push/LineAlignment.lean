import OpenUltraSast.Library.Collections
import OpenUltraSast.Library.GitDiff
import OpenUltraSast.Model.Contracts

/-!
# The lines of a changed file

The snapshot adapter reads the hunks of git's diff of two blobs without context.
-/

namespace OpenUltraSast.Push.Snapshot

open Collections Model UnifiedDiff List

abbrev Bytes := List UInt8

abbrev SnapshotInputError := String

def ascii (text : String) : Bytes := text.toList.map (·.toNat.toUInt8)

def bytes : Alphabet UInt8 where
  ascii c := c.toNat.toUInt8
  digit b := if 48 ≤ b ∧ b ≤ 57 then some (b.toNat - 48) else none

def newline : UInt8 := 10

/-- `_source_lines(data)`. -/
def sourceLines (data : Bytes) : List Bytes :=
  if data = [] then []
  else
    let lines := data.splitOn newline
    lines.dropLast.map (· ++ [newline]) ++ lines.getLast?.toList.filter (· ≠ [])

/-- The blob of a side of a changed file. -/
structure Blob where
  path : String
  data : Bytes

def checkContent (data : Bytes) : Except SnapshotInputError Unit :=
  if (ascii "version https://git-lfs.github.com/spec/v1\n").isPrefixOf data then
    throw "lfs_content_unavailable"
  else if 0 ∈ data then throw "binary_line_correspondence_unavailable"
  else pure ()

def lineCount (data : Bytes) : Nat :=
  data.count newline + if data ≠ [] ∧ data.getLast? ≠ some newline then 1 else 0

/-- The hunks of a patch: `re.findall` of the head of a hunk at the start of a line. -/
def readHunks (patch : Bytes) : List Hunk := (patch.splitOn newline).filterMap (readHead bytes)

/-- What is found of the two files up to a cursor in each of them. -/
structure Alignment where
  pairs : List (Nat × Nat) := []
  spans : List ChangedSpan := []
  oldCursor : Nat := 0
  newCursor : Nat := 0

/-- `_equal_line_pairs(old, new, old_start, old_end, new_start, new_end)`. -/
def equalLinePairs (old new : List Bytes) (oldStart oldEnd newStart newEnd : Nat) :
    Except SnapshotInputError (List (Nat × Nat)) :=
  if (old.take oldEnd).drop oldStart ≠ (new.take newEnd).drop newStart then
    throw "diff_line_identity_mismatch"
  else
    pure ((List.range (oldEnd - oldStart)).map fun offset => (oldStart + offset, newStart + offset))

def spanOf (path : String) (side : Side) (range : UnifiedDiff.Range) : List ChangedSpan :=
  if range.count = 0 then [] else [⟨path, range.start, range.start + range.count - 1, side⟩]

section Files
variable (base head : String) (old new : List Bytes)

def addHunk (found : Alignment) (hunk : Hunk) : Except SnapshotInputError Alignment := do
  let oldIndex := hunk.old.index
  let newIndex := hunk.new.index
  if oldIndex < found.oldCursor ∨ newIndex < found.newCursor ∨
      old.length < oldIndex + hunk.old.count ∨ new.length < newIndex + hunk.new.count then
    throw "invalid_diff_hunks"
  let pairs ← equalLinePairs old new found.oldCursor oldIndex.toNat found.newCursor newIndex.toNat
  pure
    { pairs := found.pairs ++ pairs
      spans := found.spans ++ spanOf base .base hunk.old ++ spanOf head .head hunk.new
      oldCursor := oldIndex.toNat + hunk.old.count
      newCursor := newIndex.toNat + hunk.new.count }

def addRest (found : Alignment) : Except SnapshotInputError Alignment := do
  let pairs ← equalLinePairs old new found.oldCursor old.length found.newCursor new.length
  pure { found with
    pairs := found.pairs ++ pairs, oldCursor := old.length, newCursor := new.length }

def addHunks (hunks : List Hunk) : Except SnapshotInputError Alignment :=
  hunks.foldlM (addHunk base head old new) {} >>= addRest old new

end Files

/-- The bytes of a side; an added file has no base, a deleted one no head. -/
def contents (blob : Option Blob) : Bytes := (blob.map (·.data)).getD []

def alignFile (base head : Option Blob) (patch : Bytes) : Except SnapshotInputError Alignment :=
  let oldLines := sourceLines (contents base)
  let newLines := sourceLines (contents head)
  match base, head with
  | none, none => pure {}
  | none, some h => pure { spans := spanOf h.path .head ⟨1, newLines.length⟩ }
  | some b, none => pure { spans := spanOf b.path .base ⟨1, oldLines.length⟩ }
  | some b, some h =>
    let hunks := readHunks patch
    if b.data ≠ h.data ∧ hunks = [] then throw "diff_hunks_unavailable"
    else addHunks b.path h.path oldLines newLines hunks

/-- The line part of `compare` for one changed file. -/
def compareFile (remainingLines : Nat) (base head : Option Blob) (patch : Bytes) :
    Except SnapshotInputError Alignment := do
  checkContent (contents base)
  checkContent (contents head)
  if remainingLines < lineCount (contents base) + lineCount (contents head) then
    throw "line_mapping_limit"
  alignFile base head patch

theorem flatten_sourceLines (data : Bytes) : (sourceLines data).flatten = data := by
  rw [sourceLines]
  split
  next none => rw [none]; rfl
  next =>
    have each (lines : List Bytes) :
        (lines.dropLast.map (· ++ [newline]) ++ lines.getLast?.toList.filter (· ≠ [])).flatten =
          [newline].intercalate lines := by
      induction lines with
      | nil => rfl
      | cons line rest ih =>
        cases rest with
        -- an empty last piece is no line, and joins to nothing
        | nil => by_cases empty : line = [] <;> simp [empty]
        | cons next rest =>
          rw [dropLast_cons_cons, map_cons, List.getLast?_cons_cons, cons_append,
            flatten_cons, ih, intercalate_cons_cons, append_assoc]
    rw [each]
    exact intercalate_splitOn newline

def lineOf : Side → Nat × Nat → Nat
  | .base, pair => pair.1
  | .head, pair => pair.2

def Alignment.cursor (found : Alignment) : Side → Nat
  | .base => found.oldCursor
  | .head => found.newCursor

def Alignment.covered (found : Alignment) (side : Side) (i : Nat) : Nat :=
  found.pairs.countP (fun pair => lineOf side pair = i) +
    found.spans.countP fun span =>
      span.side = side ∧ span.startLine ≤ i + 1 ∧ i + 1 ≤ span.endLine

/-- The pairs and the spans cover both files up to the cursors, each line once; and the pairs join
equal lines in the order of both files. -/
structure Aligned (old new : List Bytes) (found : Alignment) : Prop where
  once : ∀ side i, found.covered side i = if i < found.cursor side then 1 else 0
  increasing : found.pairs.Pairwise fun a b => a.1 < b.1 ∧ a.2 < b.2
  within : ∀ pair ∈ found.pairs, pair.1 < found.oldCursor ∧ pair.2 < found.newCursor
  equal : ∀ pair ∈ found.pairs, ∃ line, old[pair.1]? = some line ∧ new[pair.2]? = some line

theorem covered_step (start count i : Nat) :
    (if i < start then 1 else 0) + (if start ≤ i ∧ i < start + count then 1 else 0) =
      if i < start + count then 1 else 0 := by
  split_ifs <;> omega

private theorem countP_range (start n i : Nat) :
    (List.range n).countP (fun offset => start + offset = i) =
      if start ≤ i ∧ i < start + n then 1 else 0 := by
  induction n with
  | zero => rw [range_zero, countP_nil, if_neg (by omega)]
  | succ n ih =>
    rw [range_succ, countP_append, ih, countP_singleton]
    simp only [decide_eq_true_eq]
    split_ifs <;> omega

theorem countP_spanOf (path : String) (side other : Side) {range : UnifiedDiff.Range}
    (placed : 0 ≤ range.index) (i : Nat) :
    (spanOf path side range).countP (fun span =>
        span.side = other ∧ span.startLine ≤ i + 1 ∧ i + 1 ≤ span.endLine) =
      if side = other ∧ range.index.toNat ≤ i ∧ i < range.index.toNat + range.count then 1
      else 0 := by
  rw [UnifiedDiff.Range.index] at placed ⊢
  rw [spanOf]
  -- without lines there is no span, and its place holds no line either
  split
  next none => rw [countP_nil, if_neg (by omega)]
  next some_ =>
    rw [if_neg some_] at placed
    rw [countP_singleton]
    simp only [decide_eq_true_eq]
    have start : ((range.start : Int) - 1).toNat = range.start - 1 := by omega
    rw [start]
    congr 1
    apply propext
    constructor
    · rintro ⟨same, from_, to_⟩
      exact ⟨same, by omega, by omega⟩
    · rintro ⟨same, from_, to_⟩
      exact ⟨same, by omega, by omega⟩

private theorem aligned_start (old new : List Bytes) : Aligned old new {} where
  once side i := by cases side <;> simp [Alignment.covered, Alignment.cursor]
  increasing := List.Pairwise.nil
  within := nofun
  equal := nofun

variable {after : Alignment}

section Steps
variable {base head : String} {old new : List Bytes} {found : Alignment} {pairs : List (Nat × Nat)}

theorem equalLinePairs_eq_ok {oldStart oldEnd newStart newEnd : Nat}
    (done : equalLinePairs old new oldStart oldEnd newStart newEnd = .ok pairs) :
    (old.take oldEnd).drop oldStart = (new.take newEnd).drop newStart ∧
      pairs = (List.range (oldEnd - oldStart)).map fun offset =>
        (oldStart + offset, newStart + offset) := by
  rw [equalLinePairs] at done
  split at done
  next => cases done
  next same =>
    cases done
    exact ⟨not_not.mp same, rfl⟩

theorem Aligned.addPairs (aligned : Aligned old new found) {oldEnd newEnd : Nat}
    (fromOld : found.oldCursor ≤ oldEnd) (toOld : oldEnd ≤ old.length)
    (fromNew : found.newCursor ≤ newEnd) (toNew : newEnd ≤ new.length)
    (done : equalLinePairs old new found.oldCursor oldEnd found.newCursor newEnd = .ok pairs) :
    Aligned old new
      { found with pairs := found.pairs ++ pairs, oldCursor := oldEnd, newCursor := newEnd } := by
  obtain ⟨same, rfl⟩ := equalLinePairs_eq_ok done
  -- equal pieces are of one length, so both cursors move by the same number of lines
  have sizes := congrArg List.length same
  simp only [length_drop, length_take] at sizes
  constructor
  · intro side i
    have before := aligned.once side i
    have more : (List.map (fun offset => (found.oldCursor + offset, found.newCursor + offset))
          (List.range (oldEnd - found.oldCursor))).countP (fun pair => lineOf side pair = i) =
        if found.cursor side ≤ i ∧ i < found.cursor side + (oldEnd - found.oldCursor) then 1
        else 0 := by
      rw [countP_map, ← countP_range]
      cases side <;> rfl
    simp only [Alignment.covered, countP_append, more] at before ⊢
    rw [Nat.add_right_comm, before]
    -- on both sides the pairs cover the lines from the cursor to the new one
    cases side with
    | base =>
      have stop : found.cursor .base + (oldEnd - found.oldCursor) = oldEnd :=
        Nat.add_sub_cancel' fromOld
      exact (covered_step _ _ i).trans (by rw [stop]; rfl)
    | head =>
      have stop : found.cursor .head + (oldEnd - found.oldCursor) = newEnd := by
        rw [Alignment.cursor]
        omega
      exact (covered_step _ _ i).trans (by rw [stop]; rfl)
  · rw [pairwise_append]
    refine ⟨aligned.increasing, ?_, ?_⟩
    · rw [pairwise_map]
      exact pairwise_lt_range.imp fun lt => ⟨by omega, by omega⟩
    · intro pair member later among
      obtain ⟨offset, -, rfl⟩ := mem_map.mp among
      have inside := aligned.within pair member
      exact ⟨by omega, by omega⟩
  · intro pair member
    rcases mem_append.mp member with early | late
    · have inside := aligned.within pair early
      exact ⟨by dsimp only; omega, by dsimp only; omega⟩
    · obtain ⟨offset, below, rfl⟩ := mem_map.mp late
      rw [mem_range] at below
      exact ⟨by dsimp only; omega, by dsimp only; omega⟩
  · intro pair member
    rcases mem_append.mp member with early | late
    · exact aligned.equal pair early
    · obtain ⟨offset, below, rfl⟩ := mem_map.mp late
      rw [mem_range] at below
      have line := congrArg (·[offset]?) same
      simp only [List.getElem?_drop] at line
      rw [List.getElem?_take_of_lt (by omega), List.getElem?_take_of_lt (by omega)] at line
      have inside : found.oldCursor + offset < old.length := by omega
      exact ⟨_, List.getElem?_eq_getElem inside, line ▸ List.getElem?_eq_getElem inside⟩

variable {hunk : Hunk}

theorem Aligned.addSpans (aligned : Aligned old new found)
    (placedOld : 0 ≤ hunk.old.index) (placedNew : 0 ≤ hunk.new.index)
    (atOld : found.oldCursor = hunk.old.index.toNat)
    (atNew : found.newCursor = hunk.new.index.toNat) :
    Aligned old new
      { found with
        spans := found.spans ++ spanOf base .base hunk.old ++ spanOf head .head hunk.new
        oldCursor := hunk.old.index.toNat + hunk.old.count
        newCursor := hunk.new.index.toNat + hunk.new.count } := by
  constructor
  · intro side i
    have before := aligned.once side i
    simp only [Alignment.covered, countP_append, countP_spanOf _ _ _ placedOld,
      countP_spanOf _ _ _ placedNew] at before ⊢
    rw [← Nat.add_assoc, ← Nat.add_assoc, before]
    cases side with
    | base =>
      rw [Alignment.cursor, atOld]
      simp only [true_and, reduceCtorEq, false_and, if_false, Nat.add_zero]
      exact covered_step _ _ i
    | head =>
      rw [Alignment.cursor, atNew]
      simp only [true_and, reduceCtorEq, false_and, if_false, Nat.add_zero]
      exact covered_step _ _ i
  · exact aligned.increasing
  · intro pair member
    have inside := aligned.within pair member
    exact ⟨by dsimp only; omega, by dsimp only; omega⟩
  · exact aligned.equal

theorem addHunk_eq_ok (done : addHunk base head old new found hunk = .ok after) :
    (found.oldCursor : Int) ≤ hunk.old.index ∧ (found.newCursor : Int) ≤ hunk.new.index ∧
      hunk.old.index + hunk.old.count ≤ old.length ∧ hunk.new.index + hunk.new.count ≤ new.length ∧
      ∃ pairs, equalLinePairs old new found.oldCursor hunk.old.index.toNat found.newCursor
          hunk.new.index.toNat = .ok pairs ∧
        after =
          { pairs := found.pairs ++ pairs
            spans := found.spans ++ spanOf base .base hunk.old ++ spanOf head .head hunk.new
            oldCursor := hunk.old.index.toNat + hunk.old.count
            newCursor := hunk.new.index.toNat + hunk.new.count } := by
  rw [addHunk] at done
  dsimp only at done
  split at done
  next => cases done
  next fits =>
    obtain ⟨pairs, equal, made⟩ := bind_eq_ok_iff.mp done
    cases made
    exact ⟨by omega, by omega, by omega, by omega, pairs, equal, rfl⟩

/-- One hunk keeps the alignment. -/
theorem Aligned.addHunk (aligned : Aligned old new found)
    (done : addHunk base head old new found hunk = .ok after) : Aligned old new after := by
  obtain ⟨fromOld, fromNew, toOld, toNew, pairs, equal, rfl⟩ := addHunk_eq_ok done
  -- first the equal lines up to the hunk, then its own lines
  have between := aligned.addPairs (by omega) (by omega) (by omega) (by omega) equal
  exact between.addSpans (by omega) (by omega) rfl rfl

/-- The equal lines of a step are old lines that stay in place before the new ones. -/
theorem drop_patched {oldEnd newEnd count : Nat} {rest : List Bytes}
    (same : (old.take oldEnd).drop found.oldCursor = (new.take newEnd).drop found.newCursor)
    (from_ : found.newCursor ≤ newEnd) (behind : rest = new.drop (newEnd + count)) :
    (old.take oldEnd).drop found.oldCursor ++ (new.drop newEnd).take count ++ rest =
      new.drop found.newCursor := by
  -- the new lines of the hunk and what is behind them are all new lines from the hunk on
  have tail : (new.drop newEnd).take count ++ rest = new.drop newEnd := by
    rw [behind, ← drop_drop, take_append_drop]
  rw [append_assoc, tail, same]
  have split := congrArg (List.drop found.newCursor) (take_append_drop newEnd new)
  rw [drop_append] at split
  rcases Nat.lt_or_ge new.length newEnd with past | within
  · rw [drop_eq_nil_of_le past.le, append_nil, take_of_length_le past.le]
  · rw [length_take_of_le within, Nat.sub_eq_zero_of_le from_, drop_zero] at split
    exact split

theorem addRest_eq_ok (aligned : Aligned old new found) (inOld : found.oldCursor ≤ old.length)
    (inNew : found.newCursor ≤ new.length) (done : addRest old new found = .ok after) :
    Aligned old new after ∧ after.oldCursor = old.length ∧ after.newCursor = new.length ∧
      old.drop found.oldCursor = new.drop found.newCursor := by
  obtain ⟨pairs, equal, made⟩ := bind_eq_ok_iff.mp done
  cases made
  refine ⟨aligned.addPairs inOld le_rfl inNew le_rfl equal, rfl, rfl, ?_⟩
  have same := (equalLinePairs_eq_ok equal).1
  rwa [take_length, take_length] at same

/-- So do all hunks and the rest, to the ends of both files. -/
theorem addHunks_aligned (hunks : List Hunk) {found : Alignment} (aligned : Aligned old new found)
    (inOld : found.oldCursor ≤ old.length) (inNew : found.newCursor ≤ new.length)
    (done : hunks.foldlM (addHunk base head old new) found >>= addRest old new = .ok after) :
    Aligned old new after ∧ after.oldCursor = old.length ∧ after.newCursor = new.length ∧
      patched old new found.oldCursor hunks = new.drop found.newCursor := by
  -- by the hunks that are left; the invariant is that the files are aligned up to the cursors
  induction hunks generalizing found with
  | nil => exact addRest_eq_ok aligned inOld inNew done
  | cons hunk hunks ih =>
    rw [foldlM_cons, bind_assoc] at done
    obtain ⟨next, step, rest⟩ := bind_eq_ok_iff.mp done
    have aligned' := aligned.addHunk step
    obtain ⟨fromOld, fromNew, toOld, toNew, pairs, equal, rfl⟩ := addHunk_eq_ok step
    obtain ⟨whole, endOld, endNew, behind⟩ :=
      ih aligned' (by dsimp only; omega) (by dsimp only; omega) rest
    refine ⟨whole, endOld, endNew, ?_⟩
    exact drop_patched (equalLinePairs_eq_ok equal).1 (by omega) behind

end Steps

/-- Each line of either file is in one pair or in one span, the pairs join equal lines and go
forward in both files, and there are no other lines. -/
structure Exact (old new : List Bytes) (found : Alignment) : Prop where
  oldOnce : ∀ i, found.covered .base i = if i < old.length then 1 else 0
  newOnce : ∀ i, found.covered .head i = if i < new.length then 1 else 0
  increasing : found.pairs.Pairwise fun a b => a.1 < b.1 ∧ a.2 < b.2
  equal : ∀ pair ∈ found.pairs, ∃ line, old[pair.1]? = some line ∧ new[pair.2]? = some line

theorem Aligned.exact {old new : List Bytes} {found : Alignment} (aligned : Aligned old new found)
    (endOld : found.oldCursor = old.length) (endNew : found.newCursor = new.length) :
    Exact old new found where
  oldOnce i := by rw [aligned.once, Alignment.cursor, endOld]
  newOnce i := by rw [aligned.once, Alignment.cursor, endNew]
  increasing := aligned.increasing
  equal := aligned.equal

theorem exact_spanOf (path : String) (side : Side) (lines : List Bytes) :
    Exact (if side = .base then lines else []) (if side = .head then lines else [])
      { spans := spanOf path side ⟨1, lines.length⟩ } := by
  have placed : 0 ≤ UnifiedDiff.Range.index ⟨1, lines.length⟩ := by
    simp only [UnifiedDiff.Range.index]
    split <;> omega
  have place : (UnifiedDiff.Range.index ⟨1, lines.length⟩).toNat ≤ 1 ∧
      (lines.length ≠ 0 → (UnifiedDiff.Range.index ⟨1, lines.length⟩).toNat = 0) := by
    simp only [UnifiedDiff.Range.index]
    split <;> omega
  have once (other : Side) (i : Nat) :
      ({ spans := spanOf path side ⟨1, lines.length⟩ } : Alignment).covered other i =
        if side = other ∧ i < lines.length then 1 else 0 := by
    rw [Alignment.covered, countP_nil, Nat.zero_add, countP_spanOf path side other placed]
    dsimp only
    congr 1
    apply propext
    constructor
    · rintro ⟨same, from_, to_⟩
      exact ⟨same, by omega⟩
    · rintro ⟨same, below⟩
      exact ⟨same, by omega, by omega⟩
  constructor
  · intro i
    rw [once]
    cases side <;> simp
  · intro i
    rw [once]
    cases side <;> simp
  · exact List.Pairwise.nil
  · exact nofun

theorem alignFile_exact {base head : Option Blob} {patch : Bytes} {found : Alignment}
    (done : alignFile base head patch = .ok found) :
    Exact (sourceLines (contents base)) (sourceLines (contents head)) found ∧
      (base.isSome → head.isSome →
        patched (sourceLines (contents base)) (sourceLines (contents head)) 0 (readHunks patch) =
          sourceLines (contents head)) := by
  cases base with
  | none =>
    cases head with
    | none =>
      cases done
      exact ⟨exact_spanOf "" .base [], nofun⟩
    | some h =>
      cases done
      exact ⟨exact_spanOf h.path .head _, nofun⟩
  | some b =>
    cases head with
    | none =>
      cases done
      exact ⟨exact_spanOf b.path .base _, fun _ => nofun⟩
    | some h =>
      simp only [alignFile] at done
      split at done
      next => cases done
      next =>
        obtain ⟨aligned, endOld, endNew, whole⟩ := addHunks_aligned (readHunks patch)
          (aligned_start _ _) (Nat.zero_le _) (Nat.zero_le _) done
        exact ⟨aligned.exact endOld endNew, fun _ _ => whole⟩

/-- What is accepted is an exact alignment of the lines of two blobs, the lines make up the blobs, and
the hunks that were read turn the one blob into the other. -/
theorem compareFile_exact {remainingLines : Nat} {base head : Option Blob} {patch : Bytes}
    {found : Alignment} (accepted : compareFile remainingLines base head patch = .ok found) :
    Exact (sourceLines (contents base)) (sourceLines (contents head)) found ∧
      (sourceLines (contents base)).flatten = contents base ∧
      (sourceLines (contents head)).flatten = contents head ∧
      (base.isSome → head.isSome →
        (patched (sourceLines (contents base)) (sourceLines (contents head)) 0
          (readHunks patch)).flatten = contents head) := by
  unfold compareFile at accepted
  obtain ⟨-, -, accepted⟩ := bind_eq_ok_iff.mp accepted
  obtain ⟨-, -, accepted⟩ := bind_eq_ok_iff.mp accepted
  split at accepted
  next => cases accepted
  next =>
    obtain ⟨exact_, whole⟩ := alignFile_exact accepted
    refine ⟨exact_, flatten_sourceLines _, flatten_sourceLines _, fun isBase isHead => ?_⟩
    rw [whole isBase isHead, flatten_sourceLines]

/-- The last line loses its end, and a line is put before it. -/
theorem compareFile_exact_lastLine :
    ∃ found : Alignment,
      compareFile 10 (some ⟨"61", ascii "a\nb\n"⟩) (some ⟨"61", ascii "a\nc\nb"⟩)
        (ascii "@@ -2 +2,2 @@ f()\n-b\n+c\n+b\n\\ No newline at end of file\n") = .ok found ∧
      found.pairs = [(0, 0)] ∧
      Exact (sourceLines (ascii "a\nb\n")) (sourceLines (ascii "a\nc\nb")) found := by
  have accepted : compareFile 10 (some ⟨"61", ascii "a\nb\n"⟩) (some ⟨"61", ascii "a\nc\nb"⟩)
      (ascii "@@ -2 +2,2 @@ f()\n-b\n+c\n+b\n\\ No newline at end of file\n") =
        .ok ⟨[(0, 0)], [⟨"61", 2, 2, .base⟩, ⟨"61", 2, 3, .head⟩], 2, 3⟩ := by
    rfl
  exact ⟨_, accepted, rfl, (compareFile_exact accepted).1⟩

end OpenUltraSast.Push.Snapshot
