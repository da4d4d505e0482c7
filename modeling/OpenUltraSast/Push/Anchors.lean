import Mathlib.Data.List.Chain
import OpenUltraSast.Library.Dicts
import OpenUltraSast.Push.LineAlignment

/-!
# The anchors of a changed file

The equal lines of two blobs stand in runs between the hunks.
-/

namespace OpenUltraSast.Push.Snapshot

open Collections Dicts Model List

abbrev LineRun := List (Nat × Nat)

def follows (last pair : Nat × Nat) : Bool := pair.1 = last.1 + 1 && pair.2 = last.2 + 1

def addToRuns (runs : List LineRun) (pair : Nat × Nat) : List LineRun :=
  match runs.getLast? with
  | none => runs ++ [[pair]]
  | some run =>
    if run.getLast?.any (follows · pair) then runs.dropLast ++ [run ++ [pair]]
    else runs ++ [[pair]]

def anchorRuns (pairs : List (Nat × Nat)) : List LineRun := pairs.foldl addToRuns []

/-- `old_runs` and `new_runs`: the numbers of the runs that a content is in. -/
def runsByLine (side : Side) (lines : List Bytes) (runs : List LineRun) :
    List (Bytes × List Nat) :=
  group (runs.zipIdx.flatMap fun entry =>
    entry.1.map fun pair => (lines.getD (lineOf side pair) [], entry.2))

def trusted (old new : List Bytes) (runs : List LineRun) (content : Bytes) : Bool :=
  (valuesOf (runsByLine .base old runs) content).eraseDups.length = 1 &&
    (valuesOf (runsByLine .head new runs) content).eraseDups.length = 1

/-- What `compare` adds for a changed file behind its alignment. -/
structure Anchored where
  mappings : List LineCorrespondence := []
  boundaries : List String := []

def anchorFile (label : String) (ambiguousRename : Bool) (base head : Blob)
    (earlier : List LineCorrespondence) (found : Alignment) : Anchored :=
  let old := sourceLines base.data
  let new := sourceLines head.data
  let pairs := if ambiguousRename then [] else found.pairs
  let runs := anchorRuns pairs
  let mappings := (pairs.filter fun pair => trusted old new runs (old.getD pair.1 [])).map
    fun pair => ⟨base.path, head.path, pair.1 + 1, pair.1 + 1, pair.2 + 1, le_rfl⟩
  { mappings
    boundaries :=
      (if ambiguousRename then [label ++ ":ambiguous_path_rename_correspondence"] else []) ++
      (if pairs.all fun pair => trusted old new runs (old.getD pair.1 []) then []
        else [label ++ ":ambiguous_line_correspondence"]) ++
      if base.data ≠ [] ∧ head.data ≠ [] ∧ ∀ m ∈ earlier ++ mappings, m.basePath ≠ base.path then
        [label ++ ":line_correspondence_unavailable"]
      else [] }

private theorem flatten_addToRuns (runs : List LineRun) (pair : Nat × Nat) :
    (addToRuns runs pair).flatten = runs.flatten ++ [pair] := by
  unfold addToRuns
  split
  next => rw [flatten_append]; rfl
  next run last =>
    split
    next =>
      obtain ⟨front, rfl⟩ := List.getLast?_eq_some_iff.mp last
      simp [flatten_append]
    next => rw [flatten_append]; rfl

theorem flatten_anchorRuns (pairs : List (Nat × Nat)) : (anchorRuns pairs).flatten = pairs := by
  have all : ∀ runs, (pairs.foldl addToRuns runs).flatten = runs.flatten ++ pairs := by
    induction pairs with
    | nil => exact fun runs => (append_nil _).symm
    | cons pair rest ih =>
      intro runs
      rw [foldl_cons, ih, flatten_addToRuns, append_assoc]
      rfl
  exact all []

private theorem isChain_anchorRuns {pairs : List (Nat × Nat)} :
    ∀ run ∈ anchorRuns pairs, run.IsChain fun last pair => follows last pair = true := by
  refine List.foldlRecOn (motive := fun (runs : List LineRun) =>
    ∀ run ∈ runs, run.IsChain fun last pair => follows last pair = true) pairs _ nofun ?_
  intro runs chains pair _ run member
  unfold addToRuns at member
  split at member
  next =>
    rcases mem_append.mp member with old | new
    · exact chains run old
    · exact mem_singleton.mp new ▸ isChain_singleton pair
  next last isLast =>
    split at member
    next goesOn =>
      rcases mem_append.mp member with old | new
      · exact chains run (dropLast_subset _ old)
      · rw [mem_singleton.mp new, isChain_append]
        refine ⟨chains last (mem_of_getLast? isLast), isChain_singleton pair, ?_⟩
        intro before isBefore next isNext
        cases isNext
        rw [isBefore] at goesOn
        exact goesOn
    next =>
      rcases mem_append.mp member with old | new
      · exact chains run old
      · exact mem_singleton.mp new ▸ isChain_singleton pair

variable {pair : Nat × Nat}

theorem mem_pairs_iff {pairs : List (Nat × Nat)} :
    pair ∈ pairs ↔ ∃ (k : Nat) (run : LineRun), (anchorRuns pairs)[k]? = some run ∧ pair ∈ run := by
  have all : pair ∈ pairs ↔ ∃ run ∈ anchorRuns pairs, pair ∈ run := by
    rw [← mem_flatten, flatten_anchorRuns]
  rw [all]
  constructor
  · rintro ⟨run, member, inside⟩
    obtain ⟨k, found⟩ := mem_iff_getElem?.mp member
    exact ⟨k, run, found, inside⟩
  · rintro ⟨k, run, found, inside⟩
    exact ⟨run, mem_of_getElem? found, inside⟩

def InRun (old : List Bytes) (runs : List LineRun) (content : Bytes) (k : Nat) : Prop :=
  ∃ run, runs[k]? = some run ∧ ∃ pair ∈ run, old[pair.1]? = some content

def InOneRun (old : List Bytes) (runs : List LineRun) (content : Bytes) : Prop :=
  ∃ k, ∀ other, InRun old runs content other ↔ other = k

section
variable {old new : List Bytes} {pairs : List (Nat × Nat)}

theorem mem_runsByLine {side : Side} {lines : List Bytes} {runs : List LineRun} {content : Bytes}
    {k : Nat} : k ∈ valuesOf (runsByLine side lines runs) content ↔
      ∃ run, runs[k]? = some run ∧ ∃ pair ∈ run, lines.getD (lineOf side pair) [] = content := by
  rw [runsByLine, valuesOf_group, mem_map]
  simp only [mem_filter, mem_flatMap, mem_map, decide_eq_true_eq]
  constructor
  · rintro ⟨_, ⟨⟨⟨run, number⟩, numbered, pair, inside, rfl⟩, same⟩, rfl⟩
    exact ⟨run, (mem_zipIdx_iff_getElem?).mp numbered, pair, inside, same⟩
  · rintro ⟨run, found, pair, inside, same⟩
    exact ⟨_, ⟨⟨(run, k), mem_zipIdx_iff_getElem?.mpr found, pair, inside, rfl⟩, same⟩, rfl⟩

/-- A line is trusted exactly where it stands in one run only. -/
theorem trusted_iff
    (equal : ∀ pair ∈ pairs, ∃ line, old[pair.1]? = some line ∧ new[pair.2]? = some line)
    (content : Bytes) :
    trusted old new (anchorRuns pairs) content = true ↔ InOneRun old (anchorRuns pairs) content := by
  have inside : ∀ {k run pair}, (anchorRuns pairs)[k]? = some run → pair ∈ run → pair ∈ pairs :=
    fun found member => mem_pairs_iff.mpr ⟨_, _, found, member⟩
  have base : ∀ k, k ∈ valuesOf (runsByLine .base old (anchorRuns pairs)) content ↔
      InRun old (anchorRuns pairs) content k := by
    intro k
    rw [mem_runsByLine, InRun]
    refine exists_congr fun run => and_congr_right fun found => exists_congr fun pair =>
      and_congr_right fun member => ?_
    obtain ⟨line, isOld, -⟩ := equal pair (inside found member)
    simp [lineOf, List.getD, isOld]
  have head : ∀ k, k ∈ valuesOf (runsByLine .head new (anchorRuns pairs)) content ↔
      InRun old (anchorRuns pairs) content k := by
    intro k
    rw [mem_runsByLine, InRun]
    refine exists_congr fun run => and_congr_right fun found => exists_congr fun pair =>
      and_congr_right fun member => ?_
    obtain ⟨line, isOld, isNew⟩ := equal pair (inside found member)
    simp [lineOf, List.getD, isOld, isNew]
  rw [trusted, Bool.and_eq_true, decide_eq_true_iff, decide_eq_true_iff, length_eraseDups_eq_one,
    length_eraseDups_eq_one]
  simp only [base, head, and_self]
  rfl

end

/-- The content of a pair is in no line of either file outside the run. -/
def OnlyIn (old new : List Bytes) (run : LineRun) (pair : Nat × Nat) : Prop :=
  (∀ i, old[i]? = old[pair.1]? → ∃ j, (i, j) ∈ run) ∧
    ∀ j, new[j]? = old[pair.1]? → ∃ i, (i, j) ∈ run

/-- An anchor is given only to content that is in one block of lines on each side; an unchanged line
whose content is elsewhere too has none, and is reported. -/
structure Unambiguous (label : String) (old new : List Bytes) (pairs : List (Nat × Nat))
    (out : Anchored) : Prop where
  anchored : ∀ m ∈ out.mappings, ∃ run ∈ anchorRuns pairs, ∃ pair ∈ run,
    m.baseStartLine = pair.1 + 1 ∧ m.headStartLine = pair.2 + 1 ∧
      (run.IsChain fun last pair => follows last pair = true) ∧ OnlyIn old new run pair
  withheld : ∀ run ∈ anchorRuns pairs, ∀ pair ∈ run, ¬ OnlyIn old new run pair →
    (∀ m ∈ out.mappings, m.baseStartLine ≠ pair.1 + 1) ∧
      (label ++ ":ambiguous_line_correspondence" ∈ out.boundaries ∨
        label ++ ":ambiguous_path_rename_correspondence" ∈ out.boundaries)

def Alignment.Changed (found : Alignment) (side : Side) (i : Nat) : Prop :=
  ∃ span ∈ found.spans, span.side = side ∧ span.startLine ≤ i + 1 ∧ i + 1 ≤ span.endLine

section
variable {old new : List Bytes} {found : Alignment}

theorem Exact.changed_iff (exact_ : Exact old new found) (side : Side) {i : Nat}
    (below : i < match side with | .base => old.length | .head => new.length) :
    found.Changed side i ↔ ¬ ∃ pair ∈ found.pairs, lineOf side pair = i := by
  have once : found.covered side i = 1 := by
    cases side with
    | base => rw [exact_.oldOnce, if_pos below]
    | head => rw [exact_.newOnce, if_pos below]
  have paired : (∃ pair ∈ found.pairs, lineOf side pair = i) ↔
      0 < found.pairs.countP fun pair => lineOf side pair = i := by
    simp [countP_pos_iff]
  have spanned : found.Changed side i ↔ 0 < found.spans.countP fun span =>
      span.side = side ∧ span.startLine ≤ i + 1 ∧ i + 1 ≤ span.endLine := by
    simp [countP_pos_iff, Alignment.Changed]
  rw [paired, spanned]
  rw [Alignment.covered] at once
  omega

theorem Exact.onlyIn (exact_ : Exact old new found) {k : Nat} {run : LineRun}
    {content : Bytes} (found_ : (anchorRuns found.pairs)[k]? = some run) (member : pair ∈ run)
    (isOld : old[pair.1]? = some content)
    (one : InOneRun old (anchorRuns found.pairs) content)
    (apart : (∀ i, old[i]? = some content → ¬ found.Changed .base i) ∧
      ∀ j, new[j]? = some content → ¬ found.Changed .head j) : OnlyIn old new run pair := by
  obtain ⟨only, is⟩ := one
  have here := (is k).mp ⟨run, found_, pair, member, isOld⟩
  -- a pair with the content is in a run that has it, and there is no other such run
  have within : ∀ other ∈ found.pairs, old[other.1]? = some content → other ∈ run := by
    intro other among same
    obtain ⟨k', run', found', inside⟩ := mem_pairs_iff.mp among
    have there := (is k').mp ⟨run', found', other, inside, same⟩
    rw [there, ← here, found_, Option.some.injEq] at found'
    exact found' ▸ inside
  constructor
  · intro i same
    rw [isOld] at same
    have below : i < old.length := (List.getElem?_eq_some_iff.mp same).1
    have unchanged := apart.1 i same
    rw [exact_.changed_iff .base below, not_not] at unchanged
    obtain ⟨other, among, rfl⟩ := unchanged
    exact ⟨other.2, within other among same⟩
  · intro j same
    rw [isOld] at same
    have below : j < new.length := (List.getElem?_eq_some_iff.mp same).1
    have unchanged := apart.2 j same
    rw [exact_.changed_iff .head below, not_not] at unchanged
    obtain ⟨other, among, rfl⟩ := unchanged
    obtain ⟨line, isOld', isNew⟩ := exact_.equal other among
    exact ⟨other.1, within other among (isOld'.trans (isNew.symm.trans same))⟩

end

section
variable {label : String} {base head : Blob} {earlier : List LineCorrespondence} {found : Alignment}

theorem mem_mappings {m : LineCorrespondence} :
    m ∈ (anchorFile label false base head earlier found).mappings ↔
      ∃ pair ∈ found.pairs, trusted (sourceLines base.data) (sourceLines head.data)
          (anchorRuns found.pairs) ((sourceLines base.data).getD pair.1 []) = true ∧
        m = ⟨base.path, head.path, pair.1 + 1, pair.1 + 1, pair.2 + 1, le_rfl⟩ := by
  simp only [anchorFile, Bool.false_eq_true, if_false, mem_map, mem_filter, and_assoc,
    eq_comm]

theorem reported (among : pair ∈ found.pairs)
    (untrusted : ¬ trusted (sourceLines base.data) (sourceLines head.data)
      (anchorRuns found.pairs) ((sourceLines base.data).getD pair.1 []) = true) :
    label ++ ":ambiguous_line_correspondence" ∈
      (anchorFile label false base head earlier found).boundaries := by
  have some_ : ¬ (found.pairs.all fun pair => trusted (sourceLines base.data)
      (sourceLines head.data) (anchorRuns found.pairs)
      ((sourceLines base.data).getD pair.1 [])) = true :=
    fun all => untrusted (all_eq_true.mp all pair among)
  simp only [anchorFile, Bool.false_eq_true, if_false, if_neg some_]
  exact mem_append_left _ (mem_append_right _ (mem_singleton_self _))

variable (label earlier)

/-- The anchors of an accepted comparison are unambiguous exactly when no line of a hunk has the content
of an unchanged line that is in exactly one run, or when the rename itself is ambiguous. -/
theorem anchors_unambiguous_iff {remainingLines : Nat} {patch : Bytes} (ambiguousRename : Bool)
    (accepted : compareFile remainingLines (some base) (some head) patch = .ok found) :
    Unambiguous label (sourceLines base.data) (sourceLines head.data) found.pairs
        (anchorFile label ambiguousRename base head earlier found) ↔
      ambiguousRename = true ∨ ∀ content,
        InOneRun (sourceLines base.data) (anchorRuns found.pairs) content →
          (∀ i, (sourceLines base.data)[i]? = some content → ¬ found.Changed .base i) ∧
            ∀ j, (sourceLines head.data)[j]? = some content → ¬ found.Changed .head j := by
  have exact_ : Exact (sourceLines base.data) (sourceLines head.data) found :=
    (compareFile_exact accepted).1
  have trusts := fun content => trusted_iff exact_.equal content
  cases ambiguousRename with
  | true =>
    refine ⟨fun _ => .inl rfl, fun _ => ⟨nofun, fun run _ pair _ _ => ⟨nofun, .inr ?_⟩⟩⟩
    exact mem_append_left _ (mem_append_left _ (mem_singleton_self _))
  | false =>
    rw [Bool.false_eq_true, false_or]
    constructor
    · intro unambiguous content one
      obtain ⟨k, is⟩ := one
      obtain ⟨run, found_, pair, member, isOld⟩ := (is k).mpr rfl
      -- the content is in one run, so its line is anchored
      have anchor : (⟨base.path, head.path, pair.1 + 1, pair.1 + 1, pair.2 + 1, le_rfl⟩ :
          LineCorrespondence) ∈ (anchorFile label false base head earlier found).mappings := by
        refine mem_mappings.mpr ⟨pair, mem_pairs_iff.mpr ⟨k, run, found_, member⟩, ?_, rfl⟩
        rw [trusts, List.getD, isOld]
        exact ⟨k, is⟩
      obtain ⟨run', among, other, _, same, _, _, only⟩ := unambiguous.anchored _ anchor
      rw [OnlyIn, ← Nat.succ.inj same, isOld] at only
      constructor
      · intro i here changed
        obtain ⟨j, inside⟩ := only.1 i here
        rw [exact_.changed_iff .base (List.getElem?_eq_some_iff.mp here).1] at changed
        refine changed ⟨(i, j), ?_, rfl⟩
        rw [← flatten_anchorRuns found.pairs]
        exact mem_flatten.mpr ⟨run', among, inside⟩
      · intro j here changed
        obtain ⟨i, inside⟩ := only.2 j here
        rw [exact_.changed_iff .head (List.getElem?_eq_some_iff.mp here).1] at changed
        refine changed ⟨(i, j), ?_, rfl⟩
        rw [← flatten_anchorRuns found.pairs]
        exact mem_flatten.mpr ⟨run', among, inside⟩
    · intro apart
      constructor
      · intro m anchor
        obtain ⟨pair, among, trusted_, rfl⟩ := mem_mappings.mp anchor
        obtain ⟨k, run, found_, member⟩ := mem_pairs_iff.mp among
        obtain ⟨content, isOld, -⟩ := exact_.equal pair among
        rw [List.getD, isOld, trusts] at trusted_
        have inside := mem_of_getElem? found_
        exact ⟨run, inside, pair, member, rfl, rfl, isChain_anchorRuns run inside,
          exact_.onlyIn found_ member isOld trusted_ (apart content trusted_)⟩
      · intro run inside pair member elsewhere
        obtain ⟨k, found_⟩ := mem_iff_getElem?.mp inside
        have among := mem_pairs_iff.mpr ⟨k, run, found_, member⟩
        obtain ⟨content, isOld, -⟩ := exact_.equal pair among
        have split : ¬ InOneRun (sourceLines base.data) (anchorRuns found.pairs) content :=
          fun one => elsewhere (exact_.onlyIn found_ member isOld one (apart content one))
        rw [← trusts] at split
        constructor
        · intro m anchor same
          obtain ⟨other, -, trusted_, rfl⟩ := mem_mappings.mp anchor
          rw [Nat.succ.inj same, List.getD, isOld] at trusted_
          exact split trusted_
        · refine .inl (reported among ?_)
          rw [List.getD, isOld]
          exact split

/-- A call behind a line that changed. -/
theorem changedFirst_unambiguous : ∃ found,
    compareFile 10 (some ⟨"61", ascii "a\nf\n"⟩) (some ⟨"61", ascii "b\nf\n"⟩)
      (ascii "@@ -1 +1 @@\n-a\n+b\n") = .ok found ∧
    Unambiguous "61" (sourceLines (ascii "a\nf\n")) (sourceLines (ascii "b\nf\n")) found.pairs
      (anchorFile "61" false ⟨"61", ascii "a\nf\n"⟩ ⟨"61", ascii "b\nf\n"⟩ [] found) := by
  have accepted : compareFile 10 (some ⟨"61", ascii "a\nf\n"⟩) (some ⟨"61", ascii "b\nf\n"⟩)
      (ascii "@@ -1 +1 @@\n-a\n+b\n") =
        .ok ⟨[(1, 1)], [⟨"61", 1, 1, .base⟩, ⟨"61", 1, 1, .head⟩], 2, 2⟩ := by
    rfl
  refine ⟨_, accepted, (anchors_unambiguous_iff "61" [] false accepted).mpr (.inr ?_)⟩
  rintro content ⟨k, is⟩
  obtain ⟨run, found, pair, member, isOld⟩ := (is k).mpr rfl
  have only : run = [(1, 1)] := mem_singleton.mp (mem_of_getElem? found)
  rw [only, mem_singleton] at member
  rw [member] at isOld
  have content_ : content = ascii "f\n" := (Option.some.inj isOld).symm
  rw [content_]
  constructor
  · rintro i here ⟨span, among, side, from_, to_⟩
    have place : i = 0 := by
      rcases mem_pair.mp among with rfl | rfl
      · exact Nat.le_zero.mp (Nat.le_of_succ_le_succ to_)
      · cases side
    rw [place] at here
    exact absurd here (by decide)
  · rintro i here ⟨span, among, side, from_, to_⟩
    have place : i = 0 := by
      rcases mem_pair.mp among with rfl | rfl
      · cases side
      · exact Nat.le_zero.mp (Nat.le_of_succ_le_succ to_)
    rw [place] at here
    exact absurd here (by decide)

/-- A copy of a line is put behind it, and the line is anchored. -/
theorem insertedCopy_ambiguous : ∃ found,
    compareFile 10 (some ⟨"61", ascii "f\n"⟩) (some ⟨"61", ascii "f\nf\n"⟩)
      (ascii "@@ -1,0 +2 @@\n+f\n") = .ok found ∧
    ¬ Unambiguous "61" (sourceLines (ascii "f\n")) (sourceLines (ascii "f\nf\n")) found.pairs
      (anchorFile "61" false ⟨"61", ascii "f\n"⟩ ⟨"61", ascii "f\nf\n"⟩ [] found) := by
  refine ⟨⟨[(0, 0)], [⟨"61", 2, 2, .head⟩], 1, 2⟩, rfl, fun unambiguous => ?_⟩
  have anchor := (@mem_mappings "61" ⟨"61", ascii "f\n"⟩ ⟨"61", ascii "f\nf\n"⟩ []
    ⟨[(0, 0)], [⟨"61", 2, 2, .head⟩], 1, 2⟩ _).mpr
    ⟨(0, 0), mem_singleton_self _, by decide, rfl⟩
  obtain ⟨run, among, pair, member, same, _, _, only⟩ := unambiguous.anchored _ anchor
  have is : run = [(0, 0)] := mem_singleton.mp among
  rw [is, mem_singleton] at member
  rw [is, member] at only
  obtain ⟨i, inside⟩ := only.2 1 (by decide)
  cases mem_singleton.mp inside

end

end OpenUltraSast.Push.Snapshot
