import OpenUltraSast.Model.AffectedContext

/-!
# The indexed pass and the plain one

What the indexes hold for a location is what a scan of the spans and the line correspondences finds,
and what is remembered is what the file system says.
-/

namespace OpenUltraSast.Model.Regions

open Bisect Dicts Values List

private theorem sortAnchors_sorted (anchors : List Anchor) :
    (sortAnchors anchors).Pairwise fun a b => a.1 ≤ b.1 := by
  have total : Std.Total fun a b : Anchor => a.1 < b.1 ∨ a.1 = b.1 ∧ a.2 ≤ b.2 :=
    ⟨fun a b => by omega⟩
  have trans : IsTrans Anchor fun a b => a.1 < b.1 ∨ a.1 = b.1 ∧ a.2 ≤ b.2 :=
    ⟨fun a b c ab bc => by omega⟩
  exact (pairwise_insertionSort _ anchors).imp fun le => by omega

private theorem sort_by_place {anchors others : List Anchor} (perm : others.Perm anchors)
    (ordered : anchors.Pairwise fun a b => a.2 < b.2) :
    others.insertionSort (fun a b => a.2 ≤ b.2) = anchors := by
  have total : Std.Total fun a b : Anchor => a.2 ≤ b.2 := ⟨fun a b => by omega⟩
  have trans : IsTrans Anchor fun a b => a.2 ≤ b.2 := ⟨fun a b c ab bc => by omega⟩
  have sorted := pairwise_insertionSort (fun a b : Anchor => a.2 ≤ b.2) others
  refine ((perm_insertionSort _ others).trans perm).eq_of_pairwise
    (fun a b memberA memberB le ge => ?_) sorted (ordered.imp fun less => less.le)
  -- two anchors of the list at one place are the same
  have member := ((perm_insertionSort _ others).trans perm).mem_iff.mp memberA
  obtain ⟨i, here, rfl⟩ := mem_iff_getElem.mp member
  obtain ⟨j, there, rfl⟩ := mem_iff_getElem.mp memberB
  rw [pairwise_iff_getElem] at ordered
  rcases Nat.lt_trichotomy i j with less | rfl | more
  · have apart := ordered i j here there less
    omega
  · rfl
  · have apart := ordered j i there here more
    omega

variable {start stop : Int}

theorem anchoredLines_sort {anchors : List Anchor} (ordered : anchors.Pairwise fun a b => a.2 < b.2)
    (extent : start ≤ stop) :
    anchoredLines (sortAnchors anchors) start stop =
      (anchors.filter fun anchor => start ≤ anchor.1 ∧ anchor.1 ≤ stop).map (·.1) := by
  have sorted := sortAnchors_sorted anchors
  have lower : Split (fun anchor : Anchor => decide ((anchor.1 : Int) < start))
      (sortAnchors anchors) := sorted.imp fun le => by simp; omega
  have upper : Split (fun anchor : Anchor => decide ((anchor.1 : Int) ≤ stop))
      (sortAnchors anchors) := sorted.imp fun le => by simp; omega
  have between := between_eq_filter lower upper fun anchor => by simp; omega
  have same : ∀ anchor : Anchor, (!decide ((anchor.1 : Int) < start) &&
      decide ((anchor.1 : Int) ≤ stop)) = decide (start ≤ anchor.1 ∧ anchor.1 ≤ stop) := by
    intro anchor
    simp only [Bool.decide_and, ← decide_not, Int.not_lt]
  simp only [same] at between
  have perm : (sortAnchors anchors).Perm anchors := perm_insertionSort _ anchors
  rw [anchoredLines]
  split
  next none_ =>
    have empty : anchors = [] := by
      have length := perm.length_eq
      rw [none_] at length
      exact length_eq_zero_iff.mp length.symm
    rw [empty]
    rfl
  next =>
    dsimp only
    rw [between, sort_by_place (perm.filter _) (ordered.filter _)]

section Evidence
variable (w : Spelling) (context : ChangeContext)

private theorem spans_indexed (path : String) (start stop : Int) :
    ((valuesOf (spansByPath w context) path).filter (·.meets start stop)).map Span.evidence =
      context.spans.filterMap fun span =>
        if matchPath w context span = path ∧ (spanOf w context span).meets start stop then
          some (spanOf w context span).evidence
        else none := by
  rw [spansByPath, valuesOf_group]
  induction context.spans with
  | nil => rfl
  | cons span rest ih =>
    rw [map_cons, filterMap_cons, ← ih]
    by_cases here : matchPath w context span = path
    · by_cases meets : (spanOf w context span).meets start stop = true <;> simp [here, meets]
    · simp [here]

def anchorsOf (path : String) : List Anchor :=
  ((context.lineCorrespondences.zipIdx.map fun (anchor, index) =>
    (decodePath w context anchor.headPath, (anchor.headStartLine, index))).filter
      (·.1 = path)).map (·.2)

private theorem anchors_indexed (path : String) :
    valuesOf (anchorsByPath w context) path = sortAnchors (anchorsOf w context path) := by
  have mapped := valuesOf_map (f := sortAnchors) rfl
    (group (context.lineCorrespondences.zipIdx.map fun (anchor, index) =>
      (decodePath w context anchor.headPath, (anchor.headStartLine, index)))) path
  rw [valuesOf_group] at mapped
  exact mapped

private theorem anchorsOf_ordered (path : String) :
    (anchorsOf w context path).Pairwise fun a b => a.2 < b.2 := by
  have places : context.lineCorrespondences.zipIdx.Pairwise fun a b => a.2 < b.2 := by
    rw [← pairwise_map (f := Prod.snd) (R := (· < ·)), zipIdx_map_snd]
    exact pairwise_lt_range'
  refine pairwise_map.mpr (List.Pairwise.filter _ (pairwise_map.mpr ?_))
  exact places

private theorem lines_indexed (path : String) (start stop : Int) :
    ((anchorsOf w context path).filter fun anchor =>
        start ≤ anchor.1 ∧ anchor.1 ≤ stop).map (lineEvidence ·.1) =
      context.lineCorrespondences.filterMap fun anchor =>
        if decodePath w context anchor.headPath = path ∧ start ≤ anchor.headStartLine ∧
            anchor.headStartLine ≤ stop then
          some (lineEvidence anchor.headStartLine)
        else none := by
  have from_ (rest : List LineCorrespondence) : ∀ n,
      ((((rest.zipIdx n).map fun (anchor, index) =>
          (decodePath w context anchor.headPath, (anchor.headStartLine, index))).filter
        (·.1 = path)).map (·.2) |>.filter fun anchor =>
          start ≤ anchor.1 ∧ anchor.1 ≤ stop).map (lineEvidence ·.1) =
        rest.filterMap fun anchor =>
          if decodePath w context anchor.headPath = path ∧ start ≤ anchor.headStartLine ∧
              anchor.headStartLine ≤ stop then
            some (lineEvidence anchor.headStartLine)
          else none := by
    induction rest with
    | nil => intro _; rfl
    | cons anchor rest ih =>
      intro n
      rw [zipIdx_cons, map_cons, filterMap_cons, ← ih (n + 1)]
      by_cases here : decodePath w context anchor.headPath = path
      · by_cases inside : start ≤ anchor.headStartLine ∧ (anchor.headStartLine : Int) ≤ stop <;>
          simp [here, inside]
      · simp [here]
  exact from_ _ 0

private theorem indexedEvidence_eq (path : String) (extent : start ≤ stop) :
    indexedEvidence w context path start stop = plainEvidence w context path start stop := by
  rw [indexedEvidence, plainEvidence, spans_indexed, anchors_indexed,
    anchoredLines_sort (anchorsOf_ordered w context path) extent, map_map,
    ← lines_indexed]
  rfl

end Evidence

section Memory
variable (w : Spelling) (fs : FileSystem)

private theorem unusablePaths_eq (paths : List Json) :
    ∀ checked, Remembers (usable fs) checked →
      (unusablePaths w fs paths checked).1 = (paths.any fun raw => !usable fs (w.str raw)) ∧
        Remembers (usable fs) (unusablePaths w fs paths checked).2 := by
  induction paths with
  | nil => intro checked sound; exact ⟨rfl, sound⟩
  | cons raw rest ih =>
    intro checked sound
    have found := recalled_fst sound (w.str raw)
    have kept := recalled_snd sound (w.str raw)
    rcases answer : recalled (usable fs) checked (w.str raw) with ⟨ok, memory⟩
    rw [answer] at found kept
    rw [unusablePaths, answer, any_cons, ← found]
    -- the loop ends at the first location that is not usable
    cases ok with
    | true => exact ih memory kept
    | false => exact ⟨rfl, kept⟩

private theorem elsewhereUnusable_eq (row : Row) {checked : List (String × Bool)}
    (sound : Remembers (usable fs) checked) :
    (elsewhereUnusable w fs row checked).1 = plainUnusable w fs row ∧
      Remembers (usable fs) (elsewhereUnusable w fs row checked).2 := by
  rw [elsewhereUnusable, plainUnusable]
  cases unusableExtents w row with
  | true => exact ⟨rfl, sound⟩
  | false =>
    rw [if_neg Bool.false_ne_true, Bool.false_or]
    split
    next paths _ => exact unusablePaths_eq w fs paths checked sound
    next => exact ⟨rfl, sound⟩

end Memory

/-- The two passes have found the same, the set holds what the list holds, and what is remembered is
what the file system says. -/
structure Agree (fs : FileSystem) (indexed plain : Pass) : Prop where
  relationships : indexed.relationships = plain.relationships
  gaps : indexed.gaps = plain.gaps
  affected : indexed.affected = plain.affected
  localGaps : indexed.localGaps = plain.localGaps
  recordedOnly : indexed.recordedOnly = plain.recordedOnly
  known : indexed.known = indexed.relationships.toFinset
  checked : Remembers (usable fs) indexed.checked
  resolved : Remembers (contextPath fs) indexed.resolved

section Pass
variable {w : Spelling} {fs : FileSystem} {context : ChangeContext} {indexed plain : Pass}

section
variable (agree : Agree fs indexed plain)
include agree

theorem Agree.addUnavailable :
    Agree fs (addUnavailable indexed) (addUnavailable plain) :=
  { agree with localGaps := congrArg (· ++ _) agree.localGaps }

theorem Agree.addBoundary (row : Row) :
    Agree fs (addBoundary w row indexed) (addBoundary w row plain) := by
  unfold Regions.addBoundary
  dsimp only
  split
  · exact { agree with recordedOnly := congrArg (· ++ _) agree.recordedOnly }
  · exact { agree with localGaps := congrArg (· ++ _) agree.localGaps }

theorem Agree.addKnown (relation : AffectedRelationship) :
    Agree fs (addKnown relation indexed) (addNew relation plain) := by
  have member : relation ∈ indexed.known ↔ relation ∈ plain.relationships := by
    rw [agree.known, mem_toFinset, agree.relationships]
  unfold Regions.addKnown addNew
  by_cases known : relation ∈ plain.relationships
  · rw [if_pos known, if_pos (member.mpr known)]
    exact agree
  · rw [if_neg known, if_neg (mt member.mp known)]
    exact { agree with
      relationships := congrArg (· ++ _) agree.relationships
      known := Finset.ext fun r => by
        rw [Finset.mem_insert, agree.known, mem_toFinset, mem_toFinset, mem_append, mem_singleton,
          or_comm] }

end

/-- The locations of these files are attached the same way. -/
def SameTouch (w : Spelling) (context : ChangeContext) (touched : String → Bool) : Prop :=
  ∀ path start stop, start ≤ stop → plainEvidence w context path start stop ≠ [] →
    (touched path = true ↔ path ∈ attachable w context)

private theorem extentOf_ordered {row : Row}
    (extent : extentOf w row = some (start, stop)) : start ≤ stop := by
  rw [extentOf, Option.bind_eq_bind, Option.bind_eq_some_iff] at extent
  obtain ⟨first, -, extent⟩ := extent
  rw [Option.bind_eq_some_iff] at extent
  obtain ⟨last, -, extent⟩ := extent
  split at extent
  · cases extent
  · cases extent
    omega

/-- One row leaves the pass with the index and the plain one in agreement. -/
theorem Agree.row {touched : String → Bool} (same : SameTouch w context touched)
    (agree : Agree fs indexed plain) (identity : QuestionIdentity) (row : Row) :
    Agree fs (indexedRow w fs context identity indexed row)
      (plainRow w fs context touched identity plain row) := by
  unfold indexedRow plainRow
  split
  next => exact agree.addBoundary row
  next =>
    obtain ⟨unusable, kept⟩ := elsewhereUnusable_eq w fs row agree.checked
    dsimp only
    rw [unusable]
    have agree : Agree fs { indexed with checked := (elsewhereUnusable w fs row indexed.checked).2 }
        plain := { agree with checked := kept }
    split
    · exact agree.addUnavailable
    · exact agree
  next =>
    have found := recalled_fst agree.resolved (textOf w row "path" "")
    have kept := recalled_snd agree.resolved (textOf w row "path" "")
    dsimp only
    rw [found]
    have agree : Agree fs { indexed with
        resolved := (recalled (contextPath fs) indexed.resolved (textOf w row "path" "")).2 } plain :=
      { agree with resolved := kept }
    split
    next path start stop _ extent =>
      have ordered := extentOf_ordered extent
      rw [indexedEvidence_eq w context path ordered]
      -- without evidence neither pass attaches the row, whatever file it is in
      by_cases none_ : plainEvidence w context path start stop = []
      · rw [if_pos (Or.inr none_)]
        split
        · exact agree
        · exact agree
      · have files := same path start stop ordered none_
        by_cases inside : path ∈ attachable w context
        · have touch : ¬ (touched path = false ∨ plainEvidence w context path start stop = []) := by
            simp [files.mpr inside, none_]
          rw [if_pos inside, if_neg none_, if_neg touch]
          exact agree.addKnown _
        · have apart : touched path = false := Bool.not_eq_true _ ▸ mt files.mp inside
          rw [if_neg inside, if_pos (Or.inl apart)]
          exact agree
    next => exact agree.addUnavailable
  next => exact agree

theorem Agree.rows {touched : String → Bool} (same : SameTouch w context touched)
    (identity : QuestionIdentity) (rows : List Row) :
    ∀ {indexed plain : Pass}, Agree fs indexed plain →
      Agree fs (rows.foldl (indexedRow w fs context identity) indexed)
        (rows.foldl (plainRow w fs context touched identity) plain) := by
  induction rows with
  | nil => intro _ _ agree; exact agree
  | cons row rest ih => intro _ _ agree; exact ih (agree.row same identity row)

theorem Agree.closeQuestion (agree : Agree fs indexed plain) (inherited : Bool)
    (identity : QuestionIdentity) :
    Agree fs (closeQuestion w inherited identity indexed)
      (closeQuestion w inherited identity plain) :=
  { agree with
    gaps := by
      simp only [Regions.closeQuestion, agree.gaps, agree.localGaps, agree.recordedOnly]
    affected := by
      simp only [Regions.closeQuestion, agree.affected, agree.localGaps] }

section Questions
variable {touched : String → Bool} (same : SameTouch w context touched) (inherited : Bool)
  (rowsByQuestion : QuestionIdentity → List Row)
include same

theorem Agree.askQuestion (agree : Agree fs indexed plain) (identity : QuestionIdentity) :
    Agree fs (askQuestion w (indexedRow w fs context) inherited rowsByQuestion identity indexed)
      (askQuestion w (plainRow w fs context touched) inherited rowsByQuestion identity plain) := by
  have opened : Agree fs
      { indexed with localGaps := openingGaps (rowsByQuestion identity), recordedOnly := [] }
      { plain with localGaps := openingGaps (rowsByQuestion identity), recordedOnly := [] } :=
    { agree with localGaps := rfl, recordedOnly := rfl }
  exact (opened.rows same identity _).closeQuestion inherited identity

/-- So do all questions, whenever the time is up. -/
theorem Agree.askQuestions (questions : List QuestionIdentity) (expired : Nat → Bool)
    (rest : List QuestionIdentity) :
    ∀ (number : Nat) {indexed plain : Pass}, Agree fs indexed plain →
      Agree fs
        (askQuestions w (indexedRow w fs context) inherited questions rowsByQuestion expired number
          rest indexed)
        (askQuestions w (plainRow w fs context touched) inherited questions rowsByQuestion expired
          number rest plain) := by
  induction rest with
  | nil => intro _ _ _ agree; exact agree
  | cons identity rest ih =>
    intro number indexed plain agree
    rw [Regions.askQuestions, Regions.askQuestions]
    split
    · -- the deadline: both passes name all questions
      exact { agree with
        gaps := congrArg (· ++ _) agree.gaps
        affected := congrArg (· ∪ _) agree.affected }
    · exact ih _ (agree.askQuestion same inherited rowsByQuestion identity)

end Questions

theorem affectedContext_of_same {touched : String → Bool} (same : SameTouch w context touched)
    (questions : List QuestionIdentity) (rowsByQuestion : QuestionIdentity → List Row)
    (expired : Nat → Bool) :
    affectedContext w fs context questions rowsByQuestion expired =
      plainContext w fs context touched questions rowsByQuestion expired := by
  have start : Agree fs
      { relationships := context.relationships
        known := context.relationships.toFinset
        gaps := contextGaps w context }
      { relationships := context.relationships, gaps := contextGaps w context } :=
    ⟨rfl, rfl, rfl, rfl, rfl, rfl, remembers_nil _, remembers_nil _⟩
  have agree := start.askQuestions same (inheritedGap (contextGaps w context)) rowsByQuestion
    questions expired questions 0
  rw [affectedContext, plainContext, finishContext, finishContext, agree.relationships, agree.gaps,
    agree.affected]

end Pass

/-- Every span and every line correspondence is of a file that a location can be attached to. -/
def AllTouched (w : Spelling) (context : ChangeContext) : Prop :=
  (∀ span ∈ context.spans, matchPath w context span ∈ attachable w context) ∧
    ∀ anchor ∈ context.lineCorrespondences,
      decodePath w context anchor.headPath ∈ attachable w context

theorem AllTouched.touch {w : Spelling} {context : ChangeContext} (touched : AllTouched w context) :
    SameTouch w context fun _ => true := by
  intro path start stop _ some_
  refine ⟨fun _ => ?_, fun _ => rfl⟩
  obtain ⟨text, shown⟩ := exists_mem_of_ne_nil _ some_
  rcases mem_append.mp shown with hint | line
  · obtain ⟨span, member, found⟩ := mem_filterMap.mp hint
    split at found
    next here => exact here.1 ▸ touched.1 span member
    next => cases found
  · obtain ⟨anchor, member, found⟩ := mem_filterMap.mp line
    split at found
    next here => exact here.1 ▸ touched.2 anchor member
    next => cases found

/-- The indexed pass finds what the plain pass over the touched files finds, and what the plain pass
over all files finds where the spans and the line correspondences are all of touched ones. -/
theorem affectedContext_eq (w : Spelling) (fs : FileSystem) (context : ChangeContext)
    (questions : List QuestionIdentity) (rowsByQuestion : QuestionIdentity → List Row)
    (expired : Nat → Bool) :
    affectedContext w fs context questions rowsByQuestion expired =
        plainContext w fs context (· ∈ attachable w context) questions rowsByQuestion expired ∧
      (AllTouched w context →
        affectedContext w fs context questions rowsByQuestion expired =
          plainContext w fs context (fun _ => true) questions rowsByQuestion expired) :=
  ⟨affectedContext_of_same (fun _ _ _ _ _ => decide_eq_true_iff) questions rowsByQuestion expired,
    fun touched => affectedContext_of_same touched.touch questions rowsByQuestion expired⟩

def plainSpelling : Spelling where
  str
    | .str text => text
    | .int value => if value = 1 then "1" else "9"
    | _ => ""
  int text := [("0", 0), ("1", 1), ("9", 9)].lookup text
  questionId _ := "question"
  fsdecode := id

def handlerFile : FileSystem where
  root := ["root"]
  resolve raw := some ["root", raw]
  isFile raw := raw = "a.py"

def strayContext : ChangeContext where
  baseRevision := some "base"
  headRevision := "head"
  changedPaths := ["b.py"]
  deletedPaths := []
  spans := [⟨"a.py", 1, 9, .head⟩]
  renames := []
  declarationPaths := []
  relationships := []
  unresolvedBoundaries := []

def handlerQuestion : QuestionIdentity := ⟨"unit", "python", "a.py", some "run", "injection"⟩

def handlerRows : List Row :=
  [[("kind", .str "context_summary")],
    [("kind", .str "context_method"), ("path", .str "a.py"), ("startLine", .int 1),
      ("endLine", .int 9), ("function", .str "run")]]

/-- The plain pass over all files attaches it, the indexed one does not. -/
theorem stray_span_not_attached :
    affectedContext plainSpelling handlerFile strayContext [handlerQuestion] (fun _ => handlerRows)
        (fun _ => false) ≠
      plainContext plainSpelling handlerFile strayContext (fun _ => true) [handlerQuestion]
        (fun _ => handlerRows) fun _ => false := by
  intro same
  have found := congrArg (fun result => result.1.relationships.length) same
  revert found
  decide

def touchedContext : ChangeContext := { strayContext with changedPaths := ["a.py", "b.py"] }

/-- Once the span's file is changed, both attach it. -/
theorem touched_span_attached :
    let indexed := affectedContext plainSpelling handlerFile touchedContext [handlerQuestion]
      (fun _ => handlerRows) fun _ => false
    indexed.1.relationships.length = 1 ∧
      indexed = plainContext plainSpelling handlerFile touchedContext (fun _ => true) [handlerQuestion]
        (fun _ => handlerRows) fun _ => false :=
  have touched : AllTouched plainSpelling touchedContext := ⟨by decide, nofun⟩
  ⟨by decide, (affectedContext_eq _ _ _ _ _ _).2 touched⟩

end OpenUltraSast.Model.Regions
