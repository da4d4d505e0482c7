import OpenUltraSast.Model.CensusGaps

/-!
# Lost census failures

Of a batch the census of the last failing partition is kept, and of each pass the first batch counts.
-/

namespace OpenUltraSast.Model

open PartitionGraph List

variable {σ : Type}

/-- A partition that its engine did not read whole, and the files that are named missing. -/
structure CensusFailure where
  language : String
  missing : List String
deriving DecidableEq

namespace PartitionGraph

variable (graph : PartitionGraph)

/-- What is wrong with the census of a partition: it is missing or unnamed, lacks files, or is
of an empty or a sharded graph. -/
def failure (replied : String × GraphReply σ) : Option CensusFailure :=
  let (language, reply) := replied
  let census := reply.census.getD []
  if !graph.isNamed census then some ⟨language, []⟩
  else if graph.missing language census ≠ [] then some ⟨language, graph.missing language census⟩
  else if census.any isBad then some ⟨language, []⟩
  else none

/-- A question about a missing file, or about any file of the partition where none is named. -/
def Concerns (failure : CensusFailure) (question : QuestionIdentity) : Prop :=
  if failure.missing ≠ [] then plain question.path ∈ failure.missing
  else plain question.path ∈ graph.paths failure.language

def marked (replied : String × GraphReply σ) : Census :=
  graph.mark replied.1 (replied.2.census.getD [])

/-- The partition whose census is kept: the last that fails, or else the first. -/
def reporter (replied : List (String × GraphReply σ)) : Option (String × GraphReply σ) :=
  match replied.reverse.find? fun entry => (graph.failure entry).isSome with
  | some entry => some entry
  | none => replied.head?

theorem marked_ne_nil (entry : String × GraphReply σ) : graph.marked entry ≠ [] := by
  unfold marked mark
  dsimp only
  split
  next whole =>
    intro empty
    simp [isNamed, mappings, empty] at whole
  · split
    · simp
    next some => simpa using some

theorem mark_failed {language : String} {census : Census}
    (failed : ¬(graph.isNamed census = true ∧ graph.missing language census = [])) :
    (graph.mark language census).any isBad = true := by
  have reason : (if graph.isNamed census = true then "partition_file_census_incomplete"
      else "partition_file_census_unavailable") ≠ "" := by
    split <;> decide
  unfold mark
  dsimp only
  rw [if_neg failed]
  split
  · simp [isBad, reason]
  next some =>
    obtain ⟨row, rest, rows⟩ := exists_cons_of_ne_nil some
    simp [rows, isBad, reason]

private theorem marked_bad (entry : String × GraphReply σ) :
    (graph.marked entry).any isBad = (graph.failure entry).isSome := by
  obtain ⟨language, reply⟩ := entry
  unfold marked failure
  dsimp only
  by_cases named : graph.isNamed (reply.census.getD []) = true
  · by_cases whole : graph.missing language (reply.census.getD []) = []
    · unfold mark
      rw [if_pos ⟨named, whole⟩]
      cases (reply.census.getD []).any isBad <;> simp [named, whole]
    · rw [mark_failed graph fun both => whole both.2]
      simp [named, whole]
  · rw [mark_failed graph fun both => named both.1]
    simp [named]

theorem reporter_append (earlier : List (String × GraphReply σ)) (entry : String × GraphReply σ) :
    graph.reporter (earlier ++ [entry]) =
      if (graph.failure entry).isSome then some entry
      else (graph.reporter earlier).or (some entry) := by
  unfold reporter
  rw [reverse_append, reverse_singleton, singleton_append, List.find?_cons]
  cases (graph.failure entry).isSome with
  | true => rfl
  | false =>
    rw [List.head?_append]
    cases earlier.reverse.find? fun entry => (graph.failure entry).isSome <;> simp

theorem foldl_census (requests : List (String × String)) (entries : List (String × GraphReply σ)) :
    (entries.foldl (graph.answer requests) {}).census =
      (graph.reporter entries).map graph.marked := by
  induction entries using List.reverseRec with
  | nil => rfl
  | append_singleton earlier entry ih =>
    rw [foldl_append, foldl_cons, foldl_nil, reporter_append]
    change mergeCensus _ (graph.marked entry) = _
    rw [ih, mergeCensus, marked_bad]
    cases (graph.failure entry).isSome with
    | true => simp
    | false =>
      cases graph.reporter earlier with
      | none => simp
      | some kept => simp [graph.marked_ne_nil kept]

private theorem dispatch_census (batch : Dispatch σ) :
    (graph.dispatch batch).census = (graph.reporter (graph.replied batch)).map graph.marked :=
  graph.foldl_census batch.requests _

end PartitionGraph

section Passes

variable (graph : PartitionGraph)

def readCensus (batches : List (Dispatch σ)) : Option Census :=
  batches.findSome? fun batch => (graph.reporter (graph.replied batch)).map graph.marked

def readDegradations (batches : List (Dispatch σ)) : List Degradation :=
  ((readCensus graph batches).map censusDegradations).getD []

theorem portionsCensus_dispatch (batches : List (Dispatch σ)) :
    portionsCensus (batches.map graph.dispatch) = readCensus graph batches := by
  unfold portionsCensus readCensus
  rw [List.findSome?_map]
  exact congrArg (List.findSome? · batches) (funext graph.dispatch_census)

private theorem readCensus_ne_nil {batches : List (Dispatch σ)} {census : Census}
    (read : readCensus graph batches = some census) : census ≠ [] := by
  obtain ⟨batch, -, found⟩ := exists_of_findSome?_eq_some read
  obtain ⟨entry, -, rfl⟩ := Option.map_eq_some_iff.1 found
  exact graph.marked_ne_nil entry

private theorem evidenceDegradations_eq (batches : List (Dispatch σ)) :
    evidenceDegradations (batches.map graph.dispatch) = readDegradations graph batches := by
  rw [evidenceDegradations, portionsCensus_dispatch, readDegradations]

private theorem queryDegradations_reported (kinds : List (List (Answers σ))) :
    queryDegradations kinds true = [] := by
  induction kinds with
  | nil => rfl
  | cons portions kinds ih =>
    rw [queryDegradations]
    cases portionsCensus portions <;> simp [ih]

private theorem queryDegradations_eq (kinds : List (List (Dispatch σ))) :
    queryDegradations (kinds.map (·.map graph.dispatch)) false =
      readDegradations graph kinds.flatten := by
  induction kinds with
  | nil => rfl
  | cons batches kinds ih =>
    rw [map_cons, queryDegradations, portionsCensus_dispatch]
    have split : readCensus graph (batches :: kinds).flatten =
        (readCensus graph batches).or (readCensus graph kinds.flatten) := by
      simp only [readCensus, flatten_cons, List.findSome?_append]
    rw [readDegradations, split]
    cases read : readCensus graph batches with
    | none => exact ih
    | some census =>
      simp [readCensus_ne_nil graph read, queryDegradations_reported]

end Passes

namespace Degradation

def named (item : Degradation) : List String :=
  if item.ownedPaths ≠ [] then item.ownedPaths
  else if item.censusLanguage ≠ "" then item.missingFileNames else []

/-- A gap of the graph reaches what it names: its paths and what is under them, or its
partition, or everything. -/
def Reaches (item : Degradation) (question : QuestionIdentity) : Prop :=
  item.reason ∈ graphIntegrityGaps ∧
    if item.named ≠ [] then
      ∃ name ∈ item.named, plain question.path = plain name ∨
        (Text.endsWith (plain name) "/" ∧ Text.startsWith (plain question.path) (plain name))
    else item.censusLanguage = "" ∨ question.language = item.censusLanguage ∨
      question.language = ""

end Degradation

theorem Ownership.reaches_iff (owned : Ownership) (question : QuestionIdentity) :
    owned.reaches question = true ↔ owned.unscoped ≠ [] ∨ question.language ∈ owned.partitions ∨
      owned.owns question.path = true ∨ (owned.partitions ≠ [] ∧ question.language = "") := by
  simp [Ownership.reaches, or_assoc]

theorem Ownership.owns_iff (owned : Ownership) (path : String) : owned.owns path = true ↔
    ∃ gap ∈ owned.paths, plain path = gap ∨
      (Text.endsWith gap "/" = true ∧ Text.startsWith (plain path) gap = true) := by
  simp only [Ownership.owns, Bool.or_eq_true, decide_eq_true_eq, any_eq_true,
    Bool.and_eq_true]
  constructor
  · rintro (member | ⟨gap, member, under⟩)
    · exact ⟨_, member, .inl rfl⟩
    · exact ⟨gap, member, .inr under⟩
  · rintro ⟨gap, member, rfl | under⟩
    · exact .inl member
    · exact .inr ⟨gap, member, under⟩

theorem Ownership.add_reaches (owned : Ownership) (item : Degradation)
    (question : QuestionIdentity) : (owned.add item).reaches question = true ↔
      owned.reaches question = true ∨ item.Reaches question := by
  have named_eq : (if item.ownedPaths ≠ [] then item.ownedPaths
      else if item.censusLanguage ≠ "" then item.missingFileNames else []) = item.named := rfl
  unfold Ownership.add Degradation.Reaches
  rw [named_eq]
  by_cases gap : item.reason ∈ graphIntegrityGaps
  · rw [if_neg (not_not.2 gap)]
    dsimp only
    -- A gap that names files owns them.
    by_cases named : item.named ≠ []
    · rw [if_pos named, if_pos named]
      simp only [Ownership.reaches_iff, Ownership.owns_iff, mem_append, mem_map]
      constructor
      · rintro (some | partition | ⟨path, earlier | ⟨name, member, rfl⟩, at_path⟩ | blank)
        · exact .inl (.inl some)
        · exact .inl (.inr (.inl partition))
        · exact .inl (.inr (.inr (.inl ⟨path, earlier, at_path⟩)))
        · exact .inr ⟨gap, name, member, at_path⟩
        · exact .inl (.inr (.inr (.inr blank)))
      · rintro ((some | partition | ⟨path, earlier, at_path⟩ | blank) | ⟨-, name, member, at_path⟩)
        · exact .inl some
        · exact .inr (.inl partition)
        · exact .inr (.inr (.inl ⟨path, .inl earlier, at_path⟩))
        · exact .inr (.inr (.inr blank))
        · exact .inr (.inr (.inl ⟨plain name, .inr ⟨name, member, rfl⟩, at_path⟩))
    · rw [if_neg named, if_neg named]
      -- One that names none owns its language, or everything.
      by_cases whole : item.censusLanguage = ""
      · rw [if_neg (not_not.2 whole)]
        simp [Ownership.reaches_iff, gap, whole]
      · rw [if_pos whole]
        simp only [Ownership.reaches_iff, Ownership.owns, mem_append, mem_singleton,
          gap, whole, false_or, true_and, ne_eq, append_eq_nil_iff, cons_ne_self,
          and_false, not_false_eq_true]
        tauto
  · rw [if_pos gap]
    simp [gap]

theorem ownership_reaches (degradations : List Degradation) (question : QuestionIdentity) :
    (ownership degradations).reaches question = true ↔
      ∃ item ∈ degradations, item.Reaches question := by
  unfold ownership
  suffices step : ∀ owned : Ownership,
      (degradations.foldl Ownership.add owned).reaches question = true ↔
        owned.reaches question = true ∨ ∃ item ∈ degradations, item.Reaches question by
    simpa [Ownership.reaches_iff, Ownership.owns_iff] using step {}
  induction degradations with
  | nil => simp
  | cons item rest ih =>
    intro owned
    rw [foldl_cons, ih, Ownership.add_reaches]
    simp [or_assoc]

namespace PartitionedScan

variable (scan : PartitionedScan σ)

def failures : List CensusFailure :=
  (scan.evidence ++ scan.kinds.flatten).flatMap fun batch =>
    (scan.graph.replied batch).filterMap scan.graph.failure

def recorded : List Degradation :=
  scan.others ++ readDegradations scan.graph scan.evidence ++
    readDegradations scan.graph scan.kinds.flatten

private theorem degradations_eq : scan.degradations = scan.recorded := by
  rw [degradations, evidenceDegradations_eq, queryDegradations_eq, recorded]

theorem status_completed_iff (question : QuestionIdentity) :
    scan.status question = .completed ↔ scan.arbitrated question = .completed ∧
      question ∉ scan.contextGaps ∧ ¬∃ gap ∈ scan.recorded, gap.Reaches question := by
  rw [← ownership_reaches, ← degradations_eq]
  unfold status
  by_cases arbitrated : scan.arbitrated question = .completed
  · rw [if_neg (not_not.2 arbitrated)]
    by_cases context : question ∈ scan.contextGaps
    · simp [context]
    · cases reached : (ownership scan.degradations).reaches question <;>
        simp [arbitrated, context]
  · rw [if_pos arbitrated]
    simp [arbitrated]

/-- No question about a failing partition is completed, if and only if a recorded gap reaches
each one that was brought so far. -/
theorem failures_demote_iff :
    (∀ question ∈ scan.selected, ∀ failure ∈ scan.failures,
      scan.graph.Concerns failure question → scan.status question ≠ .completed) ↔
    ∀ question ∈ scan.selected, scan.arbitrated question = .completed →
      question ∉ scan.contextGaps → ∀ failure ∈ scan.failures,
        scan.graph.Concerns failure question → ∃ gap ∈ scan.recorded, gap.Reaches question := by
  refine forall₂_congr fun question _ => ?_
  simp only [ne_eq, status_completed_iff]
  constructor
  · intro demoted arbitrated context failure fails concerns
    by_contra unreached
    exact demoted failure fails concerns ⟨arbitrated, context, unreached⟩
  · rintro reached failure fails concerns ⟨arbitrated, context, unreached⟩
    exact unreached (reached arbitrated context failure fails concerns)

end PartitionedScan

def mixedGraph : PartitionGraph where
  paths := fun language =>
    if language = "javascript" then ["a.js", "b.js"]
    else if language = "php" then ["a.php", "b.php"] else []
  pathLanguages := fun path =>
    if path ∈ ["a.js", "b.js"] then "javascript"
    else if path ∈ ["a.php", "b.php"] then "php" else ""
  normalize := id

def handlerOf (language path : String) : QuestionIdentity :=
  ⟨"repository", language, path, some "handler", "injection"⟩

def mixedScan : PartitionedScan Unit where
  graph := mixedGraph
  evidence := []
  kinds := [[
    { requests := [("first", "b.js"), ("second", "b.php")]
      replies := fun language =>
        if language = "javascript" then
          some ⟨[("first", ())], some [some { methods := some 3, fileNames := some ["a.js"] }]⟩
        else if language = "php" then
          some ⟨[("second", ())], some [some { methods := some 3, fileNames := some ["a.php"] }]⟩
        else none }]]
  others := []
  selected := [handlerOf "javascript" "b.js", handlerOf "php" "b.php"]
  arbitrated := fun _ => .completed
  contextGaps := []

/-- The failure of the first partition is lost beside that of the second. -/
theorem mixedScan_completes : ¬∀ question ∈ mixedScan.selected, ∀ failure ∈ mixedScan.failures,
    mixedScan.graph.Concerns failure question → mixedScan.status question ≠ .completed := by
  have failures : mixedScan.failures = [⟨"javascript", ["b.js"]⟩, ⟨"php", ["b.php"]⟩] := by
    decide +kernel
  have completed : mixedScan.status (handlerOf "javascript" "b.js") = .completed := by
    decide +kernel
  intro demoted
  refine demoted (handlerOf "javascript" "b.js") ?_ ⟨"javascript", ["b.js"]⟩ ?_ ?_ completed
  · exact mem_cons_self
  · rw [failures]
    exact mem_cons_self
  · unfold PartitionGraph.Concerns
    decide +kernel

end OpenUltraSast.Model
