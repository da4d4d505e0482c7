import OpenUltraSast.Model.Contracts

/-!
# Language partitions

A graph for each language of a repository. A batch of requests is routed to the partitions
of their files; beside its rows each partition reports a census of the files its graph
holds, and one census is kept of a batch.
-/

namespace OpenUltraSast.Model

variable {σ : Type}

structure CensusRow where
  methods : Option Nat := none
  shards : Option Nat := none
  fileNames : Option (List String) := none
  censusFailure : Option String := none
  censusLanguage : Option String := none
  missingFileNames : Option (List String) := none

abbrev Census := List (Option CensusRow)

structure GraphReply (σ : Type) where
  rows : List (String × σ)
  census : Option Census

/-- The partitions of a repository: the files of each, the partition a path is routed to, and
how the names of its scratch roots are taken out of a text. -/
structure PartitionGraph where
  paths : (language : String) → List String
  pathLanguages : (path : String) → String
  normalize : String → String

/-- A batch of requests, each with its file, and what the partitions' graphs reply to it. A
partition that has no graph, fails or is not reached in time replies nothing. -/
structure Dispatch (σ : Type) where
  requests : List (String × String)
  replies : (language : String) → Option (GraphReply σ)

/-- What a batch returns. -/
structure Answers (σ : Type) where
  rows : List (String × σ) := []
  census : Option Census := none

namespace PartitionGraph

variable (graph : PartitionGraph)

def plain (path : String) : String := Text.removePrefix path "./"

def normalizeRow (row : CensusRow) : CensusRow :=
  { row with fileNames := row.fileNames.map (·.map graph.normalize) }

def mappings (census : Census) : List CensusRow := census.filterMap (·.map graph.normalizeRow)

def isNamed (census : Census) : Bool :=
  graph.mappings census ≠ [] && (graph.mappings census).all (·.fileNames.isSome)

def observed (census : Census) : List String :=
  ((graph.mappings census).flatMap fun row => row.fileNames.getD []).map plain

def missing (language : String) (census : Census) : List String :=
  (graph.paths language).filter (· ∉ graph.observed census)

def mark (language : String) (census : Census) : Census :=
  let named := graph.isNamed census
  let failed := fun row : CensusRow => { row with
    censusFailure := some (if named then "partition_file_census_incomplete"
      else "partition_file_census_unavailable")
    censusLanguage := some language
    missingFileNames := some (if named then graph.missing language census else []) }
  if named ∧ graph.missing language census = [] then census
  else if graph.mappings census = [] then [some (failed {})]
  else (graph.mappings census).map (some ∘ failed)

def isBad : Option CensusRow → Bool
  | some row =>
    row.censusFailure.any (· ≠ "") || row.methods.getD 0 = 0 || row.shards.getD 1 > 1
  | none => false

def mergeCensus (previous : Option Census) (rows : Census) : Option Census :=
  if previous.getD [] = [] || rows.any isBad then some rows else previous

def languages (requests : List (String × String)) : List String :=
  (requests.map fun request => graph.pathLanguages request.2).eraseDups

def answer (requests : List (String × String)) (answers : Answers σ)
    (replied : String × GraphReply σ) : Answers σ :=
  let (language, reply) := replied
  let selected := requests.filter fun request => graph.pathLanguages request.2 = language
  { rows := answers.rows ++ reply.rows.filter fun row => row.1 ∈ selected.map (·.1)
    census := mergeCensus answers.census (graph.mark language (reply.census.getD [])) }

def replied (dispatch : Dispatch σ) : List (String × GraphReply σ) :=
  (graph.languages dispatch.requests).filterMap fun language =>
    (dispatch.replies language).map fun reply => (language, reply)

def dispatch (batch : Dispatch σ) : Answers σ :=
  (graph.replied batch).foldl (graph.answer batch.requests) {}

end PartitionGraph

end OpenUltraSast.Model

/-!
## Census gaps

A scan reads the census of its evidence pass and of its queries, and a completed question that a gap
of the graph reaches is demoted.
-/

namespace OpenUltraSast.Model

open PartitionGraph

variable {σ : Type}

def censusEntry (census : Census) : CensusRow := (census.head?.join).getD {}

def rowDegradations (entry : CensusRow) : List Degradation :=
  let failed := entry.censusFailure.any (· ≠ "")
  (if entry.methods.getD 0 = 0 ∨ failed then
    [{ reason := if entry.methods = some 0 then "cpg_empty"
        else entry.censusFailure.getD "cpg_empty"
       censusLanguage := entry.censusLanguage.getD ""
       missingFileNames := entry.missingFileNames.getD [] }]
  else []) ++ (if entry.shards.getD 1 > 1 then [{ reason := "cpg_sharded" }] else [])

def censusDegradations (census : Census) : List Degradation := rowDegradations (censusEntry census)

def portionsCensus (portions : List (Answers σ)) : Option Census := portions.findSome? (·.census)

/-- What `_evidence_pass` reports of its census. -/
def evidenceDegradations (portions : List (Answers σ)) : List Degradation :=
  ((portionsCensus portions).map censusDegradations).getD []

/-- What the loop over the query kinds reports of their census, which it does once. -/
def queryDegradations : List (List (Answers σ)) → Bool → List Degradation
  | [], _ => []
  | portions :: kinds, reported =>
    match portionsCensus portions with
    | none => queryDegradations kinds reported
    | some census =>
      if census ≠ [] ∧ !reported then censusDegradations census ++ queryDegradations kinds true
      else queryDegradations kinds reported

def graphIntegrityGaps : List String :=
  ["files_unparsed", "cpg_empty", "partition_file_census_incomplete",
    "partition_file_census_unavailable", "cpg_sharded", "symlink_context_unresolved",
    "frontend_unsupported", "source_unreadable", "ambiguous_frontend_path",
    "typescript_property_support_unvalidated"]

/-- What the gaps of a graph own: paths, partitions, or everything. -/
structure Ownership where
  paths : List String := []
  partitions : List String := []
  unscoped : List String := []

namespace Ownership

/-- One more degradation: a gap is owned by the narrowest scope that it names. -/
def add (owned : Ownership) (item : Degradation) : Ownership :=
  if item.reason ∉ graphIntegrityGaps then owned
  else
    let named := if item.ownedPaths ≠ [] then item.ownedPaths
      else if item.censusLanguage ≠ "" then item.missingFileNames else []
    if named ≠ [] then { owned with paths := owned.paths ++ named.map plain }
    else if item.censusLanguage ≠ "" then
      { owned with partitions := owned.partitions ++ [item.censusLanguage] }
    else { owned with unscoped := owned.unscoped ++ [item.reason] }

/-- `owns`: the path itself, or a directory it is under. -/
def owns (owned : Ownership) (path : String) : Bool :=
  plain path ∈ owned.paths ||
    owned.paths.any fun gap => Text.endsWith gap "/" && Text.startsWith (plain path) gap

/-- A question that a gap reaches; one whose language is not known is reached by each
partition's. -/
def reaches (owned : Ownership) (question : QuestionIdentity) : Bool :=
  owned.unscoped ≠ [] || question.language ∈ owned.partitions || owned.owns question.path ||
    (owned.partitions ≠ [] && question.language = "")

end Ownership

def ownership (degradations : List Degradation) : Ownership := degradations.foldl Ownership.add {}

/-- A scan of a partitioned graph: what its passes asked in portions, the degradations that
are no census's, and how far each selected question was brought. -/
structure PartitionedScan (σ : Type) where
  graph : PartitionGraph
  evidence : List (Dispatch σ)
  kinds : List (List (Dispatch σ))
  others : List Degradation
  selected : List QuestionIdentity
  arbitrated : QuestionIdentity → Status
  contextGaps : List QuestionIdentity

namespace PartitionedScan

variable (scan : PartitionedScan σ)

def degradations : List Degradation :=
  scan.others ++ evidenceDegradations (scan.evidence.map scan.graph.dispatch) ++
    queryDegradations (scan.kinds.map (·.map scan.graph.dispatch)) false

def status (question : QuestionIdentity) : Status :=
  if scan.arbitrated question ≠ .completed then scan.arbitrated question
  else if question ∈ scan.contextGaps then .unresolved
  else if (ownership scan.degradations).reaches question then .unresolved
  else .completed

end PartitionedScan

end OpenUltraSast.Model
