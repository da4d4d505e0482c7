import OpenUltraSast.Library.Regex

/-!
# Building the graphs of a tree

The frontend reads a tree under some exclusions, and may drop files.
-/

namespace OpenUltraSast.Cpg.Building

structure SourceFile where
  path : String
  size : Nat
  text : String

/-- A tree of PHP, the one language that is built so. The root is absolute (and not `/`), since the
frontend runs in a directory of its own; the scratch directory of the island is a fresh one. -/
structure Tree where
  root : String
  island : String
  files : List SourceFile
  absolute : Text.startsWith root "/" = true ∧ Text.startsWith island "/" = true
  relative : ∀ file ∈ files, Text.startsWith file.path "/" = false
  fresh : ∀ file ∈ files, ∀ other ∈ files,
    root ++ "/" ++ file.path ≠ island ++ "/" ++ other.path

def nameOf (path : String) : String := Text.lastPart '/' path

/-- `path.suffix.lower()` is among the extensions of the language. -/
def isSource (path : String) : Bool :=
  Text.endsWith (nameOf path).toLower ".php" && 4 < (nameOf path).length

def Tree.paths (t : Tree) : List String := t.files.map (·.path)

def Tree.sources (t : Tree) : List String := t.paths.filter isSource

def closure : Regex := .seqs [.boundary, .lit "function", .spaces, .lit "("]

def globalInBody : Regex := .seqs [.boundary, .lit "global", .plus (.char Text.isSpace), .lit "$"]

/-- A body from its opening brace to before the one that closes it. -/
def bodyFrom : Nat → List Char → List Char
  | _, [] => []
  | depth, c :: rest =>
    if c = '{' then c :: bodyFrom (depth + 1) rest
    else if c = '}' then
      if depth = 1 then [] else c :: bodyFrom (depth - 1) rest
    else c :: bodyFrom depth rest

/-- A `global` inside a closure. -/
def hasDefect (text : String) : Bool :=
  (closure.findAll text).any fun found =>
    match found.ahead.dropWhile (· ≠ '{') with
    | [] => false
    | body => (globalInBody.search (String.ofList (bodyFrom 0 body))).isSome

def maxSourceBytes : Nat := 1000000

/-- `_files_with_frontend_defect`; `fixed` if the installed version is known to have the fix. -/
def Tree.filesWithFrontendDefect (t : Tree) (fixed : Bool) : List String :=
  if fixed then []
  else (t.files.filter fun file => Text.endsWith (nameOf file.path) ".php" && hasDefect file.text).map
    fun file => t.root ++ "/" ++ file.path

def Tree.filesTooLargeToFlow (t : Tree) : List String :=
  (t.files.filter fun file => isSource file.path && maxSourceBytes < file.size).map (·.path)

/-- `defective`: the caller's exclusions, the miscompiled files and the oversized ones. -/
def Tree.defective (t : Tree) (fixed : Bool) (exclude : List String) : List String :=
  exclude ++ t.filesWithFrontendDefect fixed ++ t.filesTooLargeToFlow

/-- How a frontend names its inputs: by their path under the tree that it reads, or in full. -/
inductive Naming where
  | relative
  | absolute
deriving DecidableEq

def Naming.report : Naming → String → String → String
  | relative, _, path => path
  | absolute, root, path => root ++ "/" ++ path

def IsPath (root name path : String) : Prop := name = path ∨ name = root ++ "/" ++ path

/-- Which files an exclusion covers, and how files are named; the name of a file excludes that file
and no other. -/
structure Frontend (t : Tree) where
  covers : String → String → Bool
  naming : Naming
  own : ∀ path ∈ t.sources, ∀ other ∈ t.sources,
    covers (naming.report t.root path) other = true ↔ other = path

/-- What a successful build drops, and what its graph holds. -/
structure Built where
  dropped : List String
  graph : List String
deriving DecidableEq

def invoke (inputs : List String) (drops : String → Bool) : Built :=
  ⟨inputs.filter drops, inputs.filter fun path => !drops path⟩

def frontendBuildAttempts : Nat := 4

/-- The attempts of a build, each of which fails or drops some inputs. A failing one leaves the graph
of the last that did not. -/
def retries (inputs : List String) : Option Built → List (Option (String → Bool)) → Option Built
  | best, [] => best
  | best, none :: _ => best
  | _, some drops :: rest =>
    let built := invoke inputs drops
    if built.dropped = [] then some built else retries inputs (some built) rest

/-- `_build_with_retries_raw`. -/
def buildWithRetries (inputs : List String) (attempts : Nat → Option (String → Bool)) :
    Option Built :=
  retries inputs none ((List.range frontendBuildAttempts).map attempts)

/-- What the invocations of the three builds do, and whether a graph answers the census. -/
structure Behaviour where
  first : Nat → Option (String → Bool)
  second : Nat → Option (String → Bool)
  island : Nat → Option (String → Bool)
  answers : Bool

/-- `_graph_census`: the files in the graph and the files expected. -/
def graphCensus (t : Tree) (graph : List String) (answers : Bool) : Option (Nat × Nat) :=
  if t.sources.length = 0 then some (0, 0)
  else if answers then some (graph.length, t.sources.length)
  else none

def graphIsComplete (t : Tree) (graph : List String) (answers : Bool) : Bool :=
  match graphCensus t graph answers with
  | none => false
  | some (held, expected) => 0 < expected && expected ≤ held

/-- The path under the root that a reported name leads to. -/
def Tree.locate (t : Tree) (name : String) : Option String :=
  if Text.startsWith name "/" then
    if Text.startsWith name (t.root ++ "/") then some (Text.removePrefix name (t.root ++ "/"))
    else none
  else some name

/-- `_island_root`: the files that are staged, at their paths. -/
def Tree.islandRoot (t : Tree) (names : List String) : List String :=
  (names.filterMap t.locate).filter (· ∈ t.paths)

structure Sharded where
  shards : List (List String)
  unparsed : List String
  rootExclusions : List (List String)
deriving DecidableEq

section Build
variable (t : Tree) (f : Frontend t) (b : Behaviour)

def reads (names : List String) : List String :=
  t.sources.filter fun path => !names.any (f.covers · path)

def reported (built : Built) : List String := built.dropped.map (f.naming.report t.root)

def buildSharded (fixed : Bool) (exclude : List String) : Sharded :=
  let defective := t.defective fixed exclude
  match buildWithRetries (reads t f defective) b.first with
  | none => ⟨[], [], [defective]⟩
  | some built =>
    if built.dropped = [] then
      match graphCensus t built.graph b.answers with
      -- A graph that cannot answer the census is no graph.
      | none => ⟨[], [], [defective]⟩
      | some _ => ⟨[built.graph], defective, [defective]⟩
    else if graphIsComplete t built.graph b.answers then ⟨[built.graph], [], [defective]⟩
    else
      let dropped := reported t f built
      let main := ((buildWithRetries (reads t f dropped) b.second).map (·.graph)).toList
      let island := t.islandRoot dropped
      if island = [] then ⟨main, dropped, [defective, dropped]⟩
      else
        match buildWithRetries island b.island with
        | none => ⟨main, dropped, [defective, dropped]⟩
        | some still =>
          ⟨main ++ [still.graph], still.dropped.map (f.naming.report t.island),
            [defective, dropped]⟩

end Build

end OpenUltraSast.Cpg.Building

/-!
## The account of every file

A sharded build accounts for every source file exactly if its first build drops nothing and names
what it excluded, or nothing is excluded and neither of the later builds loses a file.
-/

namespace OpenUltraSast.Cpg.Building

open List

variable {inputs : List String} {path : String}

private theorem retries_eq {attempts : List (Option (String → Bool))} {best : Option Built}
    (sound : ∀ built ∈ best, ∃ drops, built = invoke inputs drops) :
    ∀ built ∈ retries inputs best attempts, ∃ drops, built = invoke inputs drops := by
  induction attempts generalizing best with
  | nil => exact sound
  | cons attempt rest ih =>
    cases attempt with
    | none => exact sound
    | some drops =>
      have own : ∀ built ∈ some (invoke inputs drops), ∃ drops, built = invoke inputs drops := by
        intro built member
        exact ⟨drops, (Option.mem_some_iff.mp member).symm⟩
      by_cases clean : (invoke inputs drops).dropped = []
      · rw [show retries inputs best (some drops :: rest) = some (invoke inputs drops) from if_pos clean]
        exact own
      · rw [show retries inputs best (some drops :: rest)
          = retries inputs (some (invoke inputs drops)) rest from if_neg clean]
        exact ih own

variable {attempts : Nat → Option (String → Bool)} {built : Built} {names : List String}

section
variable (done : buildWithRetries inputs attempts = some built)
include done

theorem build_eq :
    ∃ drops, built = invoke inputs drops :=
  retries_eq (fun _ nothing => by cases nothing) built done

theorem mem_graph :
    path ∈ built.graph ↔ path ∈ inputs ∧ path ∉ built.dropped := by
  obtain ⟨drops, rfl⟩ := build_eq done
  simp only [invoke, mem_filter]
  constructor
  · rintro ⟨member, kept⟩
    constructor
    · exact member
    · intro both
      rw [both.2] at kept
      cases kept
  · rintro ⟨member, kept⟩
    exact ⟨member, by simpa [member] using kept⟩

theorem dropped_subset :
    built.dropped ⊆ inputs := by
  obtain ⟨drops, rfl⟩ := build_eq done
  exact filter_subset_self _

end

variable {t : Tree} {f : Frontend t} {b : Behaviour} {fixed : Bool} {exclude : List String}

theorem reads_subset (names : List String) : reads t f names ⊆ t.sources :=
  filter_subset_self _

theorem not_complete (done : buildWithRetries (reads t f names) attempts = some built)
    (some_ : built.dropped ≠ []) : graphIsComplete t built.graph b.answers = false := by
  obtain ⟨drops, rfl⟩ := build_eq done
  have parts := length_eq_length_filter_add (l := reads t f names) drops
  have few : (reads t f names).length ≤ t.sources.length := length_filter_le _ _
  have dropped := length_pos_of_ne_nil some_
  simp only [invoke] at dropped ⊢
  unfold graphIsComplete graphCensus
  split_ifs with empty answered
  · rfl
  · simp only [Bool.and_eq_false_iff, decide_eq_false_iff_not]
    right
    omega
  · rfl

theorem startsWith_append {text start : String} (absolute : Text.startsWith text start = true)
    (rest : String) : Text.startsWith (text ++ rest) start = true := by
  rw [Text.startsWith, isPrefixOf_iff_prefix] at absolute ⊢
  rw [String.toList_append]
  exact absolute.trans (prefix_append _ _)

theorem startsWith_self (start rest : String) : Text.startsWith (start ++ rest) start = true := by
  rw [Text.startsWith, isPrefixOf_iff_prefix, String.toList_append]
  exact prefix_append _ _

theorem removePrefix_append (start rest : String) : Text.removePrefix (start ++ rest) start = rest := by
  rw [Text.removePrefix, if_pos (startsWith_self start rest), String.toList_append, drop_left,
    String.ofList_toList]

theorem mem_sources_relative (member : path ∈ t.sources) :
    Text.startsWith path "/" = false ∧ path ∈ t.paths := by
  have among := mem_of_mem_filter member
  obtain ⟨file, listed, rfl⟩ := mem_map.mp among
  exact ⟨t.relative file listed, among⟩

theorem full_ne {root other : String} (absolute : Text.startsWith root "/" = true)
    (member : path ∈ t.sources) : root ++ "/" ++ other ≠ path := by
  intro same
  have full := startsWith_append (startsWith_append absolute "/") other
  rw [same, (mem_sources_relative member).1] at full
  cases full

theorem isPath_report {other : String} (member : path ∈ t.sources) (among : other ∈ t.sources) :
    IsPath t.root (f.naming.report t.root path) other ↔ other = path := by
  cases naming : f.naming with
  | relative =>
    simp only [IsPath, Naming.report]
    constructor
    · rintro (same | full)
      · exact same.symm
      · exact absurd full.symm (full_ne t.absolute.1 member)
    · exact fun same => .inl same.symm
  | absolute =>
    simp only [IsPath, Naming.report]
    constructor
    · rintro (full | same)
      · exact absurd full (full_ne t.absolute.1 among)
      · exact ((String.append_right_inj _).mp same).symm
    · exact fun same => .inr (congrArg _ same.symm)

theorem isPath_island {other : String} (member : path ∈ t.sources) (among : other ∈ t.sources) :
    IsPath t.root (f.naming.report t.island path) other ↔
      other = path ∧ f.naming = .relative := by
  cases naming : f.naming with
  | relative =>
    rw [and_iff_left rfl, ← naming]
    have same := isPath_report (f := f) member among
    rwa [naming] at same ⊢
  | absolute =>
    simp only [IsPath, Naming.report, reduceCtorEq, and_false, iff_false, not_or]
    constructor
    · exact full_ne t.absolute.2 among
    · obtain ⟨file, listed, rfl⟩ := mem_map.mp (mem_sources_relative member).2
      obtain ⟨own, ownListed, rfl⟩ := mem_map.mp (mem_sources_relative among).2
      exact fun same => t.fresh own ownListed file listed same.symm

private theorem locate_report (member : path ∈ t.sources) :
    t.locate (f.naming.report t.root path) = some path := by
  cases f.naming with
  | relative => simp [Tree.locate, Naming.report, (mem_sources_relative member).1]
  | absolute =>
    have full := startsWith_append (startsWith_append t.absolute.1 "/") path
    have under := startsWith_self (t.root ++ "/") path
    have rest := removePrefix_append (t.root ++ "/") path
    simp only [Naming.report, Tree.locate, full, under, rest, if_true]

theorem islandRoot_reported (done : buildWithRetries (reads t f names) attempts = some built) :
    t.islandRoot (reported t f built) = built.dropped := by
  have among : ∀ path ∈ built.dropped, path ∈ t.sources :=
    fun path member => reads_subset names (dropped_subset done member)
  have located : (reported t f built).filterMap t.locate = built.dropped := by
    rw [reported, filterMap_map]
    have each : ∀ path ∈ built.dropped,
        (t.locate ∘ f.naming.report t.root) path = some path :=
      fun path member => locate_report (among path member)
    exact (filterMap_congr each).trans (filterMap_some)
  rw [Tree.islandRoot, located, filter_eq_self]
  exact fun path member => decide_eq_true (mem_sources_relative (among path member)).2

theorem mem_reads_reported (done : buildWithRetries (reads t f names) attempts = some built)
    (member : path ∈ t.sources) : path ∈ reads t f (reported t f built) ↔ path ∉ built.dropped := by
  have covered : (reported t f built).any (f.covers · path) = true ↔ path ∈ built.dropped := by
    simp only [reported, any_map, any_eq_true, Function.comp_apply]
    constructor
    · rintro ⟨own, dropped, covers⟩
      have among := reads_subset names (dropped_subset done dropped)
      rw [(f.own own among path member).mp covers]
      exact dropped
    · exact fun dropped => ⟨path, dropped, (f.own path member path member).mpr rfl⟩
  rw [reads, mem_filter, and_iff_right member, Bool.not_eq_true', ← covered,
    Bool.not_eq_true]

/-- Every source file is in a shard or named as unparsed, and no build of the root reads the tree
without the exclusions. -/
structure Accounted (t : Tree) (fixed : Bool) (exclude : List String) (s : Sharded) : Prop where
  files : ∀ path ∈ t.sources,
    (∃ graph ∈ s.shards, path ∈ graph) ∨ ∃ name ∈ s.unparsed, IsPath t.root name path
  excluded : ∀ names ∈ s.rootExclusions, ∀ name ∈ t.defective fixed exclude, name ∈ names

/-- Each source file that an exclusion covers is itself named by one. -/
def NamesExcluded (t : Tree) (f : Frontend t) (names : List String) : Prop :=
  ∀ path ∈ t.sources, names.any (f.covers · path) = true → ∃ name ∈ names, IsPath t.root name path

structure Rebuilt (t : Tree) (f : Frontend t) (b : Behaviour) (dropped : List String) : Prop where
  second : ∀ built,
    buildWithRetries (reads t f (dropped.map (f.naming.report t.root))) b.second = some built →
      built.dropped = []
  failed : buildWithRetries (reads t f (dropped.map (f.naming.report t.root))) b.second = none →
    t.sources ⊆ dropped
  island : ∀ still, buildWithRetries dropped b.island = some still →
    still.dropped = [] ∨ f.naming = .relative

/-- When a sharded build accounts for every file. -/
def Keeps (t : Tree) (f : Frontend t) (b : Behaviour) (fixed : Bool) (exclude : List String) : Prop :=
  ∀ built, buildWithRetries (reads t f (t.defective fixed exclude)) b.first = some built →
    if built.dropped = [] then NamesExcluded t f (t.defective fixed exclude)
    else t.defective fixed exclude = [] ∧ Rebuilt t f b built.dropped

theorem defective_reported (done : buildWithRetries (reads t f names) b.first = some built) :
    (∀ name ∈ names, name ∈ reported t f built) ↔ names = [] := by
  constructor
  · intro all
    apply eq_nil_iff_forall_not_mem.mpr
    intro name member
    obtain ⟨path, dropped, rfl⟩ := mem_map.mp (all name member)
    have read := mem_filter.mp (dropped_subset done dropped)
    have covered : names.any (f.covers · path) = true :=
      any_eq_true.mpr ⟨_, member, (f.own path read.1 path read.1).mpr rfl⟩
    simp [covered] at read
  · rintro rfl name nothing
    cases nothing

private theorem accounted_clean (own : names = t.defective fixed exclude)
    (done : buildWithRetries (reads t f names) b.first = some built) (clean : built.dropped = []) :
    Accounted t fixed exclude ⟨[built.graph], names, [names]⟩ ↔ NamesExcluded t f names := by
  have held : ∀ path ∈ t.sources, path ∈ built.graph ↔ ¬names.any (f.covers · path) = true := by
    intro path member
    rw [mem_graph done, clean, reads, mem_filter]
    simp [member]
  constructor
  · intro account path member covered
    obtain ⟨graph, listed, holds⟩ | named := account.files path member
    · rw [mem_singleton.mp listed] at holds
      exact absurd covered ((held path member).mp holds)
    · exact named
  · intro named
    constructor
    · intro path member
      by_cases covered : names.any (f.covers · path) = true
      · exact .inr (named path member covered)
      · exact .inl ⟨_, mem_singleton_self _, (held path member).mpr covered⟩
    · intro listed member name among
      rw [mem_singleton.mp member, own]
      exact among

variable {second : Option Built}

private theorem second_holds (done : buildWithRetries (reads t f names) b.first = some built)
    (next : second = buildWithRetries (reads t f (reported t f built)) b.second) :
    (∀ path ∈ t.sources, path ∉ built.dropped →
        ∃ graph ∈ (second.map (·.graph)).toList, path ∈ graph) ↔
      (∀ again, second = some again → again.dropped = []) ∧
        (second = none → t.sources ⊆ built.dropped) := by
  cases second with
  | none =>
    constructor
    · intro held
      constructor
      · intro again nothing
        cases nothing
      · intro _ path member
        -- without a second graph no file is held
        by_contra kept
        obtain ⟨graph, nothing, _⟩ := held path member kept
        cases nothing
    · intro ⟨_, all⟩ path member kept
      exact absurd (all rfl member) kept
  | some again =>
    -- the second graph has what it read and did not drop
    have graph : ∀ path, path ∈ again.graph ↔
        path ∈ reads t f (reported t f built) ∧ path ∉ again.dropped := fun _ => mem_graph next.symm
    constructor
    · intro held
      constructor
      · intro same is_same
        cases is_same
        apply eq_nil_iff_forall_not_mem.mpr
        intro path dropped
        have read := dropped_subset next.symm dropped
        have member := reads_subset _ read
        obtain ⟨_, listed, holds⟩ := held path member ((mem_reads_reported done member).mp read)
        rw [mem_singleton.mp listed] at holds
        exact ((graph path).mp holds).2 dropped
      · intro nothing
        cases nothing
    · intro ⟨clean, _⟩ path member kept
      apply Exists.intro again.graph
      constructor
      · exact mem_singleton_self _
      · rw [graph path, mem_reads_reported done member, clean again rfl]
        exact ⟨kept, fun nothing => by cases nothing⟩

theorem named_reported (among : ∀ path ∈ built.dropped, path ∈ t.sources) (member : path ∈ t.sources) :
    (∃ name ∈ reported t f built, IsPath t.root name path) ↔ path ∈ built.dropped := by
  constructor
  · rintro ⟨name, named, is_path⟩
    obtain ⟨own, dropped, rfl⟩ := mem_map.mp named
    rw [(isPath_report (among own dropped) member).mp is_path]
    exact dropped
  · intro dropped
    exact ⟨_, mem_map_of_mem dropped, (isPath_report member member).mpr rfl⟩

theorem island_holds {still : Built} (done : buildWithRetries (reads t f names) b.first = some built)
    (staged : buildWithRetries built.dropped b.island = some still) :
    (∀ path ∈ built.dropped, path ∈ still.graph ∨
        ∃ name ∈ still.dropped.map (f.naming.report t.island), IsPath t.root name path) ↔
      still.dropped = [] ∨ f.naming = .relative := by
  have among : ∀ path ∈ built.dropped, path ∈ t.sources :=
    fun path member => reads_subset names (dropped_subset done member)
  constructor
  · intro held
    by_cases clean : still.dropped = []
    · exact .inl clean
    · obtain ⟨path, dropped⟩ := exists_mem_of_ne_nil _ clean
      have member := dropped_subset staged dropped
      obtain kept | ⟨name, named, is_path⟩ := held path member
      · exact absurd dropped ((mem_graph staged).mp kept).2
      · obtain ⟨own, ownDropped, rfl⟩ := mem_map.mp named
        have ownMember := among own (dropped_subset staged ownDropped)
        exact .inr ((isPath_island ownMember (among path member)).mp is_path).2
  · intro kept path member
    by_cases dropped : path ∈ still.dropped
    · have relative : f.naming = .relative := by
        obtain clean | relative := kept
        · rw [clean] at dropped
          cases dropped
        · exact relative
      have is_path := (isPath_island (among path member) (among path member)).mpr ⟨rfl, relative⟩
      exact .inr ⟨_, mem_map_of_mem dropped, is_path⟩
    · exact .inl ((mem_graph staged).mpr ⟨member, dropped⟩)

/-- A split build is accounted for where nothing is excluded, the second build drops nothing, and each
dropped file is in an island or named. -/
theorem accounted_split (unparsed : List String) (islands : List (List String))
    (own : names = t.defective fixed exclude)
    (done : buildWithRetries (reads t f names) b.first = some built)
    (next : second = buildWithRetries (reads t f (reported t f built)) b.second)
    (kept : ∀ graph ∈ islands, graph ⊆ built.dropped)
    (named : ∀ path ∈ t.sources, (∃ name ∈ unparsed, IsPath t.root name path) → path ∈ built.dropped) :
    Accounted t fixed exclude
        ⟨(second.map (·.graph)).toList ++ islands, unparsed, [names, reported t f built]⟩ ↔
      names = [] ∧
        ((∀ again, second = some again → again.dropped = []) ∧
          (second = none → t.sources ⊆ built.dropped)) ∧
        ∀ path ∈ built.dropped,
          (∃ graph ∈ islands, path ∈ graph) ∨ ∃ name ∈ unparsed, IsPath t.root name path := by
  have among : ∀ path ∈ built.dropped, path ∈ t.sources :=
    fun path member => reads_subset names (dropped_subset done member)
  -- the second build leaves out what the first one dropped
  have apart : ∀ path ∈ built.dropped, ∀ graph ∈ (second.map (·.graph)).toList, path ∉ graph := by
    intro path dropped graph listed holds
    obtain ⟨again, is_some, rfl⟩ := Option.map_eq_some_iff.mp (Option.mem_toList.mp listed)
    have read := ((mem_graph (next.symm.trans is_some)).mp holds).1
    exact (mem_reads_reported done (among path dropped)).mp read dropped
  rw [← defective_reported done, ← second_holds done next]
  constructor
  · intro account
    refine ⟨?_, ?_, ?_⟩
    · intro name member
      exact account.excluded _ (by simp) name (own ▸ member)
    · intro path member dropped
      obtain ⟨graph, listed, holds⟩ | is_named := account.files path member
      · obtain main | island := mem_append.mp listed
        · exact ⟨graph, main, holds⟩
        · -- an island holds dropped files only
          exact absurd (kept graph island holds) dropped
      · exact absurd (named path member is_named) dropped
    · intro path dropped
      obtain ⟨graph, listed, holds⟩ | is_named := account.files path (among path dropped)
      · obtain main | island := mem_append.mp listed
        · -- a dropped file is not in the graph of the rest
          exact absurd holds (apart path dropped graph main)
        · exact .inl ⟨graph, island, holds⟩
      · exact .inr is_named
  · intro ⟨within, main, rest⟩
    constructor
    · intro path member
      -- a dropped file is in an island or named, the others are in the second graph
      by_cases dropped : path ∈ built.dropped
      · obtain ⟨graph, listed, holds⟩ | is_named := rest path dropped
        · exact .inl ⟨graph, mem_append_right _ listed, holds⟩
        · exact .inr is_named
      · obtain ⟨graph, listed, holds⟩ := main path member dropped
        exact .inl ⟨graph, mem_append_left _ listed, holds⟩
    · intro listed member name is_own
      rw [← own] at is_own
      obtain rfl | rfl : listed = names ∨ listed = reported t f built := by simpa using member
      · exact is_own
      · exact within name is_own

section
variable (done : buildWithRetries (reads t f (t.defective fixed exclude)) b.first = some built)
include done

private theorem buildSharded_clean
    (clean : built.dropped = []) (answered : (buildSharded t f b fixed exclude).shards ≠ []) :
    buildSharded t f b fixed exclude =
      ⟨[built.graph], t.defective fixed exclude, [t.defective fixed exclude]⟩ := by
  revert answered
  simp only [buildSharded, done, clean, if_true]
  cases graphCensus t built.graph b.answers with
  | none => exact fun nothing => absurd rfl nothing
  | some _ => exact fun _ => rfl

private theorem buildSharded_refused
    (lost : built.dropped ≠ []) (staged : buildWithRetries built.dropped b.island = none) :
    buildSharded t f b fixed exclude =
      ⟨((buildWithRetries (reads t f (reported t f built)) b.second).map (·.graph)).toList,
        reported t f built, [t.defective fixed exclude, reported t f built]⟩ := by
  simp only [buildSharded, done, lost, not_complete (b := b) done lost, islandRoot_reported done,
    staged, if_false, Bool.false_eq_true]

private theorem buildSharded_staged {still : Built}
    (lost : built.dropped ≠ []) (staged : buildWithRetries built.dropped b.island = some still) :
    buildSharded t f b fixed exclude =
      ⟨((buildWithRetries (reads t f (reported t f built)) b.second).map (·.graph)).toList
          ++ [still.graph],
        still.dropped.map (f.naming.report t.island), [t.defective fixed exclude, reported t f built]⟩ := by
  simp only [buildSharded, done, lost, not_complete (b := b) done lost, islandRoot_reported done,
    staged, if_false, Bool.false_eq_true]

end

/-- A build that returns a shard accounts for every file exactly if it keeps them. -/
theorem buildSharded_accounted_iff (answered : (buildSharded t f b fixed exclude).shards ≠ []) :
    Accounted t fixed exclude (buildSharded t f b fixed exclude) ↔ Keeps t f b fixed exclude := by
  cases done : buildWithRetries (reads t f (t.defective fixed exclude)) b.first with
  | none =>
    -- Nothing was built, so that nothing is returned.
    apply absurd _ answered
    simp only [buildSharded, done]
  | some built =>
    have among : ∀ path ∈ built.dropped, path ∈ t.sources :=
      fun path member => reads_subset _ (dropped_subset done member)
    have only : Keeps t f b fixed exclude ↔
        if built.dropped = [] then NamesExcluded t f (t.defective fixed exclude)
        else t.defective fixed exclude = [] ∧ Rebuilt t f b built.dropped := by
      simp only [Keeps, done, Option.some.injEq, forall_eq']
    rw [only]
    by_cases clean : built.dropped = []
    · rw [buildSharded_clean done clean answered, if_pos clean]
      exact accounted_clean rfl done clean
    · rw [if_neg clean]
      cases staged : buildWithRetries built.dropped b.island with
      | none =>
        -- No island: what the first build dropped is named.
        have is_named : ∀ path ∈ t.sources,
            (∃ name ∈ reported t f built, IsPath t.root name path) ↔ path ∈ built.dropped :=
          fun path member => named_reported among member
        have split := accounted_split (t := t) (reported t f built) [] rfl done rfl
          (fun _ nothing => by cases nothing) (fun path member => (is_named path member).mp)
        rw [buildSharded_refused done clean staged]
        rw [append_nil] at split
        rw [split]
        constructor
        · rintro ⟨own, ⟨second, failed⟩, -⟩
          exact ⟨own, second, failed, fun still nothing => by rw [staged] at nothing; cases nothing⟩
        · rintro ⟨own, rebuilt⟩
          refine ⟨own, ⟨rebuilt.second, rebuilt.failed⟩, fun path dropped => .inr ?_⟩
          exact (is_named path (among path dropped)).mpr dropped
      | some still =>
        have split := accounted_split (t := t) (still.dropped.map (f.naming.report t.island))
          [still.graph] rfl done rfl
          (by
            intro graph listed path holds
            rw [mem_singleton.mp listed] at holds
            exact ((mem_graph staged).mp holds).1)
          (by
            rintro path member ⟨name, named, is_path⟩
            obtain ⟨own, dropped, rfl⟩ := mem_map.mp named
            have first := dropped_subset staged dropped
            rw [((isPath_island (among own first) member).mp is_path).1]
            exact first)
        have holds := island_holds done staged
        rw [buildSharded_staged done clean staged, split]
        simp only [mem_singleton, exists_eq_left, holds]
        constructor
        · rintro ⟨own, ⟨second, failed⟩, island⟩
          refine ⟨own, second, failed, fun same is_same => ?_⟩
          cases staged.symm.trans is_same
          exact island
        · rintro ⟨own, rebuilt⟩
          exact ⟨own, ⟨rebuilt.second, rebuilt.failed⟩, rebuilt.island still staged⟩

def pairOfFiles : Tree where
  root := "/src"
  island := "/scratch/excluded-root"
  files := [⟨"a.php", 10, "<?php"⟩, ⟨"b.php", 10, "<?php"⟩]
  absolute := by decide
  relative := by decide
  fresh := by decide

def byName : Frontend pairOfFiles where
  covers := fun name path => name == path
  naming := .relative
  own := by decide +kernel

/-- The first build drops `a.php`, which then builds on its own; the second may drop `b.php`. -/
def dropping (again : Bool) : Behaviour where
  first := fun _ => some (· == "a.php")
  second := fun _ => some fun path => again && path == "b.php"
  island := fun _ => some fun _ => false
  answers := true

theorem buildSharded_accounted_iff_islanded :
    Accounted pairOfFiles false [] (buildSharded pairOfFiles byName (dropping false) false []) := by
  apply (buildSharded_accounted_iff (by decide +kernel)).mpr
  have first : buildWithRetries (reads pairOfFiles byName (pairOfFiles.defective false []))
      (dropping false).first = some ⟨["a.php"], ["b.php"]⟩ := by decide +kernel
  have second : buildWithRetries (reads pairOfFiles byName ["a.php"]) (dropping false).second
      = some ⟨[], ["b.php"]⟩ := by decide +kernel
  have island : buildWithRetries ["a.php"] (dropping false).island = some ⟨[], ["a.php"]⟩ := by
    decide +kernel
  intro built done
  cases first.symm.trans done
  constructor
  · decide +kernel
  · constructor
    · intro again is_again
      cases second.symm.trans is_again
      rfl
    · intro nothing
      cases second.symm.trans nothing
    · intro still is_still
      cases island.symm.trans is_still
      exact .inl rfl

theorem second_drop_not_accounted :
    ¬∀ (t : Tree) (f : Frontend t) (b : Behaviour) (fixed : Bool) (exclude : List String),
      (buildSharded t f b fixed exclude).shards ≠ [] →
        Accounted t fixed exclude (buildSharded t f b fixed exclude) := by
  intro all
  have account := all pairOfFiles byName (dropping true) false [] (by decide +kernel)
  have result : buildSharded pairOfFiles byName (dropping true) false []
      = ⟨[[], ["a.php"]], [], [[], ["a.php"]]⟩ := by decide +kernel
  rw [result] at account
  obtain ⟨graph, listed, holds⟩ | ⟨name, nothing, _⟩ := account.files "b.php" (by decide +kernel)
  · obtain rfl | rfl : graph = [] ∨ graph = ["a.php"] := by simpa using listed
    · cases holds
    · simp at holds
  · cases nothing

end OpenUltraSast.Cpg.Building
