import OpenUltraSast.Learn.Examples
import OpenUltraSast.Plane.Puts

/-!
# The memory after its builds

A build merges its rows over the stored ones and drops none, and the id of a row does not name the
profile. So the memory of a profile is its last build exactly if no other row lasts.
-/

namespace OpenUltraSast.Learn.Examples

open Values Plane.Memory Plane.Delivery Collections List

variable {tools : Tools}

def IsExampleRow (tools : Tools) (profile : Profile) (row : Row) : Prop :=
  ∃ (call : BuildCall) (label : Label) (repo : String) (record : FeatureRecord) (shown : Excerpt),
    call.profile = profile ∧ row = call.row tools label repo record shown

variable {call : BuildCall} {profile : Profile} {row : Row} {build next : MemoryBuild}

private theorem rows_addLabel {label : Label}
    (added : call.addLabel tools build label = .ok next) :
    next.rows = build.rows ∨ ∃ row, IsExampleRow tools call.profile row ∧
      next.rows = build.rows ++ [row] := by
  unfold BuildCall.addLabel at added
  split at added
  · cases added
    exact .inl rfl
  · cases keyed : repoKey label.repo with
    | none =>
      rw [keyed] at added
      cases added
    | some repo =>
      simp only [keyed] at added
      split at added
      · cases added
        exact .inl rfl
      · next record _ =>
        split at added
        · next shown _ =>
          cases added
          exact .inr ⟨_, ⟨call, label, repo, record, shown, rfl, rfl⟩, rfl⟩
        · cases added
          exact .inl rfl

private theorem rows_foldlM {labels : List Label}
    (added : labels.foldlM (call.addLabel tools) build = .ok next)
    (before : ∀ row ∈ build.rows, IsExampleRow tools call.profile row) :
    ∀ row ∈ next.rows, IsExampleRow tools call.profile row := by
  induction labels generalizing build with
  | nil =>
    cases added
    exact before
  | cons label labels ih =>
    rw [foldlM_cons] at added
    obtain ⟨mid, first, rest⟩ := bind_eq_ok_iff.mp added
    apply ih rest
    intro row member
    rcases rows_addLabel first with same | ⟨new, isRow, same⟩
    · exact before row (same ▸ member)
    · rw [same, mem_append, mem_singleton] at member
      rcases member with older | rfl
      · exact before row older
      · exact isRow

theorem isExampleRow_of_build {build : MemoryBuild} (built : call.build tools = .ok build) :
    ∀ row ∈ build.rows, IsExampleRow tools call.profile row := by
  obtain ⟨-, -, added⟩ := bind_eq_ok_iff.mp built
  apply rows_foldlM added
  intro row member
  cases member

theorem text_exampleRow (isRow : IsExampleRow tools profile row) :
    text row "kind" = "example" ∧ text row "profile" = profile.name := by
  obtain ⟨call, label, repo, record, shown, rfl, rfl⟩ := isRow
  exact ⟨rfl, rfl⟩

private theorem profileOf_readBack (named : row.lookup "profile" = some (.str profile.name)) :
    profileOf (readBack row) = some profile := by
  rw [profileOf, text_readBack named]
  cases profile <;> decide

theorem lookup_row (tools : Tools) (call : BuildCall) (label : Label) (repo : String) (record : FeatureRecord)
    (shown : Excerpt) :
    let row := call.row tools label repo record shown
    row.lookup "profile" = some (.str call.profile.name) ∧
      row.lookup "source" = some (.str label.source) ∧
      row.lookup "family" = some (.str label.family) ∧
      row.lookup "excerpt_sha" = some (.str shown.sha) ∧
      row.lookup "label" = some (.int label.label) ∧
      row.lookup "x" = some (.obj (profileX tools.features record.x call.profile)) ∧
      row.lookup "instruments"
        = some (.obj (record.instruments.filter fun entry => !isNull entry.2)) := by
  simp [BuildCall.row, lookup_cons]

theorem fromRow_readBack (isRow : IsExampleRow tools profile row) :
    ∃ e, Example.fromRow tools.features (readBack row) = some e ∧ e.id = idOf row := by
  obtain ⟨call, label, repo, record, shown, rfl, rfl⟩ := isRow
  obtain ⟨profile, source, family, sha, label_, x, instruments⟩ :=
    lookup_row tools call label repo record shown
  generalize call.row tools label repo record shown = row at *
  have texts {name value : String} (found : row.lookup name = some (.str value)) :
      textOf (readBack row) name = some value := by
    rw [textOf, lookup_readBack_text found]
  have objects {name : String} {fields : List (String × Json)} (plain : name ∉ queryable)
      (found : row.lookup name = some (.obj fields)) : ∃ out, objectOf (readBack row) name = some out := by
    rw [objectOf, lookup_readBack plain, found]
    exact ⟨_, rfl⟩
  obtain ⟨x, hasX⟩ := objects (by decide) x
  obtain ⟨instruments, hasInstruments⟩ := objects (by decide) instruments
  have number : intOf (readBack row) "label" = some label.label := by
    rw [intOf, lookup_readBack (by decide), label_]
    rfl
  simp only [Example.fromRow, texts source, texts family, texts sha, hasX, hasInstruments, number,
    profileOf_readBack profile, Option.bind_eq_bind, Option.bind_some]
  exact ⟨_, rfl, idOf_readBack row⟩

/-- A directory does not list the objects of a repository whose name steps out of `repos`. -/
def Hidden : Backend → Row → Prop
  | .bucket, _ => False
  | .directory _, row => repoDir (text row "repo") = some ".."

private theorem lists_repos_index (b : Backend) : b.lists "repos/" "index.jsonl" = false := by
  cases b with
  | bucket => decide
  | directory root =>
    have base : relativeTo root (resolve root "repos/") = some ["repos"] := by
      have slash : "repos/" = "repos/" ++ "" := rfl
      rw [slash, resolve_repos]
      exact relativeTo_append root ["repos"]
    have index : parts "index.jsonl" = ["index.jsonl"] := by decide
    rw [Backend.lists, base]
    simp only [index]
    decide

theorem lists_repos {b : Backend} (has : HasPlace row) {place : String}
    (there : row.place b = some place) : b.lists "repos/" place = true ↔ ¬ Hidden b row := by
  obtain ⟨dir, named, keyed⟩ := has.dir
  rw [Row.place, keyed, Option.bind_some] at there
  cases b with
  | bucket =>
    cases there
    simp [Backend.lists, Hidden, Text.startsWith, String.toList_append, List.isPrefixOf]
  | directory root =>
    obtain ⟨plain, filled⟩ := plain_repoDir named
    have base : relativeTo root (resolve root "repos/") = some ["repos"] := by
      have slash : "repos/" = "repos/" ++ "" := rfl
      rw [slash, resolve_repos]
      exact relativeTo_append root ["repos"]
    have visible := (file_of_isPin has.2).2.1
    rw [place_row root plain has.2, Option.some.injEq] at there
    subst there
    rw [Backend.lists, base, Hidden, named, Option.some.injEq]
    simp only [parts_place plain has.2, List.getLast?_concat, Option.any_some, visible,
      Bool.not_false, Bool.and_true, Bool.and_eq_true, decide_eq_true_eq]
    rcases home_cases filled with ⟨rfl, at_⟩ | ⟨rfl, at_⟩ | ⟨here, up, at_⟩ <;>
      simp [List.isPrefixOf, *]

section Digest
variable {b : Backend} {sha256 : Bytes → String} {linesDigest : List Row → String}

def BuildCall.rows (tools : Tools) (call : BuildCall) : List Row :=
  ((call.build tools).toOption.map (·.rows)).getD []

private theorem memory_eq (calls : List BuildCall) : memory tools b sha256 linesDigest calls
    = historyAt b sha256 linesDigest ((calls.map (·.rows tools)).map putEvent) := by
  rw [memory, map_map]
  rfl

theorem stored_eq (call : BuildCall) :
    ((call.stored tools).toOption).getD [] = accepted (call.rows tools) := by
  unfold BuildCall.stored BuildCall.rows
  cases built : call.build tools with
  | error error => rfl
  | ok build =>
    have bound : (Except.ok build : Except BuildError MemoryBuild).toOption = some build := rfl
    rw [bound, Option.map_some, Option.getD_some, accepted]
    cases put : putRows (build.rows.map .obj) <;> simp [bind, Except.bind, put, Except.toOption]

private theorem given_eq (calls : List BuildCall) :
    given tools calls = (calls.map (·.rows tools)).flatMap accepted := by
  rw [given, flatMap_map]
  exact flatMap_congr fun call _ => stored_eq call

theorem mem_given {calls : List BuildCall} (member : row ∈ given tools calls) :
    HasPlace row ∧ ∃ call ∈ calls, (∃ rows, call.stored tools = .ok rows) ∧
      IsExampleRow tools call.profile row := by
  obtain ⟨call, among, inside⟩ := mem_flatMap.mp member
  have has : HasPlace row := by
    rw [stored_eq] at inside
    exact hasPlace_accepted row inside
  refine ⟨has, call, among, ?_⟩
  unfold BuildCall.stored at inside ⊢
  cases built : call.build tools with
  | error error =>
    rw [built] at inside
    cases inside
  | ok build =>
    rw [built] at inside
    cases put : putRows (build.rows.map .obj) with
    | error error => simp [bind, Except.bind, put, Except.toOption] at inside
    | ok steps =>
      simp only [bind, Except.bind, put, Except.toOption, Option.getD_some] at inside ⊢
      exact ⟨⟨_, rfl⟩, isExampleRow_of_build built row inside⟩

variable (tools b sha256 linesDigest)

private theorem rows_memory (calls : List BuildCall) :
    ∃ rows, (memory tools b sha256 linesDigest calls).rows b "" = .ok rows ∧
      ∀ stored, stored ∈ rows ↔
        ∃ row, Lasting (given tools calls) [] row ∧ ¬ Hidden b row ∧ stored = readBack row := by
  rw [memory_eq, given_eq]
  set h := historyAt b sha256 linesDigest ((calls.map (·.rows tools)).map putEvent)
  have homed : Homed b sha256 h := homed_historyAt _
  have listed : h.rows b "" = .ok ((h.present.filter (b.lists "repos/")).flatMap fun place =>
      (h.store.objects place).insertionSort fun row other => idOf row ≤ idOf other) := by
    rw [History.rows, if_pos rfl]
    simp only [lists_repos_index, Bool.false_eq_true, and_false, if_false]
  refine ⟨_, listed, fun stored => ?_⟩
  · rw [mem_flatMap]
    simp only [mem_filter, mem_insertionSort, mem_present homed]
    have has : ∀ row ∈ (calls.map (·.rows tools)).flatMap accepted, HasPlace row := by
      intro row member
      obtain ⟨rows, -, inside⟩ := mem_flatMap.mp member
      exact hasPlace_accepted row inside
    constructor
    · rintro ⟨place, ⟨-, listed⟩, member⟩
      obtain ⟨row, lasting, there, rfl⟩ := (mem_puts _ place stored).mp member
      exact ⟨row, lasting, (lists_repos (has row lasting.mem) there).mp listed, rfl⟩
    · rintro ⟨row, lasting, visible, rfl⟩
      obtain ⟨place, there⟩ := (has row lasting.mem).place b
      have member : readBack row ∈ h.store.objects place :=
        (mem_puts _ place _).mpr ⟨row, lasting, there, rfl⟩
      exact ⟨place, ⟨ne_nil_of_mem member, (lists_repos (has row lasting.mem) there).mpr visible⟩,
        member⟩

/-- A row as `load_examples` gives it. -/
def reads (tools : Tools) (row : Row) : Option Example :=
  Example.fromRow tools.features (readBack row)

def Loads (tools : Tools) (b : Backend) (h : History) (profile : Profile) (rows : List Row) : Prop :=
  ∃ examples, loadExamples tools.features b h (some profile) = some examples ∧
    ∀ e, e ∈ examples ↔ ∃ row ∈ rows, reads tools row = some e

def Visible (b : Backend) (profile : Profile) (row : Row) : Prop :=
  text row "profile" = profile.name ∧ ¬ Hidden b row

/-- What the builds may give for the memory of a profile to be the last one, with the rows of the
earlier builds, of the last one and of the later ones: each example of the last build is read from a
row whose place no later row takes, and a row of an earlier build whose place no later row takes
reads as an example of the last build. -/
structure OnlyLast (tools : Tools) (b : Backend) (profile : Profile) (earlier rows later : List Row) :
    Prop where
  kept : ∀ row ∈ rows, ∃ other, Lasting (earlier ++ rows) later other ∧ Visible b profile other ∧
    reads tools other = reads tools row
  gone : ∀ row, Lasting earlier (rows ++ later) row → Visible b profile row →
    ∃ other ∈ rows, reads tools other = reads tools row

theorem name_injective {other : Profile} (same : profile.name = other.name) : profile = other := by
  cases profile <;> cases other <;> first | rfl | exact absurd same (by decide)

/-- What is loaded are the rows that last and that the profile may see. -/
theorem mem_loadExamples (calls : List BuildCall) (profile : Profile) :
    ∃ examples, loadExamples tools.features b (memory tools b sha256 linesDigest calls)
        (some profile) = some examples ∧
      ∀ e, e ∈ examples ↔ ∃ row, Lasting (given tools calls) [] row ∧ Visible b profile row ∧
        reads tools row = some e := by
  obtain ⟨rows, listed, member_rows⟩ := rows_memory tools b sha256 linesDigest calls
  -- every stored row carries its profile as text
  have texts {row : Row} (lasting : Lasting (given tools calls) [] row) :
      wanted (some profile) (readBack row) = true ↔ text row "profile" = profile.name := by
    obtain ⟨-, call, -, -, isRow⟩ := mem_given lasting.mem
    obtain ⟨source, label, repo, record, shown, -, rfl⟩ := isRow
    have fields := (lookup_row tools source label repo record shown).1
    have kind : (source.row tools label repo record shown).lookup "kind" = some (.str "example") := by
      simp [BuildCall.row, lookup_cons]
    rw [wanted, text_readBack kind, Option.all_some, text_readBack fields, text, fields]
    simp
  -- a row that was built parses again, so loading never gives up
  have readable : ∀ stored ∈ rows.filter (wanted (some profile)),
      (Example.fromRow tools.features stored).isSome := by
    intro stored inside
    obtain ⟨row, lasting, -, rfl⟩ := (member_rows stored).mp (mem_of_mem_filter inside)
    obtain ⟨-, call, -, -, isRow⟩ := mem_given lasting.mem
    obtain ⟨e, found, -⟩ := fromRow_readBack isRow
    rw [found]
    rfl
  obtain ⟨examples, read⟩ := Option.isSome_iff_exists.mp (isSome_mapM_iff.mpr readable)
  refine ⟨examples, by rw [loadExamples, listed]; exact read, fun e => ?_⟩
  have each := mapM_eq_some_iff.mp read
  constructor
  · intro member
    obtain ⟨stored, inside, found⟩ := exists_left_of_forall₂ each member
    obtain ⟨among, isWanted⟩ := mem_filter.mp inside
    obtain ⟨row, lasting, visible, rfl⟩ := (member_rows stored).mp among
    exact ⟨row, lasting, ⟨(texts lasting).mp isWanted, visible⟩, found⟩
  · rintro ⟨row, lasting, ⟨named, visible⟩, found⟩
    have among := (member_rows (readBack row)).mpr ⟨row, lasting, visible, rfl⟩
    obtain ⟨other, member, same⟩ := exists_right_of_forall₂ each
      (mem_filter.mpr ⟨among, (texts lasting).mpr named⟩)
    rw [reads, same] at found
    exact Option.some.inj found ▸ member

variable {tools b sha256 linesDigest}

/-- After some builds the examples of a profile are the last build's exactly if the rows of that
build last, or rows that read as the same examples, and no row of an earlier build of the profile
lasts that reads as another example. -/
theorem loads_last_iff {earlier later : List BuildCall} {last : BuildCall} {rows : List Row}
    (made : last.stored tools = .ok rows)
    (final : ∀ call ∈ later, call.profile = last.profile → ∃ error, call.stored tools = .error error) :
    Loads tools b (memory tools b sha256 linesDigest (earlier ++ last :: later)) last.profile rows ↔
      OnlyLast tools b last.profile (given tools earlier) rows (given tools later) := by
  have all : given tools (earlier ++ last :: later)
      = given tools earlier ++ (rows ++ given tools later) := by
    simp [given, made, Except.toOption]
  obtain ⟨examples, loaded, member_iff⟩ :=
    mem_loadExamples tools b sha256 linesDigest (earlier ++ last :: later) last.profile
  rw [all] at member_iff
  have own : ∀ row ∈ rows, text row "profile" = last.profile.name := by
    intro row member
    have inside : row ∈ given tools [last] := by simpa [given, made, Except.toOption] using member
    obtain ⟨-, call, among, -, isRow⟩ := mem_given inside
    rw [mem_singleton.mp among] at isRow
    exact (text_exampleRow isRow).2
  -- A later build is of another profile.
  have other : ∀ row ∈ given tools later, text row "profile" ≠ last.profile.name := by
    intro row member same
    obtain ⟨-, call, among, ⟨stored, ok⟩, isRow⟩ := mem_given member
    have profile := name_injective ((text_exampleRow isRow).2.symm.trans same)
    obtain ⟨error, failed⟩ := final call among profile
    rw [ok] at failed
    cases failed
  have loads_iff : Loads tools b (memory tools b sha256 linesDigest (earlier ++ last :: later))
      last.profile rows ↔ ∀ e, e ∈ examples ↔ ∃ row ∈ rows, reads tools row = some e := by
    constructor
    · rintro ⟨others, same, exact_⟩
      cases loaded.symm.trans same
      exact exact_
    · intro exact_
      exact ⟨examples, loaded, exact_⟩
  have readable : ∀ row ∈ given tools earlier ++ (rows ++ given tools later),
      ∃ e, reads tools row = some e := by
    intro row member
    rw [← all] at member
    obtain ⟨-, call, -, -, isRow⟩ := mem_given member
    obtain ⟨e, found, -⟩ := fromRow_readBack isRow
    exact ⟨e, found⟩
  -- A row of the profile that lasts is not one of a later build.
  have lasting_iff {row : Row} (visible : Visible b last.profile row) :
      Lasting (given tools earlier ++ (rows ++ given tools later)) [] row ↔
        Lasting (given tools earlier ++ rows) (given tools later) row := by
    rw [← append_assoc, lasting_append, append_nil]
    constructor
    · rintro (before | after)
      · exact before
      · exact absurd visible.1 (other row after.mem)
    · exact .inl
  rw [loads_iff]
  constructor
  · intro exact_
    constructor
    · intro row member
      obtain ⟨e, found⟩ := readable row (by simp [member])
      obtain ⟨kept, lasting, visible, same⟩ :=
        (member_iff e).mp ((exact_ e).mpr ⟨row, member, found⟩)
      exact ⟨kept, (lasting_iff visible).mp lasting, visible, same.trans found.symm⟩
    · intro row lasting visible
      obtain ⟨e, found⟩ := readable row (by simp [lasting.mem])
      have kept : Lasting (given tools earlier ++ rows) (given tools later) row :=
        lasting_append.mpr (.inl lasting)
      obtain ⟨same, member, reads_⟩ :=
        (exact_ e).mp ((member_iff e).mpr ⟨row, (lasting_iff visible).mpr kept, visible, found⟩)
      exact ⟨same, member, reads_.trans found.symm⟩
  · rintro ⟨kept, gone⟩ e
    rw [member_iff]
    constructor
    · rintro ⟨row, lasting, visible, found⟩
      rcases lasting_append.mp ((lasting_iff visible).mp lasting) with early | late
      · obtain ⟨same, member, reads_⟩ := gone row early visible
        exact ⟨same, member, reads_.trans found⟩
      · exact ⟨row, late.mem, found⟩
    · rintro ⟨row, member, found⟩
      obtain ⟨same, lasting, visible, reads_⟩ := kept row member
      exact ⟨same, (lasting_iff visible).mpr lasting, visible, reads_.trans found⟩

end Digest

def plainTools : Tools where
  features := []
  sha1 := id
  sha256 := id
  labelSetDigest := fun _ => "digest"
  identitiesOf := fun _ _ _ => []
  functionBounds := fun _ _ _ => some (0, 1)
  deltaDiff := fun _ _ _ _ => ""
  excerpt := fun lines _ _ _ _ _ => some ⟨"\n".intercalate lines, "sha"⟩

def labelOf (candidate : String) : Label where
  candidate := candidate
  family := "injection"
  label := 1
  source := "pairs"
  sourceRef := "case"
  unit := "pin"
  weight := 1
  split := "train"
  group := "group"
  repo := "host/owner/name"
  language := "php"
  pin := pinned

def buildOf (labels : List Label) : BuildCall where
  labels := labels
  records := labels.map fun label =>
    (("host/owner/name", pinned, label.candidate, "injection", "pin"),
      ⟨"static", "php", [], []⟩)
  linesOf := fun _ _ => ["line"]
  sources := ⟨"sources.toml", [⟨"pairs", "pairs"⟩]⟩

def twoLabels : BuildCall := buildOf [labelOf "a.php::f", labelOf "a.php::g"]

def oneLabel : BuildCall := buildOf [labelOf "a.php::g"]

def takenBack : History := memory plainTools .bucket contentName idNames ([twoLabels] ++ oneLabel :: [])

def storedIds (call : BuildCall) : Option (List String) :=
  (call.stored plainTools).toOption.map fun rows => rows.map idOf

theorem stored_of_ids {ids : List String} (named : storedIds call = some ids) :
    ∃ rows, call.stored plainTools = .ok rows ∧ rows.map idOf = ids := by
  cases built : call.stored plainTools with
  | error error =>
    rw [storedIds, built] at named
    cases named
  | ok rows =>
    rw [storedIds, built] at named
    exact ⟨rows, rfl, Option.some.inj named⟩

def pairId (candidate : String) : String := exampleId plainTools (labelOf candidate) pinned

theorem oneLabel_stored : ∃ row, oneLabel.stored plainTools = .ok [row] ∧
    idOf row = pairId "a.php::g" := by
  have named : storedIds oneLabel = some [pairId "a.php::g"] := by decide +kernel
  obtain ⟨rows, built, ids⟩ := stored_of_ids named
  obtain ⟨row, rfl, id⟩ := map_eq_singleton_iff.mp ids
  exact ⟨row, built, id⟩

theorem twoLabels_stored : ∃ first second, twoLabels.stored plainTools = .ok [first, second] ∧
    idOf first = pairId "a.php::f" ∧ idOf second = pairId "a.php::g" := by
  have named : storedIds twoLabels = some [pairId "a.php::f", pairId "a.php::g"] := by
    decide +kernel
  obtain ⟨rows, built, ids⟩ := stored_of_ids named
  obtain ⟨first, rest, rfl, firstId, ids⟩ := map_eq_cons_iff.mp ids
  obtain ⟨second, rfl, secondId⟩ := map_eq_singleton_iff.mp ids
  exact ⟨first, second, built, firstId, secondId⟩

theorem loads_last_iff_oneLabel : ∃ row, oneLabel.stored plainTools = .ok [row] ∧
    (Loads plainTools .bucket takenBack oneLabel.profile [row] ↔
      OnlyLast plainTools .bucket oneLabel.profile (given plainTools [twoLabels]) [row]
        (given plainTools [])) := by
  obtain ⟨row, built, -⟩ := oneLabel_stored
  exact ⟨row, built, loads_last_iff built fun _ member => absurd member not_mem_nil⟩

/-- The memory of the second build still has the example that only the first one gave. -/
theorem last_build_not_loaded : ∃ rows, oneLabel.stored plainTools = .ok rows ∧
    ¬ Loads plainTools .bucket takenBack .static rows := by
  obtain ⟨row, built, id⟩ := oneLabel_stored
  obtain ⟨first, second, builtTwo, firstId, secondId⟩ := twoLabels_stored
  have apart : pairId "a.php::f" ≠ pairId "a.php::g" := by decide +kernel
  refine ⟨_, built, ?_⟩
  intro loads
  obtain ⟨examples, loaded, exact_⟩ := loads
  obtain ⟨all, loadedAll, member_iff⟩ :=
    mem_loadExamples plainTools .bucket contentName idNames [twoLabels, oneLabel] .static
  cases loaded.symm.trans loadedAll
  have all : given plainTools [twoLabels, oneLabel] = [first, second, row] := by
    simp [given, built, builtTwo, Except.toOption]
  have inside : first ∈ given plainTools [twoLabels, oneLabel] := by simp [all]
  obtain ⟨-, call, among, -, isRow⟩ := mem_given inside
  have profile : call.profile = .static := by
    rcases mem_pair.mp among with rfl | rfl <;> rfl
  obtain ⟨e, found, named⟩ := fromRow_readBack isRow
  have lasting : Lasting (given plainTools [twoLabels, oneLabel]) [] first := by
    refine ⟨[], [second, row], all, ?_⟩
    rintro ⟨other, member, -, same⟩
    rcases mem_pair.mp member with rfl | rfl
    · exact apart (firstId.symm.trans (same.symm.trans secondId))
    · exact apart (firstId.symm.trans (same.symm.trans id))
  have member := (member_iff e).mpr
    ⟨first, lasting, ⟨profile ▸ (text_exampleRow isRow).2, fun hidden => hidden⟩, found⟩
  obtain ⟨other, among, read⟩ := (exact_ e).mp member
  rw [mem_singleton.mp among] at read
  have insideRow : row ∈ given plainTools [twoLabels, oneLabel] := by simp [all]
  obtain ⟨-, source, -, -, isLast⟩ := mem_given insideRow
  obtain ⟨same, foundLast, namedLast⟩ := fromRow_readBack isLast
  cases read.symm.trans foundLast
  exact apart (firstId.symm.trans (named.symm.trans (namedLast.trans id)))

end OpenUltraSast.Learn.Examples
