import Mathlib.Algebra.Order.Field.Rat
import Mathlib.Data.Prod.Lex
import Mathlib.Data.String.Basic
import OpenUltraSast.Library.Champions

/-!
# Regions

Where a repository scan looks, and what for. A function that the mapper found an entry point in has a
region, the code outside functions of its file has one, and a file without entry points is a region of
its own.
-/

namespace OpenUltraSast.Model.Regions

open Champions Collections

/-- An `EntryPointRecord`, as far as the regions read it. -/
structure Entry where
  path : String
  functionName : Option String
  kind : String
  accessLevel : String
  definesHandler : Bool := true
  accessDeclared : Bool := false
  registeredBy : String := ""

structure Target where
  path : String
  language : String

inductive Source where
  | entryPoint
  | moduleScope
  | fileFallback
deriving DecidableEq

/-- A place to arbitrate, and the families worth arbitrating there. -/
structure ScanRegion where
  path : String
  function : Option String
  language : String
  families : List String
  rank : ℚ
  source : Source
  shipped : Bool := true
  entryKind : String := ""
  entryRegistry : String := ""
deriving DecidableEq

/-- The families that the facts of a language have. -/
structure Specs where
  taint : String → List String
  config : String → List String
  dominance : String → List String

/-- `_families`: those whose arbiter needs a handler are left out where there is none. -/
def Specs.families (specs : Specs) (language : String) (hasHandler : Bool) : List String :=
  sortedSet (specs.taint language ++ specs.config language ++
    if hasHandler then specs.dominance language else [])

def accessRank (level : String) : ℚ :=
  match level with
  | "public" => 1
  | "authenticated" => 4 / 5
  | "role-restricted" => 3 / 5
  | "contract-only/callback" => 2 / 5
  | "review-required" => 3 / 10
  | "local-only" => 1 / 5
  | _ => 1 / 2

def languages : List String :=
  ["python", "javascript", "typescript", "java", "c", "c_cpp", "php"]

def normalise (language : String) : String :=
  match language with
  | "typescript" => "javascript"
  | "c_cpp" => "c"
  | other => other

def languageOf (target : Target) : Option String :=
  if target.language ∈ languages then some (normalise target.language) else none

/-- `MODULE_SCOPE`: a file's code outside functions. -/
def moduleScope : String := "<module>"

/-- `_MODULE_MARKERS`: what the mapper calls an entry point outside functions. -/
def moduleMarkers : List String := ["__main__"]

def Entry.declaredOpen (e : Entry) : Bool := e.accessDeclared && e.accessLevel = "public"

def Entry.function (e : Entry) : Option String :=
  (e.functionName.filter (· ≠ "")).filter fun _ => e.definesHandler

def Entry.moduleBody (e : Entry) : Bool := e.function.any (· ∈ moduleMarkers)

def Entry.Guarded (e : Entry) : Prop :=
  e.function.isSome = true ∧ e.moduleBody = false ∧ e.declaredOpen = false

def byPath (targets : List Target) : List (String × String) :=
  Dicts.ofEntries (targets.filterMap fun target =>
    (languageOf target).map fun language => (target.path, language))

section Plan
variable (specs : Specs) (files : List (String × String))

def regionOf (e : Entry) : Option ScanRegion :=
  match files.lookup e.path with
  | none => none
  | some language =>
    let offered := specs.families language (!e.declaredOpen)
    let families := if e.moduleBody then specs.families language false else offered
    if offered = [] ∨ families = [] then none
    else some {
      path := e.path
      function := if e.moduleBody then some moduleScope else e.function
      language, families
      rank := accessRank e.accessLevel
      source := if e.moduleBody then .moduleScope else .entryPoint
      entryKind := e.kind
      entryRegistry := e.registeredBy }

abbrev Key := String × Option String

def keyOf (region : ScanRegion) : Key := (region.path, region.function)

def proposed (entries : List Entry) : List ScanRegion := entries.filterMap (regionOf specs files)

/-- `best`: one region for each path and function, of the highest access rank. -/
def bestOf (entries : List Entry) : List (Key × ScanRegion) :=
  champions keyOf ScanRegion.rank (proposed specs files entries)

def namedPaths (best : List (Key × ScanRegion)) : List String :=
  (best.filter (·.1.2.isSome)).map (·.1.1)

/-- A region without a function is dropped where a named one covers its file. -/
def handlerRegions (best : List (Key × ScanRegion)) : List ScanRegion :=
  (best.filter fun entry => entry.1.2.isSome || entry.1.1 ∉ namedPaths best).map (·.2)

/-- The code outside functions of the files whose regions are all functions. -/
def moduleRegions (regions : List ScanRegion) : List ScanRegion :=
  let within := (regions.filter (·.function.isSome)).map (·.path)
  let haveModule := (regions.filter (·.function = some moduleScope)).map (·.path)
  (sortedSet (within.filter (· ∉ haveModule))).filterMap fun path =>
    match files.lookup path with
    | none => none
    | some language =>
      let families := specs.families language false
      if families = [] then none
      else some {
        path, function := some moduleScope, language, families, rank := 3 / 20
        source := .moduleScope }

def fallbackRegions (regions : List ScanRegion) : List ScanRegion :=
  (files.filter (·.1 ∉ regions.map (·.path))).filterMap fun (path, language) =>
    let families := specs.families language false
    if families = [] then none
    else some {
      path, function := none, language, families, rank := 1 / 10, source := .fileFallback }

def plan (entries : List Entry) : List ScanRegion :=
  let handlers := handlerRegions (bestOf specs files entries)
  let within := handlers ++ moduleRegions specs files handlers
  within ++ fallbackRegions specs files within

end Plan

/-- Whether the project's own build declaration names the file of a region. -/
def ScanRegion.mark (shipped : Option (List String)) (region : ScanRegion) : ScanRegion :=
  match shipped with
  | none => region
  | some paths => { region with shipped := region.path ∈ paths }

def sortKey (region : ScanRegion) : Bool ×ₗ ℚ ×ₗ String ×ₗ String :=
  toLex (!region.shipped, toLex (-region.rank, toLex (region.path, region.function.getD "")))

def regionsFor (specs : Specs) (entries : List Entry) (targets : List Target)
    (shipped : Option (List String)) : List ScanRegion :=
  ((plan specs (byPath targets) entries).map (ScanRegion.mark shipped)).insertionSort fun a b =>
    sortKey a ≤ sortKey b

end OpenUltraSast.Model.Regions

/-!
## Regions and the order of the entries

Entries of equal rank are kept by arrival, so the regions of a repository depend on the order of its
entries exactly where entries of one function that share its highest rank propose different regions.
-/

namespace OpenUltraSast.Model.Regions

open Champions Collections List

variable {specs : Specs} {files : List (String × String)} {entries : List Entry}

variable {language : String} {handler : ScanRegion} {family : String}

theorem mem_families {hasHandler : Bool} :
    family ∈ specs.families language hasHandler ↔
      family ∈ specs.taint language ∨ family ∈ specs.config language ∨
        hasHandler = true ∧ family ∈ specs.dominance language := by
  rw [Specs.families, mem_sortedSet, mem_append, mem_append, or_assoc]
  cases hasHandler <;> simp

structure ProposedBy (specs : Specs) (files : List (String × String)) (e : Entry)
    (region : ScanRegion) : Prop where
  path : region.path = e.path
  function : region.function = if e.moduleBody then some moduleScope else e.function
  language : files.lookup e.path = some region.language
  families : region.families = specs.families region.language (!e.moduleBody && !e.declaredOpen)
  shipped : region.shipped = true

variable {region : ScanRegion} {e : Entry}

theorem regionOf_eq_some (proposes : regionOf specs files e = some region) :
    ProposedBy specs files e region := by
  rw [regionOf] at proposes
  split at proposes
  next => cases proposes
  next language known =>
    rw [Option.ite_none_left_eq_some] at proposes
    obtain ⟨-, same⟩ := proposes
    cases same
    refine ⟨rfl, rfl, known, ?_, rfl⟩
    -- the handler flag is taken from the contract only outside the module body
    cases e.moduleBody <;> rfl

private theorem exists_regionOf (known : files.lookup e.path = some language)
    (plain : e.moduleBody = false) (offered : family ∈ specs.families language (!e.declaredOpen)) :
    ∃ region, regionOf specs files e = some region := by
  have some_ : specs.families language (!e.declaredOpen) ≠ [] := ne_nil_of_mem offered
  simp only [regionOf, known, plain]
  exact ⟨_, if_neg (by simpa using some_)⟩

theorem mem_proposed :
    region ∈ proposed specs files entries ↔ ∃ e ∈ entries, regionOf specs files e = some region :=
  mem_filterMap

theorem language_of_proposed (member : region ∈ proposed specs files entries) :
    files.lookup region.path = some region.language := by
  obtain ⟨e, -, proposes⟩ := mem_proposed.mp member
  have fields := regionOf_eq_some proposes
  rw [fields.path]
  exact fields.language

private theorem function_ne_empty (member : region ∈ proposed specs files entries) :
    region.function ≠ some "" := by
  obtain ⟨e, -, proposes⟩ := mem_proposed.mp member
  rw [(regionOf_eq_some proposes).function]
  split
  next => decide
  next =>
    intro empty
    -- the entry's own name is filtered by its being non-empty
    have kept := Option.eq_some_of_filter_eq_some empty
    have named := Option.filter_eq_some_iff.mp kept
    simp at named

/-- A region that is not dropped for a named one of its file. -/
def Survives (regions : List ScanRegion) (region : ScanRegion) : Prop :=
  region.function.isSome = true ∨ ∀ other ∈ regions, other.path = region.path → other.function = none

abbrev TopOf (specs : Specs) (files : List (String × String)) (entries : List Entry) :
    ScanRegion → Prop :=
  Top keyOf ScanRegion.rank (proposed specs files entries)

theorem top_of_mem_bestOf {key : Key} (held : (key, region) ∈ bestOf specs files entries) :
    keyOf region = key ∧ TopOf specs files entries region :=
  top_of_mem_champions held

variable {path : String}

private theorem mem_namedPaths :
    path ∈ namedPaths (bestOf specs files entries) ↔
      ∃ region ∈ proposed specs files entries, region.path = path ∧ region.function.isSome = true := by
  simp only [namedPaths, mem_map, mem_filter]
  constructor
  · rintro ⟨⟨key, region⟩, ⟨held, named⟩, rfl⟩
    obtain ⟨same, top⟩ := top_of_mem_bestOf held
    cases same
    exact ⟨region, top.1, rfl, named⟩
  · rintro ⟨region, member, rfl, named⟩
    obtain ⟨champion, held⟩ := @exists_champion _ _ _ _ keyOf ScanRegion.rank _ _ region member
    exact ⟨(keyOf region, champion), ⟨held, named⟩, rfl⟩

theorem mem_handlerRegions :
    region ∈ handlerRegions (bestOf specs files entries) ↔
      (keyOf region, region) ∈ bestOf specs files entries ∧
        Survives (proposed specs files entries) region := by
  have survives : ∀ key : Key,
      (key.2.isSome || decide (key.1 ∉ namedPaths (bestOf specs files entries))) = true ↔
        (key.2.isSome = true ∨ ∀ other ∈ proposed specs files entries,
          other.path = key.1 → other.function = none) := by
    intro key
    rw [Bool.or_eq_true, decide_eq_true_eq, mem_namedPaths]
    -- only the second half of the test mentions the named paths
    apply or_congr_right
    constructor
    · intro none_ other member same
      by_contra named
      exact none_ ⟨other, member, same, Option.isSome_iff_ne_none.mpr named⟩
    · rintro all ⟨other, member, same, named⟩
      rw [all other member same] at named
      cases named
  simp only [handlerRegions, mem_map, mem_filter, survives]
  constructor
  · rintro ⟨⟨key, champion⟩, ⟨held, kept⟩, rfl⟩
    have same := (top_of_mem_bestOf held).1
    cases same
    exact ⟨held, kept⟩
  · rintro ⟨held, kept⟩
    exact ⟨(keyOf region, region), ⟨held, kept⟩, rfl⟩

theorem top_of_mem_handlerRegions (member : region ∈ handlerRegions (bestOf specs files entries)) :
    TopOf specs files entries region :=
  (top_of_mem_bestOf (mem_handlerRegions.mp member).1).2

theorem exists_handlerRegion (member : region ∈ proposed specs files entries)
    (survives : Survives (proposed specs files entries) region) :
    ∃ champion ∈ handlerRegions (bestOf specs files entries), keyOf champion = keyOf region := by
  obtain ⟨champion, held⟩ := @exists_champion _ _ _ _ keyOf ScanRegion.rank _ _ region member
  have same := (top_of_mem_bestOf held).1
  refine ⟨champion, mem_handlerRegions.mpr ⟨same.symm ▸ held, ?_⟩, same⟩
  obtain ⟨path, function⟩ := Prod.mk.inj same
  rw [Survives, path, function]
  exact survives

theorem nodup_handlerRegions :
    ((handlerRegions (bestOf specs files entries)).map keyOf).Nodup := by
  have keys : ((bestOf specs files entries).map fun entry => keyOf entry.2) =
      Dicts.keys (bestOf specs files entries) := by
    apply map_congr_left
    intro entry held
    exact (top_of_mem_bestOf held).1
  have distinct : (Dicts.keys (bestOf specs files entries)).Nodup := nodup_champions
  rw [← keys] at distinct
  rw [handlerRegions, map_map]
  exact distinct.sublist (filter_sublist.map _)

def moduleRegion (specs : Specs) (path language : String) : ScanRegion where
  path := path
  function := some moduleScope
  language := language
  families := specs.families language false
  rank := 3 / 20
  source := .moduleScope

def fileRegion (specs : Specs) (path language : String) : ScanRegion where
  path := path
  function := none
  language := language
  families := specs.families language false
  rank := 1 / 10
  source := .fileFallback

def LacksModule (regions : List ScanRegion) (path : String) : Prop :=
  (∃ region ∈ regions, region.path = path ∧ region.function.isSome = true) ∧
    ∀ region ∈ regions, region.path = path → region.function ≠ some moduleScope

variable {regions : List ScanRegion}

theorem mem_moduleRegions :
    region ∈ moduleRegions specs files regions ↔ ∃ path language,
      files.lookup path = some language ∧ specs.families language false ≠ [] ∧
        LacksModule regions path ∧ region = moduleRegion specs path language := by
  simp only [moduleRegions, mem_filterMap, mem_sortedSet, mem_filter, mem_map,
    decide_eq_true_eq, LacksModule]
  constructor
  · rintro ⟨path, ⟨⟨scoped_, ⟨member, named⟩, rfl⟩, lacks⟩, found⟩
    cases known : files.lookup scoped_.path with
    | none => simp [known] at found
    | some language =>
      simp only [known, Option.ite_none_left_eq_some, Option.some.injEq] at found
      refine ⟨scoped_.path, language, known, found.1, ⟨⟨scoped_, member, rfl, named⟩, ?_⟩,
        found.2.symm⟩
      intro other inside same module_
      exact lacks ⟨other, ⟨inside, module_⟩, same⟩
  · rintro ⟨path, language, known, some_, ⟨⟨scoped_, member, rfl, named⟩, lacks⟩, rfl⟩
    refine ⟨scoped_.path, ⟨⟨scoped_, ⟨member, named⟩, rfl⟩, ?_⟩, ?_⟩
    · rintro ⟨other, ⟨inside, module_⟩, same⟩
      exact lacks other inside same module_
    · simp only [known, if_neg some_]
      rfl

theorem mem_fallbackRegions :
    region ∈ fallbackRegions specs files regions ↔ ∃ path language,
      (path, language) ∈ files ∧ specs.families language false ≠ [] ∧
        (∀ other ∈ regions, other.path ≠ path) ∧ region = fileRegion specs path language := by
  simp only [fallbackRegions, mem_filterMap, mem_filter, mem_map, decide_eq_true_eq]
  constructor
  · rintro ⟨⟨path, language⟩, ⟨member, outside⟩, found⟩
    simp only [Option.ite_none_left_eq_some, Option.some.injEq] at found
    exact ⟨path, language, member, found.1,
      fun other inside same => outside ⟨other, inside, same⟩, found.2.symm⟩
  · rintro ⟨path, language, member, some_, outside, rfl⟩
    refine ⟨(path, language), ⟨member, ?_⟩, if_neg some_⟩
    rintro ⟨other, inside, same⟩
    exact outside other inside same

theorem map_filterMap_sublist {α β γ : Type} {f : α → Option β} {g : β → γ} {h : α → γ}
    (same : ∀ a b, f a = some b → g b = h a) (l : List α) :
    ((l.filterMap f).map g).Sublist (l.map h) := by
  induction l with
  | nil => exact .slnil
  | cons a l ih =>
    rw [filterMap_cons, map_cons]
    cases found : f a with
    | none => exact ih.cons _
    | some b =>
      rw [map_cons, same a b found]
      exact ih.cons_cons _

theorem nodup_of_paths (distinct : (regions.map (·.path)).Nodup) : (regions.map keyOf).Nodup := by
  have paths : regions.map (·.path) = (regions.map keyOf).map (·.1) := by
    rw [map_map]
    rfl
  rw [paths] at distinct
  exact distinct.of_map _

theorem nodup_moduleRegions : ((moduleRegions specs files regions).map keyOf).Nodup := by
  apply nodup_of_paths
  have part := map_filterMap_sublist (f := fun path : String => match files.lookup path with
    | none => none
    | some language =>
      if specs.families language false = [] then none
      else some (moduleRegion specs path language)) (g := ScanRegion.path) (h := id) ?_
    (sortedSet (((regions.filter (·.function.isSome)).map (·.path)).filter
      (· ∉ (regions.filter (·.function = some moduleScope)).map (·.path))))
  · rw [map_id] at part
    exact (nodup_sortedSet _).sublist part
  · intro path region found
    split at found
    next => cases found
    next =>
      rw [Option.ite_none_left_eq_some] at found
      cases found.2
      rfl

private theorem nodup_fallbackRegions (distinct : (Dicts.keys files).Nodup) :
    ((fallbackRegions specs files regions).map keyOf).Nodup := by
  apply nodup_of_paths
  have part := map_filterMap_sublist (f := fun entry : String × String =>
      if specs.families entry.2 false = [] then none
      else some (fileRegion specs entry.1 entry.2)) (g := ScanRegion.path) (h := Prod.fst) ?_
    (files.filter (·.1 ∉ regions.map (·.path)))
  · exact (distinct.sublist (filter_sublist.map _)).sublist part
  · intro entry region found
    rw [Option.ite_none_left_eq_some] at found
    cases found.2
    rfl

theorem mem_plan :
    region ∈ plan specs files entries ↔
      (region ∈ handlerRegions (bestOf specs files entries) ∨
        region ∈ moduleRegions specs files (handlerRegions (bestOf specs files entries))) ∨
      region ∈ fallbackRegions specs files (handlerRegions (bestOf specs files entries) ++
        moduleRegions specs files (handlerRegions (bestOf specs files entries))) := by
  rw [plan, mem_append, mem_append]

theorem nodup_plan (specs : Specs) (entries : List Entry) (distinct : (Dicts.keys files).Nodup) :
    ((plan specs files entries).map keyOf).Nodup := by
  rw [plan, map_append, map_append]
  refine nodup_append.mpr ⟨nodup_append.mpr ⟨nodup_handlerRegions, nodup_moduleRegions, ?_⟩,
    nodup_fallbackRegions distinct, ?_⟩
  · rintro key first _ second rfl
    obtain ⟨handler, inside, rfl⟩ := mem_map.mp first
    obtain ⟨region, among, same⟩ := mem_map.mp second
    obtain ⟨path, language, -, -, lacks, rfl⟩ := mem_moduleRegions.mp among
    obtain ⟨samePath, sameFunction⟩ := Prod.mk.inj same
    exact lacks.2 handler inside samePath.symm sameFunction.symm
  · rintro key first _ second rfl
    obtain ⟨region, among, same⟩ := mem_map.mp second
    obtain ⟨path, language, -, -, outside, rfl⟩ := mem_fallbackRegions.mp among
    rw [← map_append] at first
    obtain ⟨other, inside, rfl⟩ := mem_map.mp first
    exact outside other inside (Prod.mk.inj same).1.symm

private theorem function_ne_empty_of_mem_plan (member : region ∈ plan specs files entries) :
    region.function ≠ some "" := by
  rcases mem_plan.mp member with (member | member) | member
  · exact function_ne_empty (top_of_mem_handlerRegions member).1
  · obtain ⟨path, language, -, -, -, rfl⟩ := mem_moduleRegions.mp member
    simp [moduleRegion, moduleScope]
  · obtain ⟨path, language, -, -, -, rfl⟩ := mem_fallbackRegions.mp member
    simp [fileRegion]

/-- A file is covered by one region of its own, or by functions and the code outside them. -/
def Covered (regions : List ScanRegion) (path : String) : Prop :=
  (∃ region ∈ regions, region.path = path ∧ region.function = none ∧
    ∀ other ∈ regions, other.path = path → other = region) ∨
  ((∃! region, region ∈ regions ∧ region.path = path ∧ region.function = some moduleScope) ∧
    ∀ region ∈ regions, region.path = path → region.function.isSome = true)

variable {other : ScanRegion}

theorem eq_of_keyOf (distinct : (regions.map keyOf).Nodup)
    (member : region ∈ regions) (inside : other ∈ regions) (same : keyOf other = keyOf region) :
    other = region :=
  inj_on_of_nodup_map distinct inside member same

theorem nameless_handlerRegion
    (member : region ∈ handlerRegions (bestOf specs files entries)) (nameless : region.function = none)
    (inside : other ∈ handlerRegions (bestOf specs files entries)) (same : other.path = region.path) :
    other = region := by
  have survives := (mem_handlerRegions.mp member).2
  have proposes := (top_of_mem_handlerRegions inside).1
  have none_ : other.function = none := by
    rcases survives with named | all
    · rw [nameless] at named
      cases named
    · exact all other proposes same
  exact eq_of_keyOf nodup_handlerRegions member inside
    (Prod.ext same (none_.trans nameless.symm))

section
variable (inside : handler ∈ handlerRegions (bestOf specs files entries))
include inside

theorem not_fallback_of_handler
    (among : region ∈ fallbackRegions specs files (handlerRegions (bestOf specs files entries) ++
      moduleRegions specs files (handlerRegions (bestOf specs files entries)))) :
    region.path ≠ handler.path := by
  obtain ⟨path, language, -, -, outside, rfl⟩ := mem_fallbackRegions.mp among
  exact fun same => outside handler (mem_append_left _ inside) same.symm

private theorem covered_of_nameless
    (nameless : handler.function = none) : Covered (plan specs files entries) handler.path := by
  refine .inl ⟨handler, mem_plan.mpr (.inl (.inl inside)), rfl, nameless, fun other among same => ?_⟩
  rcases mem_plan.mp among with (among | among) | among
  · exact nameless_handlerRegion inside nameless among same
  · -- a module region needs a named handler region of the file, and this one is not named
    obtain ⟨path, language, -, -, ⟨⟨scoped_, within_, rfl, function⟩, -⟩, rfl⟩ :=
      mem_moduleRegions.mp among
    rw [nameless_handlerRegion inside nameless within_ same, nameless] at function
    cases function
  · exact absurd same (not_fallback_of_handler inside among)

private theorem named_of_handler
    (named : handler.function.isSome = true) (among : region ∈ plan specs files entries)
    (same : region.path = handler.path) : region.function.isSome = true := by
  rcases mem_plan.mp among with (among | among) | among
  · by_contra nameless
    rw [Option.not_isSome_iff_eq_none] at nameless
    rw [nameless_handlerRegion among nameless inside same.symm, nameless] at named
    cases named
  · obtain ⟨path, language, -, -, -, rfl⟩ := mem_moduleRegions.mp among
    rfl
  · exact absurd same (not_fallback_of_handler inside among)

end

section
variable (distinct : (Dicts.keys files).Nodup)
include distinct

private theorem covered_of_named
    (known : files.lookup handler.path = some language) (facts : specs.families language false ≠ [])
    (inside : handler ∈ handlerRegions (bestOf specs files entries))
    (named : handler.function.isSome = true) : Covered (plan specs files entries) handler.path := by
  have unique : ∀ region ∈ plan specs files entries, region.path = handler.path →
      region.function = some moduleScope →
      ∃! region, region ∈ plan specs files entries ∧ region.path = handler.path ∧
        region.function = some moduleScope := by
    intro region among same module_
    refine ⟨region, ⟨among, same, module_⟩, ?_⟩
    rintro other ⟨inside, there, function⟩
    exact eq_of_keyOf (nodup_plan specs entries distinct) among inside
      (Prod.ext (there.trans same.symm) (function.trans module_.symm))
  refine .inr ⟨?_, fun region => named_of_handler inside named⟩
  -- the region of the module body is an entry's, where one is a module marker, or it is added
  by_cases marked : ∃ region ∈ handlerRegions (bestOf specs files entries),
      region.path = handler.path ∧ region.function = some moduleScope
  · obtain ⟨region, among, same, module_⟩ := marked
    exact unique region (mem_plan.mpr (.inl (.inl among))) same module_
  · refine unique (moduleRegion specs handler.path language)
      (mem_plan.mpr (.inl (.inr (mem_moduleRegions.mpr ?_)))) rfl rfl
    have lacks : LacksModule (handlerRegions (bestOf specs files entries)) handler.path :=
      ⟨⟨handler, inside, rfl, named⟩,
        fun region among same module_ => marked ⟨region, among, same, module_⟩⟩
    exact ⟨handler.path, language, known, facts, lacks, rfl⟩

private theorem covered_of_unhandled
    (file : (path, language) ∈ files) (facts : specs.families language false ≠ [])
    (unhandled : ∀ handler ∈ handlerRegions (bestOf specs files entries), handler.path ≠ path) :
    Covered (plan specs files entries) path := by
  -- module regions stand only in files with a handler region
  have outside : ∀ other ∈ handlerRegions (bestOf specs files entries) ++
      moduleRegions specs files (handlerRegions (bestOf specs files entries)),
      other.path ≠ path := by
    intro other among same
    rcases mem_append.mp among with among | among
    · exact unhandled other among same
    · obtain ⟨own, language, -, -, ⟨⟨scoped_, inside, there, -⟩, -⟩, rfl⟩ :=
        mem_moduleRegions.mp among
      exact unhandled scoped_ inside (there.trans same)
  have member : fileRegion specs path language ∈ plan specs files entries :=
    mem_plan.mpr (.inr (mem_fallbackRegions.mpr ⟨path, language, file, facts, outside, rfl⟩))
  refine .inl ⟨fileRegion specs path language, member, rfl, rfl, fun other among same => ?_⟩
  rcases mem_plan.mp among with inside | inside
  · exact absurd same (outside other (mem_append.mpr inside))
  · obtain ⟨own, language, -, -, -, rfl⟩ := mem_fallbackRegions.mp inside
    exact eq_of_keyOf (nodup_plan specs entries distinct) member among (Prod.ext same rfl)

private theorem covered_plan
    (file : (path, language) ∈ files) (facts : specs.families language false ≠ []) :
    Covered (plan specs files entries) path := by
  by_cases handled : ∃ handler ∈ handlerRegions (bestOf specs files entries), handler.path = path
  · obtain ⟨handler, inside, rfl⟩ := handled
    cases named : handler.function with
    | none => exact covered_of_nameless inside named
    | some function =>
      exact covered_of_named distinct (lookup_of_nodup distinct file) facts inside (by simp [named])
  · exact covered_of_unhandled distinct file facts fun handler inside same =>
      handled ⟨handler, inside, same⟩

end

/-- The entries of a function that share its highest rank propose one region. -/
def Alike (specs : Specs) (files : List (String × String)) (entries : List Entry) : Prop :=
  ∀ first second, TopOf specs files entries first → TopOf specs files entries second →
    keyOf first = keyOf second → Survives (proposed specs files entries) first → first = second

section Order
variable {others : List Entry}

theorem mem_proposed_congr (specs : Specs) (files : List (String × String))
    (same : ∀ e, e ∈ others ↔ e ∈ entries) (region : ScanRegion) :
    region ∈ proposed specs files others ↔ region ∈ proposed specs files entries := by
  simp only [mem_proposed, same]

variable {left right : List ScanRegion}

theorem survives_congr (same : ∀ r, r ∈ left ↔ r ∈ right)
    (region : ScanRegion) : Survives left region ↔ Survives right region := by
  simp only [Survives, same]

theorem Alike.congr (same : ∀ e, e ∈ others ↔ e ∈ entries) (alike : Alike specs files entries) :
    Alike specs files others := by
  have proposes := mem_proposed_congr specs files same
  intro first second topF topS key survives
  exact alike first second ((Top.congr proposes first).mp topF) ((Top.congr proposes second).mp topS)
    key ((survives_congr proposes first).mp survives)

theorem Alike.handlers_subset (same : ∀ e, e ∈ others ↔ e ∈ entries) (alike : Alike specs files entries)
    (member : region ∈ handlerRegions (bestOf specs files others)) :
    region ∈ handlerRegions (bestOf specs files entries) := by
  have proposes := mem_proposed_congr specs files same
  have top := (Top.congr proposes region).mp (top_of_mem_handlerRegions member)
  have survives := (survives_congr proposes region).mp (mem_handlerRegions.mp member).2
  -- in the other order some region holds the same key; by `alike` it is this one
  obtain ⟨champion, inside, key⟩ := exists_handlerRegion top.1 survives
  rw [alike region champion top (top_of_mem_handlerRegions inside) key.symm survives]
  exact inside

private theorem moduleRegions_congr (specs : Specs) (files : List (String × String))
    (same : ∀ r, r ∈ left ↔ r ∈ right) :
    moduleRegions specs files left = moduleRegions specs files right := by
  have paths : ∀ kind : ScanRegion → Bool, ∀ path : String,
      path ∈ (left.filter kind).map (·.path) ↔ path ∈ (right.filter kind).map (·.path) := by
    intro kind path
    simp only [mem_map, mem_filter, same]
  have sets : sortedSet (((left.filter (·.function.isSome)).map (·.path)).filter
      (· ∉ (left.filter (·.function = some moduleScope)).map (·.path))) =
      sortedSet (((right.filter (·.function.isSome)).map (·.path)).filter
        (· ∉ (right.filter (·.function = some moduleScope)).map (·.path))) := by
    rw [sortedSet_eq_iff]
    intro path
    rw [mem_filter, mem_filter, decide_eq_true_eq, decide_eq_true_eq, paths, paths]
  rw [moduleRegions, moduleRegions, sets]

private theorem fallbackRegions_congr (specs : Specs) (files : List (String × String))
    (same : ∀ r, r ∈ left ↔ r ∈ right) :
    fallbackRegions specs files left = fallbackRegions specs files right := by
  have sets : files.filter (·.1 ∉ left.map (·.path)) = files.filter (·.1 ∉ right.map (·.path)) := by
    apply filter_congr
    intro entry _
    simp only [mem_map, same]
  rw [fallbackRegions, fallbackRegions, sets]

theorem Alike.plan_perm (same : ∀ e, e ∈ others ↔ e ∈ entries) (alike : Alike specs files entries) :
    (plan specs files others).Perm (plan specs files entries) := by
  have handlers : ∀ region, region ∈ handlerRegions (bestOf specs files others) ↔
      region ∈ handlerRegions (bestOf specs files entries) := by
    intro region
    exact ⟨alike.handlers_subset same,
      (alike.congr same).handlers_subset fun e => (same e).symm⟩
  have modules := moduleRegions_congr specs files handlers
  have perm : (handlerRegions (bestOf specs files others)).Perm
      (handlerRegions (bestOf specs files entries)) :=
    (perm_ext_iff_of_nodup nodup_handlerRegions.of_map nodup_handlerRegions.of_map).mpr handlers
  have within : ∀ region,
      region ∈ handlerRegions (bestOf specs files others) ++
        moduleRegions specs files (handlerRegions (bestOf specs files others)) ↔
      region ∈ handlerRegions (bestOf specs files entries) ++
        moduleRegions specs files (handlerRegions (bestOf specs files entries)) := by
    intro region
    rw [mem_append, mem_append, handlers, modules]
  rw [plan, plan, fallbackRegions_congr specs files within, modules]
  exact (perm.append_right _).append_right _

end Order

section Sorted
variable {targets : List Target} {shipped : Option (List String)}

theorem keyOf_mark (region : ScanRegion) : keyOf (region.mark shipped) = keyOf region := by
  cases shipped <;> rfl

theorem families_mark (region : ScanRegion) : (region.mark shipped).families = region.families := by
  cases shipped <;> rfl

theorem perm_regionsFor :
    (regionsFor specs entries targets shipped).Perm
      ((plan specs (byPath targets) entries).map (ScanRegion.mark shipped)) :=
  perm_insertionSort _ _

theorem mem_regionsFor :
    region ∈ regionsFor specs entries targets shipped ↔
      ∃ planned ∈ plan specs (byPath targets) entries, planned.mark shipped = region := by
  rw [perm_regionsFor.mem_iff, mem_map]

theorem nodup_byPath (targets : List Target) : (Dicts.keys (byPath targets)).Nodup :=
  Dicts.nodup_ofEntries _

theorem nodup_regionsFor : ((regionsFor specs entries targets shipped).map keyOf).Nodup := by
  have keys : (regionsFor specs entries targets shipped).map keyOf |>.Perm
      ((plan specs (byPath targets) entries).map keyOf) := by
    refine (perm_regionsFor.map keyOf).trans (List.Perm.of_eq ?_)
    rw [map_map]
    exact map_congr_left fun region _ => keyOf_mark region
  exact keys.nodup_iff.mpr (nodup_plan specs entries (nodup_byPath targets))

theorem function_ne_empty_of_mem (member : region ∈ regionsFor specs entries targets shipped) :
    region.function ≠ some "" := by
  obtain ⟨planned, inside, rfl⟩ := mem_regionsFor.mp member
  have same : (planned.mark shipped).function = planned.function :=
    congrArg (·.2) (keyOf_mark planned)
  rw [same]
  exact function_ne_empty_of_mem_plan inside

private theorem keyOf_of_sortKey {first second : ScanRegion} (emptyF : first.function ≠ some "")
    (emptyS : second.function ≠ some "") (same : sortKey first = sortKey second) :
    keyOf first = keyOf second := by
  -- the key ends with the path and the function, `""` where there is none
  have rest := congrArg (fun key => ofLex (ofLex (ofLex key).2).2) same
  obtain ⟨path, function⟩ := Prod.mk.inj rest
  refine Prod.ext path ?_
  cases own : first.function <;> cases other : second.function <;>
    simp_all [keyOf]

private theorem regionsFor_eq_of_perm {others : List Entry} {shipped : Option (List String)}
    (perm : (plan specs (byPath targets) others).Perm (plan specs (byPath targets) entries)) :
    regionsFor specs others targets shipped = regionsFor specs entries targets shipped := by
  refine List.Perm.eq_of_pairwise (fun a b memberA memberB le ge => ?_)
    (pairwise_insertionSort _ _) (pairwise_insertionSort _ _)
    (perm_regionsFor.trans ((perm.map _).trans perm_regionsFor.symm))
  have inside : a ∈ regionsFor specs entries targets shipped :=
    (perm_regionsFor.trans ((perm.map _).trans perm_regionsFor.symm)).mem_iff.mp memberA
  exact eq_of_keyOf nodup_regionsFor memberB inside
    (keyOf_of_sortKey (function_ne_empty_of_mem inside) (function_ne_empty_of_mem memberB)
      (le_antisymm le ge))

theorem Covered.mark (covered : Covered (plan specs (byPath targets) entries) path) :
    Covered (regionsFor specs entries targets shipped) path := by
  have inside : ∀ {planned}, planned ∈ plan specs (byPath targets) entries →
      planned.mark shipped ∈ regionsFor specs entries targets shipped :=
    fun member => mem_regionsFor.mpr ⟨_, member, rfl⟩
  have fields : ∀ planned : ScanRegion, (planned.mark shipped).path = planned.path ∧
      (planned.mark shipped).function = planned.function :=
    fun planned => Prod.mk.inj (keyOf_mark planned)
  -- marking changes neither the path nor the function of a region
  rcases covered with ⟨region, member, same, nameless, only⟩ |
    ⟨⟨region, ⟨member, same, module_⟩, -⟩, named⟩
  · refine .inl ⟨_, inside member, (fields region).1.trans same, (fields region).2.trans nameless, ?_⟩
    intro other among there
    obtain ⟨planned, listed, rfl⟩ := mem_regionsFor.mp among
    rw [only planned listed ((fields planned).1.symm.trans there)]
  · refine .inr ⟨⟨_, ⟨inside member, (fields region).1.trans same,
      (fields region).2.trans module_⟩, ?_⟩, fun other among there => ?_⟩
    · rintro other ⟨among, there, function⟩
      refine eq_of_keyOf nodup_regionsFor (inside member) among (Prod.ext ?_ ?_)
      · exact there.trans ((fields region).1.trans same).symm
      · exact function.trans ((fields region).2.trans module_).symm
    · obtain ⟨planned, listed, rfl⟩ := mem_regionsFor.mp among
      rw [(fields planned).2]
      exact named planned listed ((fields planned).1.symm.trans there)

end Sorted

/-- The regions of some entries and targets are the same in every order of the entries, no two share
path and function, every file with facts is covered, and a function that an entry reaches without a
contract that declares it open keeps the families of authorization. -/
structure PlannedWell (specs : Specs) (entries : List Entry) (targets : List Target)
    (shipped : Option (List String)) : Prop where
  order : ∀ others : List Entry, others.Perm entries →
    regionsFor specs others targets shipped = regionsFor specs entries targets shipped
  distinct : ((regionsFor specs entries targets shipped).map keyOf).Nodup
  covered : ∀ path language, (path, language) ∈ byPath targets →
    specs.families language false ≠ [] → Covered (regionsFor specs entries targets shipped) path
  guarded : ∀ e ∈ entries, e.Guarded → ∀ language, (byPath targets).lookup e.path = some language →
    ∀ family ∈ specs.dominance language,
      ∃ region ∈ regionsFor specs entries targets shipped,
        keyOf region = (e.path, e.function) ∧ family ∈ region.families

/-- Where some entry of a function is not declared open, the highest ranked ones have the families of
authorization. -/
def KeepsGuards (specs : Specs) (files : List (String × String)) (entries : List Entry) : Prop :=
  ∀ e ∈ entries, e.Guarded → ∀ region, TopOf specs files entries region →
    keyOf region = (e.path, e.function) → ∀ family ∈ specs.dominance region.language,
      family ∈ region.families

section Iff
variable {targets : List Target} {shipped : Option (List String)}

private theorem exists_order_of_top (top : TopOf specs files entries region)
    (survives : Survives (proposed specs files entries) region) :
    ∃ others : List Entry, others.Perm entries ∧ region ∈ plan specs files others := by
  obtain ⟨e, member, proposes⟩ := mem_proposed.mp top.1
  obtain ⟨before, after, rfl⟩ := append_of_mem member
  -- the entry is moved to the front, where nothing holds its key yet
  have perm : (e :: (before ++ after)).Perm (before ++ e :: after) := perm_middle.symm
  have same := mem_proposed_congr specs files fun e => perm.mem_iff (a := e)
  refine ⟨_, perm, mem_plan.mpr (.inl (.inl (mem_handlerRegions.mpr ⟨?_, ?_⟩)))⟩
  · have first : proposed specs files (e :: (before ++ after)) =
        region :: proposed specs files (before ++ after) := by
      rw [proposed, filterMap_cons_some proposes]
      rfl
    have top' := (Top.congr same region).mpr top
    rw [first] at top'
    rw [bestOf, first]
    exact mem_champions_cons top'
  · exact (survives_congr same region).mpr survives

private theorem mark_injective {first second : ScanRegion} (unmarkedF : first.shipped = true)
    (unmarkedS : second.shipped = true) (same : first.mark shipped = second.mark shipped) :
    first = second := by
  cases shipped with
  | none => exact same
  | some paths =>
    obtain ⟨path, function, language, families, rank, source, -, kind, registry⟩ :=
      ScanRegion.mk.inj same
    cases first
    cases second
    simp_all

section
variable (well : PlannedWell specs entries targets shipped)
include well

theorem PlannedWell.mem_of_top (top : TopOf specs (byPath targets) entries region)
    (survives : Survives (proposed specs (byPath targets) entries) region) :
    region.mark shipped ∈ regionsFor specs entries targets shipped := by
  obtain ⟨others, perm, member⟩ := exists_order_of_top top survives
  rw [← well.order others perm]
  exact mem_regionsFor.mpr ⟨region, member, rfl⟩

theorem PlannedWell.alike :
    Alike specs (byPath targets) entries := by
  intro first second topF topS key survives
  have survivesS : Survives (proposed specs (byPath targets) entries) second := by
    obtain ⟨path, function⟩ := Prod.mk.inj key
    rw [Survives, ← path, ← function]
    exact survives
  have unmarked : ∀ region, TopOf specs (byPath targets) entries region → region.shipped = true := by
    intro region top
    obtain ⟨e, -, proposes⟩ := mem_proposed.mp top.1
    exact (regionOf_eq_some proposes).shipped
  refine mark_injective (unmarked first topF) (unmarked second topS)
    (eq_of_keyOf well.distinct (well.mem_of_top topS survivesS) (well.mem_of_top topF survives) ?_)
  rw [keyOf_mark, keyOf_mark, key]

theorem PlannedWell.keepsGuards :
    KeepsGuards specs (byPath targets) entries := by
  intro e member guarded region top key family required
  obtain ⟨path, function⟩ := Prod.mk.inj key
  have survives : Survives (proposed specs (byPath targets) entries) region := by
    rw [Survives, function]
    exact .inl guarded.1
  have known : (byPath targets).lookup e.path = some region.language :=
    path ▸ language_of_proposed top.1
  obtain ⟨kept, inside, keyK, offered⟩ := well.guarded e member guarded _ known family required
  have same : kept = region.mark shipped :=
    eq_of_keyOf well.distinct (well.mem_of_top top survives) inside
      (keyK.trans (key.symm.trans (keyOf_mark region).symm))
  rwa [same, families_mark] at offered

end

/-- Each guarded entry has a region with every family that its language requires. -/
theorem KeepsGuards.exists_region (keeps : KeepsGuards specs (byPath targets) entries)
    (member : e ∈ entries) (guarded : e.Guarded)
    (known : (byPath targets).lookup e.path = some language)
    (required : family ∈ specs.dominance language) :
    ∃ region ∈ regionsFor specs entries targets shipped,
      keyOf region = (e.path, e.function) ∧ family ∈ region.families := by
  obtain ⟨function, plain, closed⟩ := guarded
  have offered : family ∈ specs.families language (!e.declaredOpen) :=
    mem_families.mpr (.inr (.inr ⟨by rw [closed]; rfl, required⟩))
  obtain ⟨region, proposes⟩ := exists_regionOf known plain offered
  have fields := regionOf_eq_some proposes
  have own : keyOf region = (e.path, e.function) := by
    rw [keyOf, fields.path, fields.function, plain]
    rfl
  have survives : Survives (proposed specs (byPath targets) entries) region := by
    have named : region.function = e.function := congrArg (·.2) own
    rw [Survives, named]
    exact .inl function
  -- what stands for the function may be another entry's region, of the highest rank
  obtain ⟨champion, inside, key⟩ :=
    exists_handlerRegion (mem_proposed.mpr ⟨e, member, proposes⟩) survives
  have top := top_of_mem_handlerRegions inside
  have there : champion.path = e.path := congrArg (·.1) (key.trans own)
  have language_ : champion.language = language := by
    have found := language_of_proposed top.1
    rw [there, known] at found
    exact (Option.some.inj found).symm
  refine ⟨champion.mark shipped, mem_regionsFor.mpr ⟨champion, mem_plan.mpr (.inl (.inl inside)), rfl⟩,
    by rw [keyOf_mark, key, own], ?_⟩
  rw [families_mark]
  exact keeps e member ⟨function, plain, closed⟩ champion top (key.trans own) family
    (language_.symm ▸ required)

/-- The regions are planned well exactly if the entries of each function that share its highest rank
propose one region, which has the families of authorization where some entry is not declared open. -/
theorem plannedWell_iff (specs : Specs) (entries : List Entry) (targets : List Target)
    (shipped : Option (List String)) :
    PlannedWell specs entries targets shipped ↔
      Alike specs (byPath targets) entries ∧ KeepsGuards specs (byPath targets) entries := by
  constructor
  · exact fun well => ⟨well.alike, well.keepsGuards⟩
  · rintro ⟨alike, keeps⟩
    exact {
      order := fun others perm => regionsFor_eq_of_perm (alike.plan_perm fun e => perm.mem_iff)
      distinct := nodup_regionsFor
      covered := fun path language file facts => (covered_plan (nodup_byPath targets) file facts).mark
      guarded := fun e member guarded language known family required =>
        keeps.exists_region member guarded known required }

end Iff

def pythonSpecs : Specs where
  taint := fun _ => ["injection"]
  config := fun _ => ["config_secrets"]
  dominance := fun _ => ["access_control"]

def inferred : Entry where
  path := "app.py"
  functionName := some "show"
  kind := "route"
  accessLevel := "public"

def declared : Entry := { inferred with accessDeclared := true }

/-- Whichever of the two comes first decides whether the check is asked for. -/
theorem declared_first_not_plannedWell :
    ¬ PlannedWell pythonSpecs [declared, inferred] [⟨"app.py", "python"⟩] none := by
  intro well
  have same := well.order [inferred, declared] (List.Perm.swap _ _ _)
  revert same
  decide +kernel

end OpenUltraSast.Model.Regions
