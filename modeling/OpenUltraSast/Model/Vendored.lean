import Mathlib.Data.String.Basic
import OpenUltraSast.Library.Collections
import OpenUltraSast.Library.Regex

/-!
# Layout facts over a directory tree

The vendored patterns of the layout facts leave files out of the scan twice: the preprocessor asks
of each path whether a pattern matches it, and the frontend is given the directories to exclude.
-/

namespace OpenUltraSast.Model.Layout

open Text

structure LayoutFact where
  id : String
  vendored : List String
  tests : List String
  language : String

def slices (parts : List String) : List (List String) :=
  parts.tails.flatMap fun rest => rest.inits.filter (· ≠ [])

def rstripSlash (pattern : String) : String := rstripOf (· = '/') pattern

/-- `_matches(relative, patterns)`. -/
def matchesAny (relative : String) (patterns : List String) : Bool :=
  let parts := segments relative
  patterns.any fun pattern =>
    if endsWith pattern "/" then
      (slices parts).any fun slice => fnmatch ("/".intercalate slice) (rstripSlash pattern)
    else
      fnmatch relative pattern || fnmatch (parts.getLast?.getD "") pattern

def isVendored (relative : String) (facts : List LayoutFact) : Bool :=
  matchesAny relative (facts.flatMap (·.vendored))

structure Entry where
  path : List String
  firstLine : Option String
deriving DecidableEq

def Entry.isDir (e : Entry) : Bool := e.firstLine.isNone

def Entry.name (e : Entry) : String := e.path.getLast?.getD ""

/-- `path.relative_to(root).as_posix()`. -/
def Entry.relative (e : Entry) : String := "/".intercalate e.path

/-- What is below a root. Every entry but those of the root itself has its directory among them. -/
structure Tree where
  entries : List Entry
  proper : ∀ e ∈ entries, e.path ≠ []
  named : ∀ e ∈ entries, ∀ name ∈ e.path, name ≠ "" ∧ '/' ∉ name.toList
  apart : (entries.map (·.path)).Nodup
  closed : ∀ e ∈ entries, e.path.dropLast ≠ [] → ⟨e.path.dropLast, none⟩ ∈ entries

/-- `sorted(root.rglob("*"))`. -/
def Tree.sorted (tree : Tree) : List Entry :=
  tree.entries.insertionSort fun a b => a.path ≤ b.path

def vendoredNames (facts : List LayoutFact) : List String :=
  ((facts.flatMap (·.vendored)).filter (endsWith · "/")).map rstripSlash

/-- One path of the walk of `vendored_directories`. -/
def exclude (names found : List String) (e : Entry) : List String :=
  if !e.isDir || e.name ∉ names then found
  else if found.any fun seen => startsWith e.relative (seen ++ "/") then found
  else found ++ [e.relative]

def vendoredDirectories (tree : Tree) (facts : List LayoutFact) : List String :=
  tree.sorted.foldl (exclude (vendoredNames facts)) []

def languageByExtension : List (String × String) :=
  [(".c", "c"), (".cc", "cpp"), (".cpp", "cpp"), (".cxx", "cpp"), (".h", "c"), (".hpp", "cpp"),
    (".py", "python"), (".js", "javascript"), (".jsx", "javascript"), (".mjs", "javascript"),
    (".cjs", "javascript"), (".ts", "typescript"), (".tsx", "typescript"), (".go", "go"),
    (".rs", "rust"), (".java", "java"), (".groovy", "groovy"), (".tpl", "groovy"),
    (".kt", "kotlin"), (".rb", "ruby"), (".php", "php"), (".cs", "csharp"), (".swift", "swift"),
    (".sol", "solidity")]

def ignoredDirs : List String :=
  [".git", ".hg", ".svn", ".openultrasast", "__pycache__", "node_modules", ".venv", "venv"]

/-- `path.suffix`: what follows the last dot, unless it begins or ends the name. -/
def suffix (name : String) : String :=
  let after := name.toList.reverse.takeWhile (· ≠ '.')
  if after ≠ [] ∧ after.length + 1 < name.toList.length then
    String.ofList ('.' :: after.reverse)
  else ""

section Lower
variable (lower : String → String)

def detectLanguage (name line : String) : String :=
  match languageByExtension.lookup (lower (suffix name)) with
  | some language => language
  | none =>
    let first := lower (stripOf isSpace line)
    if startsWith first "#!" && contains first "python" then "python"
    else if startsWith first "#!" && contains first "node" then "javascript"
    else "unknown"

def Entry.isSource (e : Entry) : Bool :=
  e.firstLine.any fun line => detectLanguage lower e.name line ≠ "unknown"

def Entry.hasIgnoredDir (e : Entry) : Bool := e.path.dropLast.any (· ∈ ignoredDirs)

/-- `enumerate_source_files(root)`, where `isIgnored` is what the ignore file says of a path. -/
def enumerateSourceFiles (isIgnored : String → Bool) (facts : List LayoutFact) (tree : Tree) :
    List Entry :=
  (tree.entries.filter fun e =>
    !e.isDir && !e.hasIgnoredDir && !isIgnored e.relative && !isVendored e.relative facts &&
      e.isSource lower).insertionSort fun a b => a.relative ≤ b.relative

end Lower

end OpenUltraSast.Model.Layout

/-!
## What the targets and the graph leave out

The preprocessor matches every run of the segments of a path; the walk for the frontend compares
single directory names.
-/

namespace OpenUltraSast.Model.Layout

open Text List

def Under (directories : List String) (relative : String) : Prop :=
  ∃ directory ∈ directories, startsWith relative (directory ++ "/") = true

def Entry.Bears (names : List String) (e : Entry) : Prop := e.isDir = true ∧ e.name ∈ names

variable {e : Entry}

section Walk
variable {names : List String}

theorem exclude_of_not_bears (other : ¬ e.Bears names) (found : List String) :
    exclude names found e = found := by
  have skipped : (!e.isDir || decide (e.name ∉ names)) = true := by
    by_contra kept
    exact other (by simpa [Entry.Bears] using kept)
  rw [exclude, if_pos skipped]

theorem exclude_of_bears (bears : e.Bears names) (found : List String) :
    exclude names found e = found ∧ Under found e.relative ∨
      exclude names found e = found ++ [e.relative] := by
  have kept : ¬ (!e.isDir || decide (e.name ∉ names)) = true := by
    simpa [Entry.Bears] using bears
  rw [exclude, if_neg kept]
  split
  next covered => exact .inl ⟨rfl, by simpa [Under] using covered⟩
  next => exact .inr rfl

variable {found : List String} {directory : String}

theorem exclude_keeps (e : Entry)
    (member : directory ∈ found) : directory ∈ exclude names found e := by
  by_cases bears : e.Bears names
  · rcases exclude_of_bears bears found with ⟨same, -⟩ | more
    · rwa [same]
    · rw [more]
      exact mem_append_left _ member
  · rwa [exclude_of_not_bears bears]

theorem walk_keeps (entries : List Entry)
    (member : directory ∈ found) : directory ∈ entries.foldl (exclude names) found := by
  induction entries generalizing found with
  | nil => exact member
  | cons e rest ih => exact ih (exclude_keeps e member)

variable {entries : List Entry}

private theorem of_mem_walk (member : directory ∈ entries.foldl (exclude names) found) :
    directory ∈ found ∨ ∃ e ∈ entries, e.Bears names ∧ directory = e.relative := by
  induction entries generalizing found with
  | nil => exact .inl member
  | cons e rest ih =>
    rcases ih member with before | ⟨other, later, bears, rfl⟩
    · by_cases bears : e.Bears names
      · rcases exclude_of_bears bears found with ⟨same, -⟩ | more
        · exact .inl (same ▸ before)
        · rw [more, mem_append, mem_singleton] at before
          exact before.imp_right fun here => ⟨e, mem_cons_self, bears, here⟩
      · rw [exclude_of_not_bears bears] at before
        exact .inl before
    · exact .inr ⟨other, mem_cons_of_mem e later, bears, rfl⟩

private theorem walk_covers (member : e ∈ entries) (bears : e.Bears names)
    (found : List String) :
    e.relative ∈ entries.foldl (exclude names) found ∨
      Under (entries.foldl (exclude names) found) e.relative := by
  induction entries generalizing found with
  | nil => cases member
  | cons first rest ih =>
    rcases mem_cons.mp member with rfl | later
    · rcases exclude_of_bears bears found with ⟨-, directory, held, below⟩ | more
      · exact .inr ⟨directory, walk_keeps rest (exclude_keeps e held), below⟩
      · rw [foldl_cons, more]
        exact .inl (walk_keeps rest (by simp))
    · exact ih later _

end Walk

namespace Tree

variable (tree : Tree)

theorem mem_sorted (e : Entry) : e ∈ tree.sorted ↔ e ∈ tree.entries :=
  mem_insertionSort _

variable {tree}

theorem above {below : List String} : ∀ {front : List String} {e : Entry}, e ∈ tree.entries →
    front ≠ [] → below ≠ [] → e.path = front ++ below → ⟨front, none⟩ ∈ tree.entries := by
  induction below using List.reverseRecOn with
  | nil => intro _ _ _ _ empty; exact absurd rfl empty
  | append_singleton rest last ih =>
    intro front e member some_ _ path
    have cut : e.path.dropLast = front ++ rest := by
      rw [path, ← append_assoc, dropLast_concat]
    have parent : ⟨front ++ rest, none⟩ ∈ tree.entries := by
      rw [← cut]
      apply tree.closed e member
      rw [cut]
      simp [some_]
    by_cases ends : rest = []
    · rwa [ends, append_nil] at parent
    · exact ih parent some_ ends rfl

private theorem segments_relative (member : e ∈ tree.entries) : segments e.relative = e.path :=
  segments_join (fun name held => (tree.named e member name held).2) (tree.proper e member)

theorem startsWith_iff {d : Entry} (member : e ∈ tree.entries) (above : d ∈ tree.entries) :
    startsWith e.relative (d.relative ++ "/") = true ↔ ∃ rest ≠ [], e.path = d.path ++ rest :=
  startsWith_join_iff (fun name held => (tree.named e member name held).2)
    (fun name held => (tree.named d above name held).2) (tree.proper e member)
    (tree.proper d above)

end Tree

def BelowNamed (names path : List String) : Prop := ∃ name ∈ path.dropLast, name ∈ names

/-- A file is in a vendored directory exactly where its path goes below a vendored name. -/
theorem under_iff {tree : Tree} {facts : List LayoutFact} (member : e ∈ tree.entries) :
    Under (vendoredDirectories tree facts) e.relative ↔
      BelowNamed (vendoredNames facts) e.path := by
  constructor
  · rintro ⟨directory, found, below⟩
    rcases of_mem_walk found with none_ | ⟨d, inside, ⟨-, named⟩, rfl⟩
    · cases none_
    · have held := (tree.mem_sorted d).mp inside
      obtain ⟨rest, some_, path⟩ := (Tree.startsWith_iff member held).mp below
      refine ⟨d.name, ?_, named⟩
      have last : d.name ∈ d.path := by
        rw [Entry.name, List.getLast?_eq_some_getLast (tree.proper d held)]
        exact getLast_mem _
      rw [path, dropLast_append_of_ne_nil some_]
      exact mem_append_left _ last
  · rintro ⟨name, inside, named⟩
    obtain ⟨front, back, cut⟩ := append_of_mem inside
    have ends := dropLast_append_getLast (tree.proper e member)
    generalize e.path.getLast (tree.proper e member) = last at ends
    have path : e.path = (front ++ [name]) ++ (back ++ [last]) := by
      rw [← ends, cut]
      simp
    have held : ⟨front ++ [name], none⟩ ∈ tree.entries := tree.above member (by simp) (by simp) path
    have below : startsWith e.relative (Entry.relative ⟨front ++ [name], none⟩ ++ "/") = true :=
      (Tree.startsWith_iff member held).mpr ⟨_, by simp, path⟩
    have bears : Entry.Bears (vendoredNames facts) ⟨front ++ [name], none⟩ :=
      ⟨rfl, by simpa [Entry.name] using named⟩
    rcases walk_covers ((tree.mem_sorted _).mpr held) bears [] with found | ⟨d, found, above⟩
    · exact ⟨_, found, below⟩
    · -- the directory is itself below an excluded one, which the path is then below
      refine ⟨d, found, ?_⟩
      rw [startsWith, isPrefixOf_iff_prefix] at above below ⊢
      rw [String.toList_append] at below
      exact above.trans ((prefix_append _ _).trans below)

def Slashed (facts : List LayoutFact) : Prop :=
  ∀ fact ∈ facts, ∀ pattern ∈ fact.vendored, endsWith pattern "/" = true

/-- A run of segments that a pattern's directory name matches. -/
def Hit (names slice : List String) : Prop :=
  ∃ name ∈ names, fnmatch ("/".intercalate slice) name = true

theorem mem_slices {slice parts : List String} :
    slice ∈ slices parts ↔ slice ≠ [] ∧ slice <:+: parts := by
  simp only [slices, mem_flatMap, mem_tails, mem_filter, mem_inits,
    decide_eq_true_eq, infix_iff_prefix_suffix]
  constructor
  · rintro ⟨rest, ends, starts, some_⟩
    exact ⟨some_, rest, starts, ends⟩
  · rintro ⟨some_, rest, starts, ends⟩
    exact ⟨rest, ends, starts, some_⟩

theorem isVendored_iff {tree : Tree} {facts : List LayoutFact} (slashed : Slashed facts)
    (member : e ∈ tree.entries) :
    isVendored e.relative facts = true ↔
      ∃ slice, slice ≠ [] ∧ slice <:+: e.path ∧ Hit (vendoredNames facts) slice := by
  have all : (facts.flatMap (·.vendored)).filter (endsWith · "/") = facts.flatMap (·.vendored) := by
    rw [filter_eq_self]
    intro pattern held
    obtain ⟨fact, among, own⟩ := mem_flatMap.mp held
    exact slashed fact among pattern own
  rw [isVendored, matchesAny, Tree.segments_relative member, any_eq_true]
  constructor
  · rintro ⟨pattern, held, hit⟩
    rw [← all] at held
    rw [if_pos (mem_filter.mp held).2, any_eq_true] at hit
    obtain ⟨slice, inside, matched⟩ := hit
    obtain ⟨some_, part⟩ := mem_slices.mp inside
    exact ⟨slice, some_, part, _, mem_map_of_mem held, matched⟩
  · rintro ⟨slice, some_, part, name, named, matched⟩
    obtain ⟨pattern, held, rfl⟩ := mem_map.mp named
    obtain ⟨among, slashes⟩ := mem_filter.mp held
    refine ⟨pattern, among, ?_⟩
    rw [if_pos slashes, any_eq_true]
    exact ⟨slice, mem_slices.mpr ⟨some_, part⟩, matched⟩

/-- A match that takes in the name of the file itself. -/
def HitAtEnd (names path : List String) : Prop :=
  ∃ slice, slice ≠ [] ∧ slice <:+ path ∧ Hit names slice

/-- A match of directories above the file by more than the one name that the pattern spells: across
several segments, or through a special character. -/
def HitBeyond (names path : List String) : Prop :=
  ∃ slice, slice ≠ [] ∧ slice <:+: path.dropLast ∧
    ∃ name ∈ names, fnmatch ("/".intercalate slice) name = true ∧ slice ≠ [name]

/-- A directory above the file with a vendored name that matches itself. -/
def HitByName (names path : List String) : Prop :=
  ∃ name ∈ path.dropLast, name ∈ names ∧ fnmatch name name = true

private theorem infix_dropLast_or_suffix {slice path : List String} (part : slice <:+: path) :
    slice <:+: path.dropLast ∨ slice <:+ path := by
  obtain ⟨front, back, rfl⟩ := part
  rcases eq_nil_or_concat back with rfl | ⟨rest, last, rfl⟩
  · exact .inr ⟨front, by simp⟩
  · exact .inl ⟨front, rest, by simp [← append_assoc]⟩

theorem hit_iff {names path : List String} :
    (∃ slice, slice ≠ [] ∧ slice <:+: path ∧ Hit names slice) ↔
      HitAtEnd names path ∨ HitBeyond names path ∨ HitByName names path := by
  constructor
  · rintro ⟨slice, some_, part, name, named, matched⟩
    rcases infix_dropLast_or_suffix part with above | ends
    · by_cases spelled : slice = [name]
      · subst spelled
        refine .inr (.inr ⟨name, above.subset mem_cons_self, named, ?_⟩)
        simpa using matched
      · exact .inr (.inl ⟨slice, some_, above, name, named, matched, spelled⟩)
    · exact .inl ⟨slice, some_, ends, name, named, matched⟩
  · rintro (⟨slice, some_, ends, hit⟩ | ⟨slice, some_, above, name, named, matched, -⟩ |
      ⟨name, above, named, matched⟩)
    · exact ⟨slice, some_, ends.isInfix, hit⟩
    · exact ⟨slice, some_, above.trans ( dropLast_prefix path).isInfix, name, named, matched⟩
    · obtain ⟨front, back, cut⟩ := append_of_mem above
      have part : [name] <:+: path.dropLast := ⟨front, back, by simp [cut]⟩
      exact ⟨[name], by simp, part.trans ( dropLast_prefix path).isInfix, name, named,
        by simpa using matched⟩

section Alike
variable (lower : String → String) (isIgnored : String → Bool) (facts : List LayoutFact)
  (tree : Tree)

/-- A source file is vendored, and then no target, exactly where the frontend leaves it out. -/
def LeftOutAlike : Prop :=
  ∀ e ∈ tree.entries, e.isSource lower = true →
    (isVendored e.relative facts = true ↔ Under (vendoredDirectories tree facts) e.relative) ∧
      (isVendored e.relative facts = true → e ∉ enumerateSourceFiles lower isIgnored facts tree)

variable {isIgnored facts tree}

private theorem not_target_of_isVendored (vendored : isVendored e.relative facts = true) :
    e ∉ enumerateSourceFiles lower isIgnored facts tree := by
  simp [enumerateSourceFiles, mem_insertionSort, vendored]

/-- They leave out the same source files if and only if each match at the end of a path, or of more
than a name above it, has a directory with a vendored name above it as well, and no file below such
a directory is missed because the names it bears match nothing, themselves included. -/
theorem leftOutAlike_iff (slashed : Slashed facts) :
    LeftOutAlike lower isIgnored facts tree ↔
      ∀ e ∈ tree.entries, e.isSource lower = true →
        (HitAtEnd (vendoredNames facts) e.path ∨ HitBeyond (vendoredNames facts) e.path →
          BelowNamed (vendoredNames facts) e.path) ∧
        (BelowNamed (vendoredNames facts) e.path → HitByName (vendoredNames facts) e.path ∨
          HitAtEnd (vendoredNames facts) e.path ∨ HitBeyond (vendoredNames facts) e.path) := by
  have byName {path : List String} : HitByName (vendoredNames facts) path →
      BelowNamed (vendoredNames facts) path :=
    fun ⟨name, above, named, _⟩ => ⟨name, above, named⟩
  constructor
  · intro alike e member source
    obtain ⟨same, -⟩ := alike e member source
    rw [isVendored_iff slashed member, hit_iff, under_iff member] at same
    constructor
    · intro hit
      exact same.mp (hit.imp_right .inl)
    · intro below
      rcases same.mpr below with ends | beyond | spelled
      · exact .inr (.inl ends)
      · exact .inr (.inr beyond)
      · exact .inl spelled
  · intro proper e member source
    obtain ⟨more, fewer⟩ := proper e member source
    refine ⟨?_, not_target_of_isVendored lower⟩
    rw [isVendored_iff slashed member, hit_iff, under_iff member]
    constructor
    · rintro (ends | beyond | spelled)
      · exact more (.inl ends)
      · exact more (.inr beyond)
      · exact byName spelled
    · intro below
      rcases fewer below with spelled | ends | beyond
      · exact .inr (.inr spelled)
      · exact .inl ends
      · exact .inr (.inl beyond)

end Alike

def phpLayout : LayoutFact where
  id := "php_layout"
  vendored := ["vendor/", "node_modules/", "third_party/", "third-party/", "lib/vendor/"]
  tests := ["tests/", "test/", "spec/", "test-*.php", "*Test.php", "*.test.php", "*_test.php",
    "phpunit/"]
  language := "php"

def vendorScript : Entry := ⟨["bin", "vendor"], some "#!/usr/bin/env python3"⟩

def scriptTree : Tree where
  entries := [⟨["bin"], none⟩, vendorScript]
  proper := by decide
  named := by decide
  apart := by decide
  closed := by decide

theorem leftOutAlike_scriptTree :
    LeftOutAlike id (fun _ => false) [phpLayout] scriptTree ↔
      ∀ e ∈ scriptTree.entries, e.isSource id = true →
        (HitAtEnd (vendoredNames [phpLayout]) e.path ∨
            HitBeyond (vendoredNames [phpLayout]) e.path →
          BelowNamed (vendoredNames [phpLayout]) e.path) ∧
        (BelowNamed (vendoredNames [phpLayout]) e.path →
          HitByName (vendoredNames [phpLayout]) e.path ∨
          HitAtEnd (vendoredNames [phpLayout]) e.path ∨
          HitBeyond (vendoredNames [phpLayout]) e.path) :=
  leftOutAlike_iff id (by unfold Slashed; decide +kernel)

/-- The script is no target, and the frontend does not leave it out. -/
theorem script_not_leftOutAlike :
    ¬ ∀ (lower : String → String) (isIgnored : String → Bool) (facts : List LayoutFact)
      (tree : Tree), Slashed facts → LeftOutAlike lower isIgnored facts tree := by
  intro alike
  have slashed : Slashed [phpLayout] := by
    unfold Slashed
    decide +kernel
  have source : vendorScript.isSource id = true := by decide +kernel
  have vendored : isVendored vendorScript.relative [phpLayout] = true := by decide +kernel
  have none_ : vendoredDirectories scriptTree [phpLayout] = [] := by decide +kernel
  obtain ⟨directory, found, -⟩ := (alike id (fun _ => false) [phpLayout] scriptTree slashed
    vendorScript (by decide) source).1.mp vendored
  rw [none_] at found
  cases found

end OpenUltraSast.Model.Layout
