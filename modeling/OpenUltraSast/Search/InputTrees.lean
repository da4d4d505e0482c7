import Mathlib.Data.List.Lex
import Mathlib.Data.List.Perm.Subperm
import Mathlib.Data.String.Basic
import OpenUltraSast.Library.Joined
import OpenUltraSast.Library.Outcomes
import OpenUltraSast.Library.Sorting

/-!
# Input trees

The hash that the verifier takes of each of its inputs, and the changes of an input that leave it as it
was.
-/

namespace OpenUltraSast.Search.InputTrees

open List

/-- Where a link leads that resolves. -/
inductive Target where
  | escaping
  | special
  | file
  | directory (path : List String)
deriving DecidableEq

inductive Item where
  | directory
  | file (content : List UInt8)
  | link (text : String) (target : Option Target)
  | special (type : Nat)
deriving DecidableEq

namespace Item

/-- The bits of the mode that are no permissions. -/
def type : Item → Nat
  | directory => 0o040000
  | file _ => 0o100000
  | link .. => 0o120000
  | special type => type

def Plain : Item → Prop
  | directory | file _ => True
  | link .. | special _ => False

end Item

def utf8 (text : String) : List UInt8 := text.toList.flatMap String.utf8EncodeChar

structure Entry where
  path : List String
  permissions : Fin 4096
  item : Item
deriving DecidableEq

namespace Entry

/-- `st_mode`. -/
def mode (entry : Entry) : Nat := entry.item.type + entry.permissions

def content (entry : Entry) : List UInt8 :=
  match entry.item with
  | .file content => content
  | .link text _ => utf8 text
  | .directory | .special _ => []

/-- `str(path.relative_to(root))`. -/
def relative (entry : Entry) : String :=
  if entry.path = [] then "." else "/".intercalate entry.path

def text (entry : Entry) : List UInt8 :=
  utf8 entry.relative ++ utf8 (toString entry.mode) ++ entry.content

end Entry

/-- The name of a path in a directory. -/
def FileName (name : String) : Prop :=
  name ≠ "" ∧ name ≠ "." ∧ name ≠ ".." ∧ '/' ∉ name.toList

instance (name : String) : Decidable (FileName name) :=
  inferInstanceAs (Decidable (name ≠ "" ∧ name ≠ "." ∧ name ≠ ".." ∧ '/' ∉ name.toList))

structure Tree where
  permissions : Fin 4096
  entries : List Entry
  once : (entries.map Entry.path).Nodup
  named : ∀ entry ∈ entries, entry.path ≠ [] ∧ ∀ name ∈ entry.path, FileName name
  within : ∀ entry ∈ entries, entry.path.dropLast = [] ∨
    ∃ parent ∈ entries, parent.path = entry.path.dropLast ∧ parent.item = .directory

namespace Tree

variable (tree other : Tree)

def root : Entry := ⟨[], tree.permissions, .directory⟩

/-- `[root, *sorted(root.rglob("*"))]`. -/
def paths : List Entry := tree.root :: StableSort.sortBy Entry.path tree.entries

/-- Regular files and directories alone. -/
def Plain : Prop := ∀ entry ∈ tree.entries, entry.item.Plain

def Same : Prop :=
  tree.permissions = other.permissions ∧ ∀ entry, entry ∈ tree.entries ↔ entry ∈ other.entries

/-- The paths of one tree, from where the two listings part, are also read as those of the other. -/
def RunsTogether : Prop :=
  Joined.RunsInto Entry.text tree.paths other.paths ∨ Joined.RunsInto Entry.text other.paths tree.paths

def bytes : List UInt8 := tree.paths.flatMap Entry.text

end Tree

/-- What a path is that is to be hashed. -/
inductive Root where
  | link
  | file (content : List UInt8)
  | directory (tree : Tree)
  | other

/-- What has been fed, and `directory_edges` in the order in which they were added. -/
structure Fed where
  bytes : List UInt8 := []
  edges : List (List String × List String) := []

namespace Fed

def update (fed : Fed) (entry : Entry) : Fed := { fed with bytes := fed.bytes ++ entry.text }

def addEdge (fed : Fed) (parent target : List String) : Fed :=
  { fed with edges := fed.edges ++ [(parent, target)] }

end Fed

def feed (generatedLinks : Bool) (fed : Fed) (entry : Entry) : Except String Fed :=
  match entry.item, generatedLinks with
  | .link _ none, true => .error "dangling or cyclic build link"
  | .link _ (some .escaping), true => .error "build link escapes its tree"
  | .link _ (some .special), true => .error "build link targets a special file"
  | .link _ (some .file), true => .ok (fed.update entry)
  | .link _ (some (.directory target)), true =>
    .ok ((fed.update entry).addEdge entry.path.dropLast target)
  | .directory, _ =>
    if entry.path = [] then .ok (fed.update entry)
    else .ok ((fed.addEdge entry.path.dropLast entry.path).update entry)
  | .file _, _ => .ok (fed.update entry)
  | .link .., false | .special _, _ =>
    .error ("links and special files refused: " ++ entry.path.getLastD "")

section Visit

variable (edges : List (List String × List String))

/-- `directory_edges.get(directory, [])`. -/
def targets (directory : List String) : List (List String) :=
  (edges.filter (·.1 = directory)).map Prod.snd

def visit : Nat → List (List String) → List String → List (List String) →
    Except String (List (List String))
  -- deeper than there are directories, which no call goes
  | 0, _, _, _ => .error "maximum recursion depth exceeded"
  | fuel + 1, visiting, directory, visited =>
    if visiting.contains directory then .error "cyclic build directory link"
    else if visited.contains directory then .ok visited
    else do
      let visited ← (targets edges directory).foldlM
        (fun visited target => visit fuel (directory :: visiting) target visited) visited
      return directory :: visited

end Visit

variable (sha256 : List UInt8 → String)

/-- `_tree`, with the hash as hexadecimal digits. -/
def tree (generatedLinks : Bool) : Root → Except String String
  | .link => .error "input must not be a link"
  | .file content => .ok (sha256 content)
  | .other => .error "input must be a real directory or JSON file"
  | .directory found => do
    let fed ← found.paths.foldlM (feed generatedLinks) {}
    if generatedLinks then
      let _ ← visit fed.edges (fed.edges.length + 2) [] [] []
    return sha256 fed.bytes

/-- The inputs that are compared before and after a run, or what is held of each. -/
structure Watched (α : Type) where
  immutable : List α
  originals : List α
  products : α
  checkout : α
deriving DecidableEq

/-- What holds of each input and what becomes of it. -/
structure Watched.Each {α β : Type} (R : α → β → Prop) (before : Watched α) (after : Watched β) :
    Prop where
  immutable : List.Forall₂ R before.immutable after.immutable
  originals : List.Forall₂ R before.originals after.originals
  products : R before.products after.products
  checkout : R before.checkout after.checkout

/-- `initial`, `before`, `product_hash` and `checkout_hash`. -/
def hashes (inputs : Watched Root) : Except String (Watched String) := do
  let originals ← inputs.originals.mapM (tree sha256 false)
  let immutable ← inputs.immutable.mapM (tree sha256 false)
  let products ← tree sha256 true inputs.products
  let checkout ← tree sha256 true inputs.checkout
  return { immutable, originals, products, checkout }

/-- Whether the check behind a run finds that an input changed; the run is an observation where it
finds none. -/
def changed (taken : Watched String) (after : Watched Root) : Except String Bool := do
  if (← after.immutable.mapM (tree sha256 false)) ≠ taken.immutable then return true
  if (← after.originals.mapM (tree sha256 false)) ≠ taken.originals then return true
  if (← tree sha256 true after.products) ≠ taken.products then return true
  return (← tree sha256 true after.checkout) ≠ taken.checkout

theorem text_ne_nil (entry : Entry) : entry.text ≠ [] := by
  have digits : (Nat.toDigits 10 entry.mode) ≠ [] := Nat.toDigits_ne_nil
  obtain ⟨digit, rest, mode⟩ := exists_cons_of_ne_nil digits
  have some_ : String.utf8EncodeChar digit ≠ [] := fun none_ => by
    simpa [String.length_utf8EncodeChar, (Char.utf8Size_pos digit).ne'] using congrArg List.length none_
  simp [Entry.text, utf8, Nat.toString_eq_repr, Nat.toList_repr, mode, some_]

namespace Tree

variable {first second : Tree}

private theorem entry_inj {a b : Entry} (left : a ∈ first.entries) (right : b ∈ first.entries)
    (same : a.path = b.path) : a = b :=
  inj_on_of_nodup_map first.once left right same

theorem same_iff : first.Same second ↔ first.paths = second.paths := by
  constructor
  · rintro ⟨permissions, members⟩
    have perm : first.entries.Perm second.entries :=
      (perm_ext_iff_of_nodup first.once.of_map second.once.of_map).mpr members
    have sorted : (StableSort.sortBy Entry.path first.entries).map id =
        (StableSort.sortBy Entry.path second.entries).map id :=
      StableSort.map_sortBy_eq Entry.path (perm.map _)
        fun a left b right => entry_inj left ((members b).mpr right)
    rw [map_id, map_id] at sorted
    rw [paths, paths, root, root, permissions, sorted]
  · intro listed
    obtain ⟨roots, sorted⟩ := List.cons.inj listed
    refine ⟨congrArg Entry.permissions roots, fun entry => ?_⟩
    rw [← (StableSort.perm_sortBy Entry.path first.entries).mem_iff, sorted,
      (StableSort.perm_sortBy Entry.path second.entries).mem_iff]

theorem bytes_eq_iff : first.bytes = second.bytes ↔ first.Same second ∨ first.RunsTogether second := by
  by_cases same : first.paths = second.paths
  · simp only [bytes, same, same_iff, true_or]
  · rw [same_iff, or_iff_right same]
    exact Joined.flatMap_eq_iff text_ne_nil same

/-- A path may be gone unnoticed behind a file that ends with what was fed for it. -/
theorem runsTogether_of_swallowed {front rest : List Entry} {file next : Entry} {content : List UInt8}
    (regular : file.item = .file content) (listed : first.paths = front ++ file :: next :: rest)
    (listed' : second.paths =
      front ++ { file with item := .file (content ++ next.text) } :: rest) :
    first.RunsTogether second := by
  refine .inl ⟨front, file, next :: rest, _, rest, next.text, listed, listed', fun same => ?_, ?_, rfl⟩
  · have longer := regular.symm.trans (congrArg Entry.item same)
    simp [text_ne_nil] at longer
  · simp [Entry.text, Entry.relative, Entry.mode, Entry.content, regular, Item.type]

end Tree

def Entry.edge (entry : Entry) : List (List String × List String) :=
  if entry.item = .directory ∧ entry.path ≠ [] then [(entry.path.dropLast, entry.path)] else []

theorem feed_plain (generatedLinks : Bool) (fed : Fed) {entry : Entry} (plain : entry.item.Plain) :
    feed generatedLinks fed entry = .ok ⟨fed.bytes ++ entry.text, fed.edges ++ entry.edge⟩ := by
  cases item : entry.item with
  | directory =>
    by_cases top : entry.path = [] <;>
      simp [feed, Entry.edge, Fed.update, Fed.addEdge, item, top]
  | file => simp [feed, Entry.edge, Fed.update, item]
  | link | special => simp [item, Item.Plain] at plain

private theorem foldlM_feed (generatedLinks : Bool) {entries : List Entry}
    (plain : ∀ entry ∈ entries, entry.item.Plain) (fed : Fed) :
    entries.foldlM (feed generatedLinks) fed =
      .ok ⟨fed.bytes ++ entries.flatMap Entry.text, fed.edges ++ entries.flatMap Entry.edge⟩ := by
  induction entries generalizing fed with
  | nil => simp [pure, Except.pure]
  | cons entry rest ih =>
    rw [forall_mem_cons] at plain
    rw [foldlM_cons, feed_plain generatedLinks fed plain.1]
    simp only [bind, Except.bind, ih plain.2, flatMap_cons, append_assoc]

section Visit

variable {edges : List (List String × List String)} {fuel : Nat} {visiting : List (List String)}
  {directory target : List String}

/-- How a call stands among those that it is made from. -/
structure Open (edges : List (List String × List String)) (fuel : Nat)
    (visiting : List (List String)) (directory : List String) : Prop where
  once : visiting.Nodup
  known : directory :: visiting ⊆ [] :: edges.map Prod.snd
  deep : edges.length + 2 ≤ visiting.length + fuel

theorem Open.fuel_ne_zero (opened : Open edges fuel visiting directory) : fuel ≠ 0 := by
  rintro rfl
  -- the open directories differ, and each but the top one is the target of an edge
  have most := (List.Nodup.subperm opened.once fun above inside =>
    opened.known (mem_cons_of_mem _ inside)).length_le
  have deep := opened.deep
  simp only [length_cons, length_map] at most
  omega

theorem Open.call (opened : Open edges (fuel + 1) visiting directory) (fresh : directory ∉ visiting)
    (member : target ∈ targets edges directory) : Open edges fuel (directory :: visiting) target where
  once := nodup_cons.mpr ⟨fresh, opened.once⟩
  known := by
    obtain ⟨edge, inside, rfl⟩ := mem_map.mp member
    refine cons_subset.mpr ⟨mem_cons_of_mem _ ?_, opened.known⟩
    exact mem_map_of_mem (mem_of_mem_filter inside)
  deep := by
    have deep := opened.deep
    rw [length_cons]
    omega

def Downward (edges : List (List String × List String)) : Prop :=
  ∀ edge ∈ edges, edge.1.length < edge.2.length

theorem Downward.deeper (down : Downward edges) (member : target ∈ targets edges directory) :
    directory.length < target.length := by
  obtain ⟨edge, inside, rfl⟩ := mem_map.mp member
  obtain ⟨inside, from_⟩ := mem_filter.mp inside
  exact of_decide_eq_true from_ ▸ down edge inside

private theorem visit_yields (opened : Open edges fuel visiting directory)
    (below : Downward edges → ∀ above ∈ visiting, above.length < directory.length)
    (visited : List (List String)) :
    Outcomes.Yields (fun _ => True)
      (fun error => error = "cyclic build directory link" ∧ ¬ Downward edges)
      (visit edges fuel visiting directory visited) := by
  induction fuel generalizing visiting directory visited with
  | zero => exact absurd rfl opened.fuel_ne_zero
  | succ fuel ih =>
    rw [visit]
    split
    next cycle =>
      exact ⟨rfl, fun down => lt_irrefl _ (below down directory (contains_iff_mem.mp cycle))⟩
    next fresh =>
      rw [contains_iff_mem] at fresh
      split
      · trivial
      -- whatever was visited before, the calls stand under the same open directories
      · refine Outcomes.yields_bind (P := fun _ => True) ?_ fun _ _ => Outcomes.yields_pure trivial
        refine Outcomes.yields_foldlM trivial fun target member visited _ => ?_
        refine ih (opened.call fresh member) (fun down above inside => ?_) visited
        have further := down.deeper member
        rcases mem_cons.mp inside with rfl | inside
        · exact further
        · exact (below down above inside).trans further

private theorem visit_root (edges : List (List String × List String)) :
    Outcomes.Yields (fun _ => True)
      (fun error => error = "cyclic build directory link" ∧ ¬ Downward edges)
      (visit edges (edges.length + 2) [] [] []) :=
  visit_yields ⟨nodup_nil, by simp, by simp⟩ (fun _ _ none_ => nomatch none_) []

end Visit

theorem downward_edges (entries : List Entry) : Downward (entries.flatMap Entry.edge) := by
  intro edge member
  obtain ⟨entry, -, member⟩ := mem_flatMap.mp member
  rw [Entry.edge] at member
  split at member
  next below =>
    cases mem_singleton.mp member
    have some_ := length_pos_iff.mpr below.2
    simp only [length_dropLast]
    omega
  · cases member

theorem tree_plain (sha256 : List UInt8 → String) (generatedLinks : Bool) {found : Tree}
    (plain : found.Plain) : tree sha256 generatedLinks (.directory found) = .ok (sha256 found.bytes) := by
  have listed : ∀ entry ∈ found.paths, entry.item.Plain := by
    rw [Tree.paths, forall_mem_cons]
    exact ⟨trivial, fun entry inside =>
      plain entry ((StableSort.perm_sortBy Entry.path _).mem_iff.mp inside)⟩
  rw [tree, foldlM_feed generatedLinks listed]
  cases generatedLinks with
  | false => rfl
  | true =>
    -- the edges of a tree lead down, so that no call comes back to an open directory
    have visited := visit_root (found.paths.flatMap Entry.edge)
    cases ran : visit (found.paths.flatMap Entry.edge) _ [] [] [] with
    | error e => exact absurd (downward_edges _) (Outcomes.yields_error visited ran).2
    | ok visited =>
      simp only [nil_append, if_true, bind, Except.bind, ran]
      rfl

/-- Trees of regular files and directories, whose bytes the hash does not confuse. -/
structure Tree.Comparable (sha256 : List UInt8 → String) (first second : Tree) : Prop where
  plain : first.Plain
  plain' : second.Plain
  free : sha256 first.bytes = sha256 second.bytes → first.bytes = second.bytes

/-- Two trees, or two files, as a demo may be one. -/
inductive Root.Trees (R : Tree → Tree → Prop) (C : List UInt8 → List UInt8 → Prop) : Root → Root → Prop
  | intro {first second : Tree} (holds : R first second) :
    Trees R C (.directory first) (.directory second)
  | file {content other : List UInt8} (holds : C content other) : Trees R C (.file content) (.file other)

/-- The hash tells the two contents apart if they differ. -/
def Told (sha256 : List UInt8 → String) (content other : List UInt8) : Prop :=
  sha256 content = sha256 other → content = other

def Tree.Unnoticed (first second : Tree) : Prop := first.Same second ∨ first.RunsTogether second

section Changes

variable {sha256 : List UInt8 → String} {first second : Tree} {before after : Root}
  {olds news : List Root}

theorem hash_eq_iff (comparable : first.Comparable sha256 second) :
    sha256 first.bytes = sha256 second.bytes ↔ first.Unnoticed second :=
  ⟨fun same => Tree.bytes_eq_iff.mp (comparable.free same),
    fun unnoticed => congrArg sha256 (Tree.bytes_eq_iff.mpr unnoticed)⟩

/-- Two hashes agree exactly where no change of the trees is noticed. -/
theorem tree_hashes (generatedLinks : Bool)
    (comparable : Root.Trees (Tree.Comparable sha256) (Told sha256) before after) :
    ∃ old new, tree sha256 generatedLinks before = .ok old ∧ tree sha256 generatedLinks after = .ok new ∧
      (new = old ↔ Root.Trees Tree.Unnoticed Eq before after) := by
  cases comparable with
  | intro comparable =>
    refine ⟨_, _, tree_plain sha256 generatedLinks comparable.plain,
      tree_plain sha256 generatedLinks comparable.plain', ?_⟩
    rw [eq_comm, hash_eq_iff comparable]
    refine ⟨.intro, fun unnoticed => ?_⟩
    cases unnoticed with
    | intro unnoticed => exact unnoticed
  | @file content other told =>
    refine ⟨_, _, rfl, rfl, fun same => .file (told same.symm), fun unnoticed => ?_⟩
    cases unnoticed with
    | file same => rw [same]

theorem mapM_tree_hashes (generatedLinks : Bool)
    (comparable : List.Forall₂ (Root.Trees (Tree.Comparable sha256) (Told sha256)) olds news) :
    ∃ old new, olds.mapM (tree sha256 generatedLinks) = .ok old ∧
      news.mapM (tree sha256 generatedLinks) = .ok new ∧
      (new = old ↔ List.Forall₂ (Root.Trees Tree.Unnoticed Eq) olds news) := by
  induction comparable with
  | nil => exact ⟨[], [], rfl, rfl, by simp⟩
  | cons head _ ih =>
    obtain ⟨old, new, hashed, hashed', same⟩ := tree_hashes generatedLinks head
    obtain ⟨olds, news, rest, rest', sames⟩ := ih
    refine ⟨old :: olds, new :: news, ?_, ?_, ?_⟩
    · rw [mapM_cons, hashed, rest]
      rfl
    · rw [mapM_cons, hashed', rest']
      rfl
    · rw [List.cons.injEq, same, sames, forall₂_cons]

end Changes

/-- Of two trees that differ the hashes differ unless the listings run together, and a run over inputs
that are trees or files is an observation where each of them is as it was or runs together with it. -/
theorem changes_noticed_iff (sha256 : List UInt8 → String) :
    (∀ (generatedLinks : Bool) (first second : Tree), first.Comparable sha256 second →
      ¬ first.Same second →
      (tree sha256 generatedLinks (.directory first) ≠ tree sha256 generatedLinks (.directory second) ↔
        ¬ first.RunsTogether second)) ∧
    ∀ before after : Watched Root,
      before.Each (Root.Trees (Tree.Comparable sha256) (Told sha256)) after →
      ∃ taken, hashes sha256 before = .ok taken ∧
        (changed sha256 taken after = .ok false ↔
          before.Each (Root.Trees (fun first second => first.Same second ∨ first.RunsTogether second) Eq)
            after) := by
  constructor
  · intro generatedLinks first second comparable differ
    rw [tree_plain sha256 generatedLinks comparable.plain,
      tree_plain sha256 generatedLinks comparable.plain', not_iff_not, Except.ok.injEq,
      hash_eq_iff comparable, Tree.Unnoticed, or_iff_right differ]
  · intro before after comparable
    obtain ⟨immutable, immutable', read, read', same⟩ := mapM_tree_hashes false comparable.immutable
    obtain ⟨originals, originals', reads, reads', sames⟩ := mapM_tree_hashes false comparable.originals
    obtain ⟨products, products', built, built', kept⟩ := tree_hashes true comparable.products
    obtain ⟨checkout, checkout', out, out', held⟩ := tree_hashes true comparable.checkout
    refine ⟨⟨immutable, originals, products, checkout⟩, ?_, ?_⟩
    · simp only [hashes, read, reads, built, out]
      rfl
    · have checked : changed sha256 ⟨immutable, originals, products, checkout⟩ after = .ok false ↔
          immutable' = immutable ∧ originals' = originals ∧ products' = products ∧
            checkout' = checkout := by
        simp only [changed, read', reads', built', out']
        by_cases a : immutable' = immutable <;> by_cases b : originals' = originals <;>
          by_cases c : products' = products <;> by_cases d : checkout' = checkout <;>
            simp [a, b, c, d, bind, Except.bind, pure, Except.pure]
      rw [checked, same, sames, kept, held]
      exact ⟨fun ⟨a, b, c, d⟩ => ⟨a, b, c, d⟩, fun ⟨a, b, c, d⟩ => ⟨a, b, c, d⟩⟩

/-- A directory with a file `a` of this content. -/
def single (content : String) : Tree where
  permissions := 493
  entries := [⟨["a"], 420, .file (utf8 content)⟩]
  once := by simp
  named := by simp [FileName]
  within := by simp

private theorem single_plain (content : String) : (single content).Plain := by
  simp [Tree.Plain, single, Item.Plain]

/-- A file `a` that holds an x, and a file `b` of this content. -/
def scattered (content : String) : Tree where
  permissions := 493
  entries := [⟨["a"], 420, .file (utf8 "x")⟩, ⟨["b"], 420, .file (utf8 content)⟩]
  once := by simp
  named := by simp [FileName]
  within := by simp

theorem scattered_plain (content : String) : (scattered content).Plain := by
  simp [Tree.Plain, scattered, Item.Plain]

/-- The hashes of the directories in which `b` holds a y or a z, and of an empty list. -/
def sampleHash (bytes : List UInt8) : String :=
  if bytes = utf8 ".16877a33188xb33188y" then
    "b71607fe91426f1a90d4904ee95a180c2301b3978642336a10fbf3d61cc64ea9"
  else if bytes = utf8 ".16877a33188xb33188z" then
    "8264b718da7896fb1b71885065302cc8f699ebd53289293468b964665a911f7f"
  else "4f53cda18c2baa0c0354bb5f9a3ecbe5ed12ab4d8e11ba873c2f11161202b945"

/-- Of a dependency, a checkout with its demo, and the products, the dependency is edited. -/
theorem edit_noticed :
    let y := Root.directory (scattered "y")
    let z := Root.directory (scattered "z")
    let demo := Root.file (utf8 "[]")
    tree sampleHash false y ≠ tree sampleHash false z ∧
    ∃ taken, hashes sampleHash ⟨[y], [y, y, demo], z, y⟩ = .ok taken ∧
      changed sampleHash taken ⟨[z], [y, y, demo], z, y⟩ ≠ .ok false := by
  intro y z demo
  have apart : (scattered "y").bytes ≠ (scattered "z").bytes := by decide +kernel
  have hashes_apart : sampleHash (scattered "y").bytes ≠ sampleHash (scattered "z").bytes := by
    decide +kernel
  have differ := mt Tree.bytes_eq_iff.mpr apart
  have edited : (scattered "y").Comparable sampleHash (scattered "z") :=
    ⟨scattered_plain "y", scattered_plain "z", fun same => absurd same hashes_apart⟩
  have self_ (content : String) : (scattered content).Comparable sampleHash (scattered content) :=
    ⟨scattered_plain content, scattered_plain content, fun _ => rfl⟩
  obtain ⟨first, second⟩ := changes_noticed_iff sampleHash
  refine ⟨(first false _ _ edited (differ ∘ .inl)).mpr (differ ∘ .inr), ?_⟩
  obtain ⟨taken, taken_, checked⟩ := second ⟨[y], [y, y, demo], z, y⟩ ⟨[z], [y, y, demo], z, y⟩
    ⟨.cons (.intro edited) .nil, .cons (.intro (self_ "y")) (.cons (.intro (self_ "y"))
      (.cons (.file fun _ => rfl) .nil)), .intro (self_ "z"), .intro (self_ "y")⟩
  have kept : ¬ Root.Trees Tree.Unnoticed Eq (.directory (scattered "y")) (.directory (scattered "z")) := by
    intro kept
    cases kept with
    | intro unnoticed => exact differ unnoticed
  exact ⟨taken, taken_, fun same => kept (forall₂_cons.mp (checked.mp same).immutable).1⟩

/-- The file `b` is gone, and what was fed for it stands at the end of `a`. -/
theorem swallowed_unnoticed :
    (scattered "y").Plain ∧ (single "xb33188y").Plain ∧ ¬ (scattered "y").Same (single "xb33188y") ∧
    ∀ sha256 : List UInt8 → String,
      (∀ generatedLinks, tree sha256 generatedLinks (.directory (scattered "y")) =
        tree sha256 generatedLinks (.directory (single "xb33188y"))) ∧
      ∃ taken, hashes sha256 ⟨[], [.directory (scattered "y")], .directory (scattered "y"), .directory (scattered "y")⟩ = .ok taken ∧
        changed sha256 taken ⟨[], [.directory (scattered "y")], .directory (scattered "y"),
          .directory (single "xb33188y")⟩ = .ok false := by
  have plain := scattered_plain "y"
  have plain' := single_plain "xb33188y"
  have listed : (scattered "y").paths =
      [(scattered "y").root] ++ ⟨["a"], 420, .file (utf8 "x")⟩ :: ⟨["b"], 420, .file (utf8 "y")⟩ :: [] := by
    decide +kernel
  have together : (scattered "y").RunsTogether (single "xb33188y") :=
    Tree.runsTogether_of_swallowed rfl listed (by decide +kernel)
  have same : (single "xb33188y").bytes = (scattered "y").bytes := (Tree.bytes_eq_iff.mpr (.inr together)).symm
  refine ⟨plain, plain', Tree.same_iff.not.mpr (by decide +kernel), fun sha256 => ⟨fun links => ?_, ?_⟩⟩
  · rw [tree_plain sha256 links plain, tree_plain sha256 links plain', same]
  · refine ⟨⟨[], [sha256 (scattered "y").bytes], sha256 (scattered "y").bytes, sha256 (scattered "y").bytes⟩, ?_, ?_⟩
    · simp only [hashes, mapM_cons, mapM_nil, tree_plain _ _ plain]
      rfl
    · simp [changed, mapM_cons, tree_plain _ _ plain, tree_plain _ _ plain', same, bind,
        Except.bind, pure, Except.pure]

end OpenUltraSast.Search.InputTrees
