import OpenUltraSast.Plane.Delivery

/-!
# Keys and places

A bucket keeps an object under its key and lists by the text of the keys; a directory keeps it at the
path that the key resolves to and lists what is below a directory.
-/

namespace OpenUltraSast.Plane.Memory

open Delivery List

inductive Backend where
  | bucket
  | directory (root : Path)

/-- The place of an object, as the listing names it; a path that leaves the root is refused. -/
def Backend.place : Backend → String → Option String
  | bucket, key => some key
  | directory root, key => (relativeTo root (resolve root key)).map ("/".intercalate ·)

def parts (name : String) : Path := (name.toList.splitOn '/').map String.ofList

/-- Whether `_keys(start)` lists an object at a place. -/
def Backend.lists : Backend → String → String → Bool
  | bucket, start, place => Text.startsWith place start
  | directory root, start, place =>
    match relativeTo root (resolve root start) with
    | none => false
    | some base =>
      base.isPrefixOf (parts place) && base.length < (parts place).length &&
        !((parts place).getLast?.any fun name => Text.startsWith name ".")

/-- Whether the listing for one repository's directory meets the objects of another's: the same
directory, or one that is the place of all of them. -/
def Backend.Reaches : Backend → String → String → Prop
  | bucket, dir, other => dir = other
  | directory _, dir, other => dir = other ∨ dir = ".." ∨ dir = "." ∧ other ≠ ".."

def Backend.ReachesIndex : Backend → String → Prop
  | bucket, _ => False
  | directory _, dir => dir = ".."

private theorem parts_plain {name : String} (plain : '/' ∉ name.toList) : parts name = [name] :=
  Text.segments_plain plain

theorem parts_append {name : String} (plain : '/' ∉ name.toList) (rest : String) :
    parts (name ++ "/" ++ rest) = name :: parts rest := by
  have split := Text.segments_append name rest
  rwa [Text.segments_plain plain] at split

private theorem parts_intercalate {path : Path} (plain : ∀ name ∈ path, '/' ∉ name.toList)
    (some_ : path ≠ []) : parts ("/".intercalate path) = path :=
  Text.segments_join plain some_

theorem enter_append (root : Path) {path : Path} (below : path ≠ []) (name : String) :
    enter (root ++ path) name = root ++ enter path name := by
  unfold enter
  by_cases here : name = "" ∨ name = "."
  · rw [if_pos here, if_pos here]
  · rw [if_neg here, if_neg here]
    split
    · exact dropLast_append_of_ne_nil below
    · exact append_assoc root path [name]

/-- The directory of a repository's objects, below the root. -/
def home (dir : String) : Path := enter ["repos"] dir

theorem resolve_repos (root : Path) (rest : String) :
    resolve root ("repos/" ++ rest) = (parts rest).foldl enter (root ++ ["repos"]) := by
  have here : parts ("repos/" ++ rest) = "repos" :: parts rest :=
    by
    have plain : '/' ∉ "repos".toList := by decide
    exact parts_append plain rest
  have relative : Text.startsWith ("repos/" ++ rest) "/" = false := by
    simp [Text.startsWith, String.toList_append, List.isPrefixOf]
  rw [resolve, relative, if_neg Bool.false_ne_true]
  change (parts ("repos/" ++ rest)).foldl enter root = _
  rw [here, foldl_cons]
  rfl

theorem relativeTo_append (root path : Path) : relativeTo root (root ++ path) = some path := by
  have below : root.isPrefixOf (root ++ path) = true :=
    isPrefixOf_iff_prefix.mpr (prefix_append root path)
  rw [relativeTo, if_pos below, drop_left]

variable {dir : String}

theorem resolve_home (root : Path) (plain : '/' ∉ dir.toList) :
    relativeTo root (resolve root ("repos/" ++ dir ++ "/")) = some (home dir) := by
  have split : parts (dir ++ "/") = [dir, ""] := by
    rw [← String.append_empty (s := dir ++ "/"), parts_append plain]
    rfl
  rw [String.append_assoc, resolve_repos, split, foldl_cons, foldl_cons, foldl_nil,
    enter_append root (by simp)]
  exact relativeTo_append root (home dir)

theorem repoKey_filled {repo name : String} (keyed : repoKey repo = some name) : name ≠ "" := by
  rintro rfl
  unfold repoKey at keyed
  simp only [Option.bind_eq_bind] at keyed
  split at keyed
  all_goals
    obtain ⟨located, -, keyed⟩ := Option.bind_eq_some_iff.mp keyed
    split at keyed
    next => cases keyed
    next filled => exact filled (Option.some.inj keyed)

theorem plain_repoDir {repo : String} (named : repoDir repo = some dir) :
    '/' ∉ dir.toList ∧ dir ≠ "" := by
  obtain ⟨name, keyed, rfl⟩ := Option.map_eq_some_iff.mp named
  constructor
  · intro member
    rw [Text.replaceChar, String.toList_ofList, mem_flatMap] at member
    obtain ⟨c, -, replaced⟩ := member
    by_cases slash : c = '/'
    · rw [if_pos slash] at replaced
      exact absurd replaced (by decide)
    · rw [if_neg slash, mem_singleton] at replaced
      exact slash replaced.symm
  · -- A name that is not empty has a first character, and so has what replaces it.
    have some_ : name.toList ≠ [] :=
      fun empty => repoKey_filled keyed (String.toList_eq_nil_iff.mp empty)
    intro empty
    rw [Text.replaceChar, ← String.toList_eq_nil_iff, String.toList_ofList,
      flatMap_eq_nil_iff] at empty
    obtain ⟨c, member⟩ := exists_mem_of_ne_nil _ some_
    have nothing := empty c member
    split at nothing <;> cases nothing

variable {pin : String}

private theorem hex_of_isPin (pinned : isPin pin = true) :
    pin.toList.length = 40 ∧ ∀ c ∈ pin.toList, c ≠ '/' ∧ c ≠ '.' := by
  unfold isPin at pinned
  rw [Bool.and_eq_true, decide_eq_true_eq, all_eq_true] at pinned
  constructor
  · exact pinned.1
  · intro c member
    have hex := pinned.2 c member
    constructor <;> (rintro rfl; exact absurd hex (by decide))

theorem file_of_isPin (pinned : isPin pin = true) :
    '/' ∉ (pin ++ ".jsonl").toList ∧ Text.startsWith (pin ++ ".jsonl") "." = false ∧
      ∀ path : Path, enter path (pin ++ ".jsonl") = path ++ [pin ++ ".jsonl"] := by
  obtain ⟨long, hex⟩ := hex_of_isPin pinned
  have length : (pin ++ ".jsonl").toList.length = 46 := by
    rw [String.toList_append, length_append, long]
    rfl
  refine ⟨?_, ?_, ?_⟩
  · rw [String.toList_append, mem_append, not_or]
    exact ⟨fun member => (hex _ member).1 rfl, by decide⟩
  · rw [Text.startsWith, String.toList_append]
    cases text : pin.toList with
    | nil => rw [text] at long; cases long
    | cons c rest =>
      have first : c ≠ '.' := (hex c (text ▸ mem_cons_self)).2
      simp [List.isPrefixOf, Ne.symm first]
  · intro path
    have apart (short : String) (few : short.toList.length < 46) : pin ++ ".jsonl" ≠ short := by
      rintro same
      rw [same] at length
      omega
    rw [enter, if_neg (not_or.mpr ⟨apart "" (by decide), apart "." (by decide)⟩),
      if_neg (apart ".." (by decide))]

theorem plain_home (plain : '/' ∉ dir.toList) : ∀ name ∈ home dir, '/' ∉ name.toList := by
  intro name member
  unfold home enter at member
  split at member
  next => exact mem_singleton.mp member ▸ by decide
  next =>
    split at member
    next => cases member
    next =>
      rcases mem_append.mp member with repos | own
      · exact mem_singleton.mp repos ▸ by decide
      · exact mem_singleton.mp own ▸ plain

theorem place_row (root : Path) (plain : '/' ∉ dir.toList) (pinned : isPin pin = true) :
    (Backend.directory root).place ("repos/" ++ dir ++ "/" ++ pin ++ ".jsonl") =
      some ("/".intercalate (home dir ++ [pin ++ ".jsonl"])) := by
  obtain ⟨filePlain, -, entered⟩ := file_of_isPin pinned
  have key : "repos/" ++ dir ++ "/" ++ pin ++ ".jsonl" =
      "repos/" ++ (dir ++ "/" ++ (pin ++ ".jsonl")) := by
    simp only [String.append_assoc]
  rw [key, Backend.place, resolve_repos, parts_append plain, parts_plain filePlain, foldl_cons,
    foldl_cons, foldl_nil, enter_append root (by simp), entered, append_assoc,
    relativeTo_append]
  rfl

theorem parts_place (plain : '/' ∉ dir.toList) (pinned : isPin pin = true) :
    parts ("/".intercalate (home dir ++ [pin ++ ".jsonl"])) = home dir ++ [pin ++ ".jsonl"] := by
  apply parts_intercalate
  · intro name member
    rcases mem_append.mp member with above | own
    · exact plain_home plain name above
    · exact mem_singleton.mp own ▸ (file_of_isPin pinned).1
  · simp

theorem home_cases (filled : dir ≠ "") :
    dir = "." ∧ home dir = ["repos"] ∨ dir = ".." ∧ home dir = [] ∨
      dir ≠ "." ∧ dir ≠ ".." ∧ home dir = ["repos", dir] := by
  by_cases here : dir = "."
  · exact .inl ⟨here, by rw [here]; rfl⟩
  · by_cases up : dir = ".."
    · exact .inr (.inl ⟨up, by rw [up]; rfl⟩)
    · refine .inr (.inr ⟨here, up, ?_⟩)
      rw [home, enter, if_neg (not_or.mpr ⟨filled, here⟩), if_neg up]
      rfl

theorem isPrefixOf_segment {c : Char} {d e : List Char} (plainD : c ∉ d) (plainE : c ∉ e)
    (rest : List Char) : (d ++ [c]).isPrefixOf (e ++ c :: rest) = true ↔ d = e := by
  induction d generalizing e with
  | nil =>
    cases e with
    | nil => simp [List.isPrefixOf]
    | cons x e =>
      have other : c ≠ x := fun same => plainE (same ▸ mem_cons_self)
      simp [List.isPrefixOf, other]
  | cons y d ih =>
    rw [mem_cons, not_or] at plainD
    cases e with
    | nil => simp [List.isPrefixOf, Ne.symm plainD.1]
    | cons x e =>
      rw [mem_cons, not_or] at plainE
      have later := ih plainD.2 plainE.2
      simp only [cons_append, List.isPrefixOf, Bool.and_eq_true, beq_iff_eq, List.cons.injEq]
      rw [later]

theorem lists_row (b : Backend) {other pin place : String} (plain : '/' ∉ dir.toList ∧ dir ≠ "")
    (plainOther : '/' ∉ other.toList ∧ other ≠ "") (pinned : isPin pin = true)
    (placed : b.place ("repos/" ++ other ++ "/" ++ pin ++ ".jsonl") = some place) :
    b.lists ("repos/" ++ dir ++ "/") place = true ↔ b.Reaches dir other := by
  cases b with
  | bucket =>
    cases placed
    have segment := isPrefixOf_segment plain.1 plainOther.1 (pin ++ ".jsonl").toList
    rw [Backend.lists, Backend.Reaches, ← String.toList_inj, ← segment, Text.startsWith]
    simp only [String.toList_append, append_assoc]
    apply Bool.eq_iff_iff.mp
    simp [List.isPrefixOf]
  | directory root =>
    rw [place_row root plainOther.1 pinned] at placed
    cases placed
    have visible := (file_of_isPin pinned).2.1
    rw [Backend.lists, resolve_home root plain.1]
    simp only [parts_place plainOther.1 pinned, List.getLast?_concat, Option.any_some, visible,
      Bool.not_false, Bool.and_true, Bool.and_eq_true, decide_eq_true_eq, Backend.Reaches]
    -- Three kinds of directory on each side: in place, one up, and a plain name.
    rcases home_cases plain.2 with ⟨rfl, at_⟩ | ⟨rfl, at_⟩ | ⟨here, up, at_⟩ <;>
      rcases home_cases plainOther.2 with
        ⟨rfl, atOther⟩ | ⟨rfl, atOther⟩ | ⟨hereOther, upOther, atOther⟩ <;>
      simp [List.isPrefixOf, *]

theorem lists_index (b : Backend) (plain : '/' ∉ dir.toList ∧ dir ≠ "") :
    b.lists ("repos/" ++ dir ++ "/") "index.jsonl" = true ↔ b.ReachesIndex dir := by
  cases b with
  | bucket =>
    rw [Backend.lists, Backend.ReachesIndex, Text.startsWith, String.append_assoc,
      String.toList_append]
    simp [List.isPrefixOf]
  | directory root =>
    have index : parts "index.jsonl" = ["index.jsonl"] := by decide
    rw [Backend.lists, resolve_home root plain.1, Backend.ReachesIndex]
    simp only [index]
    rcases home_cases plain.2 with ⟨rfl, at_⟩ | ⟨rfl, at_⟩ | ⟨here, up, at_⟩
    · simp [at_]
    · rw [at_]
      decide
    · simp [at_, up]

end OpenUltraSast.Plane.Memory
