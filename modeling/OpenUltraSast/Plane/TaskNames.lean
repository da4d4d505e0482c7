import Mathlib.Data.List.DropRight
import OpenUltraSast.Plane.Manifests

/-!
# Task names

The names under which the tasks of runs are known to ax, and which pairs of a run and a task share
one.
-/

namespace OpenUltraSast.Plane

open List

/-- `str.lower` of a character. Of the characters beyond ASCII two have a lower case that begins with an
ASCII letter; a label reads all others alike in both cases. -/
def lowered (c : Char) : List Char :=
  if c.toNat = 0x130 then ['i', Char.ofNat 0x307]
  else if c.toNat = 0x212a then ['k']
  else [c.toLower]

/-- `[a-z0-9-]`. -/
def labelChar (c : Char) : Bool := ('a' ≤ c && c ≤ 'z') || c.isDigit || c = '-'

/-- `re.sub(r"[^a-z0-9-]+", "-", text)`, from within a run of other characters or not. -/
def dashed : Bool → List Char → List Char
  | _, [] => []
  | within, c :: rest =>
    if labelChar c then c :: dashed false rest
    else if within then dashed true rest
    else '-' :: dashed true rest

def spelled (name : String) : List Char := dashed false (name.toList.flatMap lowered)

/-- `text.strip("-")`. -/
def stripDashes (text : List Char) : List Char := (text.dropWhile (· = '-')).rdropWhile (· = '-')

def labelOf (parts : List String) : List Char := stripDashes (spelled ("-".intercalate parts))

/-- What a name over the limit becomes: its beginning and the first 8 digits of its hash. -/
def shortened (sha1 : String → String) (limit : Nat) (label : List Char) : List Char :=
  (label.take (limit - 9)).rdropWhile (· = '-') ++
    '-' :: (sha1 (String.ofList label)).toList.take 8

/-- `_ax_name`, with the hash as hexadecimal digits. -/
def axName (sha1 : String → String) (limit : Nat) (parts : List String) : String :=
  let label := labelOf parts
  if label.length ≤ limit then String.ofList label
  else String.ofList (shortened sha1 limit label)

def taskNameLimit : Nat := 63 - "-tmpl-12345678".length

structure TaskPair where
  run : String
  task : String
deriving DecidableEq

namespace TaskPair

/-- Some run of that name with a task of that name passes the manifest parser. -/
def Accepted (pair : TaskPair) : Prop :=
  pair.run ≠ "" ∧ ∃ run : Run, run.Accepted ∧ pair.task ∈ run.names

variable (sha1 : String → String) (pair other : TaskPair)

/-- The name that `render_task` gives a task. -/
def axName : String := Plane.axName sha1 taskNameLimit [pair.run, pair.task]

def label : List Char := labelOf [pair.run, pair.task]

/-- Both names with a dash between them. -/
def text : List Char := spelled pair.run ++ '-' :: spelled pair.task

/-- The texts are the same but for dashes at their ends. -/
def Alike : Prop :=
  ∃ a b c d : List Char, (∀ x ∈ a ++ b ++ c ++ d, x = '-') ∧
    a ++ pair.text ++ b = c ++ other.text ++ d

/-- The name of a pair is too long, and another pair is named as it is when it is shortened. -/
def Shortens : Prop :=
  taskNameLimit < pair.label.length ∧ other.label = shortened sha1 taskNameLimit pair.label

end TaskPair

theorem accepted_single {name : String} (named : name ≠ "") : Run.Accepted ⟨[{ name }]⟩ := by
  refine ⟨cons_ne_nil _ _, by simpa using named, by simp, ?_⟩
  simp [Run.checkRunGraph, Run.definedTwice, Run.unknownProducer, Run.findCycle, Run.names,
    Run.explore, Run.visit, Run.producersOf, RunTask.producers]

theorem TaskPair.accepted_iff (pair : TaskPair) :
    pair.Accepted ↔ pair.run ≠ "" ∧ pair.task ≠ "" := by
  refine and_congr_right fun _ => ⟨?_, fun named => ⟨_, accepted_single named, by simp [Run.names]⟩⟩
  rintro ⟨run, accepted, member⟩
  obtain ⟨entry, task, same⟩ := mem_map.mp member
  exact same ▸ accepted.named entry task

/-- A dash is read by itself, so what stands before it and behind it is read apart. -/
theorem dashed_append (within : Bool) (front rest : List Char) :
    dashed within (front ++ '-' :: rest) = dashed within front ++ '-' :: dashed false rest := by
  induction front generalizing within with
  | nil => simp [dashed, labelChar]
  | cons c front ih =>
    simp only [cons_append, dashed, ih]
    split
    · rfl
    · split <;> rfl

private theorem spelled_pair (pair : TaskPair) :
    spelled ("-".intercalate [pair.run, pair.task]) = pair.text := by
  have joined : ("-".intercalate [pair.run, pair.task]).toList =
      pair.run.toList ++ '-' :: pair.task.toList := by
    simp
  have dash : lowered '-' = ['-'] := by decide
  rw [spelled, joined, flatMap_append, flatMap_cons, dash, singleton_append,
    dashed_append]
  rfl

theorem exists_stripDashes (text : List Char) :
    ∃ front rest, (∀ x ∈ front ++ rest, x = '-') ∧ text = front ++ stripDashes text ++ rest := by
  refine ⟨text.takeWhile (· = '-'), (text.dropWhile (· = '-')).rtakeWhile (· = '-'), ?_, ?_⟩
  · intro x member
    rcases mem_append.mp member with front | rest
    · simpa using mem_takeWhile_imp front
    · simpa using mem_rtakeWhile_imp rest
  · rw [stripDashes, append_assoc, rdropWhile_append_rtakeWhile, takeWhile_append_dropWhile]

/-- Dashes at the ends make no difference. -/
theorem stripDashes_padded (front rest : List Char) (dashes : ∀ x ∈ front ++ rest, x = '-')
    (text : List Char) : stripDashes (front ++ text ++ rest) = stripDashes text := by
  have before : ∀ l : List Char, (front ++ l).dropWhile (· = '-') = l.dropWhile (· = '-') := fun l =>
    dropWhile_append_of_pos fun x member =>
      decide_eq_true (dashes x (mem_append_left _ member))
  have none_ : rest.dropWhile (· = '-') = [] := dropWhile_eq_nil_iff.mpr fun x member =>
    decide_eq_true (dashes x (mem_append_right _ member))
  have behind : ∀ l : List Char, (l ++ rest).rdropWhile (· = '-') = l.rdropWhile (· = '-') := by
    intro l
    rw [List.rdropWhile, reverse_append, dropWhile_append_of_pos, ← List.rdropWhile]
    intro x member
    exact decide_eq_true (dashes x (mem_append_right _ (mem_reverse.mp member)))
  rw [stripDashes, stripDashes, append_assoc, before, dropWhile_append]
  split
  next empty =>
    -- nothing but dashes
    rw [none_, List.isEmpty_iff.mp empty]
  next => exact behind _

theorem stripDashes_eq_iff {first second : List Char} :
    stripDashes first = stripDashes second ↔
      ∃ a b c d : List Char, (∀ x ∈ a ++ b ++ c ++ d, x = '-') ∧
        a ++ first ++ b = c ++ second ++ d := by
  constructor
  · intro same
    obtain ⟨front, rest, dashes, split⟩ := exists_stripDashes first
    obtain ⟨front', rest', dashes', split'⟩ := exists_stripDashes second
    -- the dashes of one text are put around the other
    have ends : ∀ {l m : List Char}, (∀ x ∈ l, x = '-') → (∀ x ∈ m, x = '-') → l ++ m = m ++ l := by
      intro l m left right
      rw [eq_replicate_of_mem left, eq_replicate_of_mem right, replicate_append_replicate,
        replicate_append_replicate, Nat.add_comm]
    simp only [mem_append, or_imp, forall_and] at dashes dashes'
    refine ⟨front', rest', front, rest, ?_, ?_⟩
    · simp only [mem_append, or_imp, forall_and]
      exact ⟨⟨dashes', dashes.1⟩, dashes.2⟩
    · rw [split, split', same]
      simp only [← append_assoc]
      rw [ends dashes'.1 dashes.1]
      simp only [append_assoc]
      rw [ends dashes.2 dashes'.2]
  · rintro ⟨a, b, c, d, dashes, same⟩
    simp only [mem_append, or_imp, forall_and] at dashes
    obtain ⟨⟨⟨left, right⟩, left'⟩, right'⟩ := dashes
    rw [← stripDashes_padded a b (by simpa [or_imp, forall_and] using ⟨left, right⟩), same,
      stripDashes_padded c d (by simpa [or_imp, forall_and] using ⟨left', right'⟩)]

theorem TaskPair.label_eq (pair : TaskPair) : pair.label = stripDashes pair.text := by
  rw [label, labelOf, spelled_pair]

theorem TaskPair.alike_iff (pair other : TaskPair) :
    pair.Alike other ↔ pair.label = other.label := by
  rw [label_eq, label_eq, stripDashes_eq_iff, Alike]

variable {sha1 : String → String}

private theorem length_shortened_le (label : List Char) :
    (shortened sha1 taskNameLimit label).length ≤ taskNameLimit := by
  have front := ( rdropWhile_prefix (· = '-') (label.take (taskNameLimit - 9))).length_le
  have taken := length_take_le (taskNameLimit - 9) label
  have hash := length_take_le 8 (sha1 (String.ofList label)).toList
  have limit : taskNameLimit = 49 := by decide
  rw [shortened, length_append, length_cons]
  omega

theorem hash_of_shortened_eq (digits : ∀ text, (sha1 text).length = 40) {label label' : List Char}
    (same : shortened sha1 taskNameLimit label = shortened sha1 taskNameLimit label') :
    (sha1 (String.ofList label)).toList.take 8 = (sha1 (String.ofList label')).toList.take 8 := by
  have lengths : ∀ l : List Char, ((sha1 (String.ofList l)).toList.take 8).length = 8 := fun l => by
    rw [length_take, String.length_toList, digits]
    rfl
  have ends := (append_inj' same (by rw [length_cons, length_cons, lengths, lengths])).2
  exact (List.cons.inj ends).2

theorem TaskPair.axName_eq (sha1 : String → String) (pair : TaskPair) :
    pair.axName sha1 = String.ofList (if pair.label.length ≤ taskNameLimit then pair.label
      else shortened sha1 taskNameLimit pair.label) := by
  rw [axName, Plane.axName, label]
  split <;> rfl

/-- Two pairs have different names exactly when they do not read alike and neither is named as the
other is when that is shortened. -/
theorem TaskPair.axName_ne_iff (digits : ∀ text, (sha1 text).length = 40) (pair other : TaskPair)
    (free : (sha1 (String.ofList pair.label)).toList.take 8 =
      (sha1 (String.ofList other.label)).toList.take 8 → pair.label = other.label) :
    pair.axName sha1 ≠ other.axName sha1 ↔
      ¬ pair.Alike other ∧ ¬ pair.Shortens sha1 other ∧ ¬ other.Shortens sha1 pair := by
  rw [alike_iff, ← not_or, ← not_or, ne_eq, not_iff_not, axName_eq, axName_eq, String.ofList_inj]
  have bounded := @length_shortened_le sha1
  rcases le_or_gt pair.label.length taskNameLimit with short | long <;>
    rcases le_or_gt other.label.length taskNameLimit with short' | long'
  · rw [if_pos short, if_pos short']
    exact (or_iff_left (by simp [Shortens, not_lt.mpr short, not_lt.mpr short'])).symm
  · -- the other name is the shortened one
    rw [if_pos short, if_neg long'.not_ge]
    have differ : pair.label ≠ other.label := fun same => absurd (same ▸ short) long'.not_ge
    have no : ¬ pair.Shortens sha1 other := fun both => absurd both.1 short.not_gt
    rw [or_iff_right differ, or_iff_right no, Shortens, and_iff_right long']
  · rw [if_neg long.not_ge, if_pos short']
    have differ : pair.label ≠ other.label := fun same => absurd (same ▸ short') long.not_ge
    have no : ¬ other.Shortens sha1 pair := fun both => absurd both.1 short'.not_gt
    rw [or_iff_right differ, or_iff_left no, Shortens, and_iff_right long, eq_comm]
  · -- a shortened name ends in the hash of its label
    rw [if_neg long.not_ge, if_neg long'.not_ge]
    have no : ∀ p q : TaskPair, taskNameLimit < q.label.length → ¬ p.Shortens sha1 q :=
      fun p q exceeds both => absurd (both.2 ▸ bounded p.label) exceeds.not_ge
    rw [or_iff_left (not_or.mpr ⟨no pair other long', no other pair long⟩)]
    exact ⟨fun same => free (hash_of_shortened_eq digits same), congrArg _⟩

/-- The hash, at the labels of two pairs. -/
def sampleSha1 (text : String) : String :=
  if text = "nightly-regression-of-every-tenant-scan-and-verify-changes" then
    "301b771426cd2c11a910c219948621465dc58fbe"
  else "c5a5105cffe36e0dcfe475b7306a7c44d0a9b888"

def tenantScan (task : String) : TaskPair := ⟨"nightly-regression-of-every-tenant", task⟩

/-- Labels over the limit that begin alike differ in their hashes. -/
theorem tenant_scans_apart :
    (tenantScan "scan-and-verify-changes").axName sampleSha1 =
        "nightly-regression-of-every-tenant-scan-301b7714" ∧
      (tenantScan "scan-and-verify-changes").axName sampleSha1 ≠
        (tenantScan "scan-and-verify-secrets").axName sampleSha1 := by
  have digits (text : String) : (sampleSha1 text).length = 40 := by
    rw [sampleSha1]
    split <;> rfl
  refine ⟨by decide +kernel, (TaskPair.axName_ne_iff digits _ _ (by decide +kernel)).mpr ?_⟩
  rw [TaskPair.alike_iff, TaskPair.Shortens, TaskPair.Shortens]
  decide +kernel

/-- The dash between a run and a task may as well be one of their own. -/
theorem dash_moves :
    TaskPair.Accepted ⟨"nightly", "scan-diff"⟩ ∧ TaskPair.Accepted ⟨"nightly-scan", "diff"⟩ ∧
      TaskPair.mk "nightly" "scan-diff" ≠ ⟨"nightly-scan", "diff"⟩ ∧
      TaskPair.axName sampleSha1 ⟨"nightly", "scan-diff"⟩ = "nightly-scan-diff" ∧
      TaskPair.axName sampleSha1 ⟨"nightly-scan", "diff"⟩ = "nightly-scan-diff" := by
  refine ⟨(TaskPair.accepted_iff _).mpr ?_, (TaskPair.accepted_iff _).mpr ?_, ?_, ?_, ?_⟩ <;>
    decide +kernel

end OpenUltraSast.Plane
