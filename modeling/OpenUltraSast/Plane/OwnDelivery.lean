import OpenUltraSast.Library.JsonReader
import OpenUltraSast.Plane.Delivery

/-!
# An attempt and its own delivery

All attempts of a task extract into one directory, and the artifacts of the store stay.
-/

namespace OpenUltraSast.Plane.Delivery

open Values Memory Option

theorem fileAt_writeNode (files : Files) (path : Path) (node : Node) (other : Path) :
    fileAt (writeNode files path node) other =
      if other = path then node.data else fileAt files other := by
  unfold fileAt writeNode
  by_cases here : other = path
  · rw [if_pos here, if_pos here, bind_some]
  · rw [if_neg here, if_neg here]

theorem fileAt_makeParents (files : Files) (path other : Path) :
    fileAt (makeParents files path) other = fileAt files other := by
  unfold fileAt makeParents
  by_cases new : other ∈ ancestors path ∧ files other = none
  · rw [if_pos new, new.2]
    rfl
  · rw [if_neg new]

variable {files : Files} {p : Place} {manifest : Bytes}

private theorem fileAt_place {next : Files} {path : Path} {content : Option Bytes}
    (done : place files (path, content) = .ok next) (other : Path) :
    fileAt next other = (if other = path then content else none).or (fileAt files other) := by
  unfold place at done
  simp only at done
  split at done
  next => cases done
  next =>
    cases content with
    | some data =>
      simp only at done
      split at done
      next => cases done
      next =>
        cases done
        rw [fileAt_writeNode, fileAt_makeParents]
        split <;> rfl
    | none =>
      simp only at done
      split at done
      next => cases done
      next absent =>
        cases done
        rw [fileAt_writeNode, fileAt_makeParents]
        split
        next here =>
          rw [here, not_isSome_iff_eq_none.mp absent]
          rfl
        next => rfl

def written (path : Path) : List Placed → Option Bytes
  | [] => none
  | (other, content) :: rest => (written path rest).or (if path = other then content else none)

variable {placed : List Placed}

theorem fileAt_extractAll {after : Files} (done : extractAll files placed = (after, none)) (path : Path) :
    fileAt after path = (written path placed).or (fileAt files path) := by
  induction placed generalizing files with
  | nil =>
    cases done
    rfl
  | cons entry rest ih =>
    obtain ⟨other, content⟩ := entry
    rw [extractAll] at done
    cases first : place files (other, content) with
    | error error => rw [first] at done; cases done
    | ok next =>
      rw [first] at done
      rw [ih done, written, fileAt_place first, Option.or_assoc]

section Task
variable (loads : Bytes → Option Json) (task : String) (root : Path) (outputs : List String)

def judged (p : Place) (attempt : Attempt) : Outcome × List (Option Bytes) :=
  let (after, outcome) := execute loads task root outputs p attempt
  (outcome, outputs.map after.artifacts)

/-- Whatever stands for an output comes from the tar, or is the manifest of the attempt. -/
def Replaced (p : Place) (placed : List Placed) (artifact : String) : Prop :=
  match relativeTo root (resolve root artifact) with
  | none => p.artifacts artifact = none
  | some path =>
    (written path placed).isSome ∨ path = manifestPath ∨
      fileAt p.files path = none ∧ p.artifacts artifact = none

/-- What earlier attempts left takes no part in an attempt. -/
def Apart (p : Place) (manifest : Bytes) (tar : Tar) : Prop :=
  p.files manifestPath ≠ some .directory ∧
  match tar.placed task root with
  | .error _ => ∀ artifact ∈ outputs, p.artifacts artifact = none
  | .ok placed =>
    let stopped := (extractAll (prepared p manifest).files placed).2
    stopped = (extractAll (prepared {} manifest).files placed).2 ∧
    match stopped with
    | some _ => ∀ artifact ∈ outputs, p.artifacts artifact = none
    | none =>
      (written summaryPath placed = none →
        outcomeOf (readJson loads p.files summaryPath) = outcomeOf .null) ∧
      ∀ artifact ∈ outputs, Replaced root p placed artifact

variable {loads task root outputs} {tar : Tar}

section
variable (free : p.files manifestPath ≠ some .directory)
include free

theorem judged_refused {reason : String}
    (refused : tar.placed task root = .error reason) :
    judged loads task root outputs p ⟨manifest, .ok tar⟩ =
      (.returned "failed" (.str reason), outputs.map p.artifacts) := by
  simp only [judged, execute, if_neg free, collect, refused]
  rfl

theorem judged_stopped {error : OsError}
    (admitted : tar.placed task root = .ok placed)
    (stopped : extractAll (prepared p manifest).files placed = (files, some error)) :
    judged loads task root outputs p ⟨manifest, .ok tar⟩ =
      (.raised error, outputs.map p.artifacts) := by
  simp only [judged, execute, if_neg free, collect, admitted, stopped]
  rfl

theorem judged_extracted (admitted : tar.placed task root = .ok placed)
    (extracted : extractAll (prepared p manifest).files placed = (files, none)) :
    judged loads task root outputs p ⟨manifest, .ok tar⟩ =
      (outcomeOf (readJson loads files summaryPath),
        outputs.map fun artifact => (contentOf root files artifact).or (p.artifacts artifact)) := by
  simp only [judged, execute, if_neg free, collect, admitted, extracted, publish]
  congr 1
  apply List.map_congr_left
  intro artifact member
  rw [if_pos member]
  rfl

end

theorem map_eq_map_none_iff {contents : String → Option Bytes} :
    (outputs.map contents = outputs.map fun _ => none) ↔
      ∀ artifact ∈ outputs, contents artifact = none := by
  rw [List.map_inj_left]

theorem readJson_extracted (extracted : extractAll (prepared p manifest).files placed = (files, none)) :
    readJson loads files summaryPath =
      match written summaryPath placed with
      | some data => (loads data).getD .null
      | none => readJson loads p.files summaryPath := by
  have kept : fileAt (prepared p manifest).files summaryPath = fileAt p.files summaryPath := by
    rw [prepared, fileAt_writeNode, if_neg (by decide)]
  unfold readJson
  rw [fileAt_extractAll extracted, kept]
  cases written summaryPath placed <;> rfl

/-- The objects agree with those of a new directory exactly if each output is replaced. -/
theorem contents_eq_iff {new : Files}
    (extracted : extractAll (prepared p manifest).files placed = (files, none))
    (fresh : extractAll (prepared {} manifest).files placed = (new, none)) (artifact : String) :
    (contentOf root files artifact).or (p.artifacts artifact) =
        (contentOf root new artifact).or none ↔ Replaced root p placed artifact := by
  unfold contentOf Replaced
  cases relativeTo root (resolve root artifact) with
  | none => simp
  | some path =>
    simp only [bind_some, fileAt_extractAll extracted, fileAt_extractAll fresh]
    cases written path placed with
    | some data => simp
    | none =>
      by_cases here : path = manifestPath
      · subst here
        simp [prepared, fileAt_writeNode, Node.data]
      · have empty : fileAt emptyFiles path = none := by
          unfold fileAt emptyFiles
          split <;> rfl
        simp [prepared, fileAt_writeNode, here, empty]

private theorem place_ne_manifest (files : Files) (entry : Placed) :
    place files entry ≠ .error .manifest := by
  obtain ⟨path, content⟩ := entry
  unfold place
  simp only
  split
  · exact nofun
  · cases content with
    | some data =>
      simp only
      split <;> exact nofun
    | none =>
      simp only
      split <;> exact nofun

private theorem extractAll_ne_manifest {after : Files} :
    extractAll files placed ≠ (after, some .manifest) := by
  induction placed generalizing files with
  | nil => exact nofun
  | cons entry rest ih =>
    rw [extractAll]
    cases placing : place files entry with
    | ok next => exact ih
    | error error =>
      intro same
      have named : error = .manifest := some.inj (congrArg Prod.snd same)
      exact place_ne_manifest files entry (placing.trans (congrArg _ named))

theorem raised_ne_outcomeOf (error : OsError) (summary : Json) :
    Outcome.raised error ≠ outcomeOf summary := by
  intro same
  cases summary with
  | obj fields =>
    simp only [outcomeOf] at same
    split at same
    · cases same
    · split at same <;> cases same
  | _ => cases same

private theorem judged_fresh_ne (manifest : Bytes) (tar : Tar) (objects : List (Option Bytes)) :
    judged loads task root outputs {} ⟨manifest, .ok tar⟩ ≠ (.raised .manifest, objects) := by
  have free : ({} : Place).files manifestPath ≠ some .directory := by decide
  cases admitted : tar.placed task root with
  | error reason =>
    rw [judged_refused free admitted]
    exact nofun
  | ok placed =>
    rcases extracting : extractAll (prepared {} manifest).files placed with ⟨files, stopped⟩
    cases stopped with
    | none =>
      rw [judged_extracted free admitted extracting]
      intro same
      exact raised_ne_outcomeOf _ _ (congrArg Prod.fst same).symm
    | some error =>
      rw [judged_stopped free admitted extracting]
      rintro ⟨⟩
      exact extractAll_ne_manifest extracting

/-- An attempt ends and publishes as in a new directory exactly if nothing that is there takes
part in it. -/
theorem judged_eq_iff (p : Place) (manifest : Bytes) (tar : Tar) :
    judged loads task root outputs p ⟨manifest, .ok tar⟩ =
        judged loads task root outputs {} ⟨manifest, .ok tar⟩ ↔
      Apart loads task root outputs p manifest tar := by
  unfold Apart
  have fresh : ({} : Place).files manifestPath ≠ some .directory := by decide
  -- a directory in the place of the manifest stops the attempt before it begins
  by_cases free : p.files manifestPath ≠ some .directory
  · rw [and_iff_right free]
    -- a refused tar publishes only what was there before
    cases admitted : tar.placed task root with
    | error reason =>
      rw [judged_refused free admitted, judged_refused fresh admitted]
      simp only [Prod.mk.injEq, true_and]
      exact map_eq_map_none_iff
    | ok placed =>
      simp only
      rcases extracting : extractAll (prepared p manifest).files placed with ⟨files, stopped⟩
      rcases afresh : extractAll (prepared {} manifest).files placed with ⟨new, stops⟩
      simp only
      -- the extraction may stop here, in the new directory, in both or in neither
      cases stopped with
      | some error =>
        rw [judged_stopped free admitted extracting]
        cases stops with
        | some other =>
          rw [judged_stopped fresh admitted afresh]
          simp only [Prod.mk.injEq, Outcome.raised.injEq, Option.some.injEq]
          exact and_congr_right fun _ => map_eq_map_none_iff
        | none =>
          rw [judged_extracted fresh admitted afresh]
          simp [raised_ne_outcomeOf]
      | none =>
        rw [judged_extracted free admitted extracting]
        cases stops with
        | some other =>
          rw [judged_stopped fresh admitted afresh]
          simp [Ne.symm (raised_ne_outcomeOf _ _)]
        | none =>
          rw [judged_extracted fresh admitted afresh, readJson_extracted extracting,
            readJson_extracted afresh, Prod.mk.injEq, List.map_inj_left]
          simp only [true_and]
          -- both are extracted: the summary and each published artifact have to be the same
          apply and_congr
          · cases written summaryPath placed with
            | some data => simp
            | none => simp [readJson, fileAt, emptyFiles, summaryPath]
          · exact forall₂_congr fun artifact _ => contents_eq_iff extracting afresh artifact
  · have blocked : judged loads task root outputs p ⟨manifest, .ok tar⟩ =
        (.raised .manifest, outputs.map p.artifacts) := by
      simp only [judged, execute, if_pos (not_not.mp free)]
    rw [blocked]
    simp only [free, false_and, iff_false]
    exact (judged_fresh_ne manifest tar _).symm

variable (loads task root outputs)

/-- After any attempts, the next one is judged by its own delivery exactly if what they left
takes no part in it. -/
theorem own_delivery_iff (earlier : List Attempt) (manifest : Bytes) (tar : Tar) :
    judged loads task root outputs (attempts loads task root outputs earlier)
          ⟨manifest, .ok tar⟩ =
        judged loads task root outputs {} ⟨manifest, .ok tar⟩ ↔
      Apart loads task root outputs (attempts loads task root outputs earlier) manifest tar :=
  judged_eq_iff _ manifest tar

end Task

/-- Reads ASCII, where each byte is a character, without numbers that are floats. -/
def asciiLoads (data : Bytes) : Option Json :=
  JsonReader.loads (fun _ => 0) (data.map fun b => Char.ofNat b.toNat)

/-- An object whose status is done, and an empty list of findings. -/
def firstTar : Tar :=
  ⟨10, .ok [⟨"summary.json", .file [123, 34, 115, 116, 97, 116, 117, 115, 34, 58, 34, 100, 111, 110, 101, 34, 125]⟩,
    ⟨"out.json", .file [91, 93]⟩]⟩

def emptyTar : Tar := ⟨10, .ok []⟩

/-- A tar without a summary and outputs completes the task with those of the tar before. -/
theorem stale_delivery_judged :
    judged asciiLoads "task" ["run", "task"] ["out.json"]
        (attempts asciiLoads "task" ["run", "task"] ["out.json"] [⟨[0], .ok firstTar⟩])
        ⟨[0], .ok emptyTar⟩ = (.returned "done" (.str ""), [some [91, 93]]) ∧
      judged asciiLoads "task" ["run", "task"] ["out.json"] {} ⟨[0], .ok emptyTar⟩ =
        (.returned "failed" (.str "no summary.json delivered"), [none]) := by
  constructor
  · rfl
  · rfl

end OpenUltraSast.Plane.Delivery
