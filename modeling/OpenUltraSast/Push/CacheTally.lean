import OpenUltraSast.Library.Collections
import OpenUltraSast.Push.Cache

/-!
# The remembered tally of the cache

While no removal is cut short under a tally that another instance still trusts, and no
cleanup runs beside a publication, the tally of a completed publication is the size of
what the cache holds.
-/

namespace OpenUltraSast.Push.Cache

open Collections List

def pairs (entries : List Seen) : List (Name × Nat) := entries.map fun entry => (entry.name, entry.size)

def Disk.pairs (disk : Disk) : List (Name × Nat) := disk.dirs.map fun dir => (dir.name, dir.size)

def totalSize (entries : List Seen) : Nat := (entries.map (·.size)).sum

variable {disk : Disk} {name : Name} {names : List Name}

def Disk.without (disk : Disk) (names : List Name) : List (Name × Nat) :=
  disk.pairs.filter fun pair => decide (pair.1 ∉ names)

variable {dir : Dir} {used : Nat} {kept : List Seen}

/-- A cleanup that has removed a part of a directory that is still there. -/
def State.Torn (s : State) (cleanup : Cleanup) : Prop :=
  cleanup.begun = true ∧ (s.disk.find (.pending cleanup.suffix)).isSome

/-- The publication has removed a part of an entry. -/
def State.Tearing (s : State) : Prop :=
  ∃ job room entry, s.publishing = some (job, .evictingEntry room entry true)

/-- No directory is partly removed. -/
def State.Settled (s : State) : Prop :=
  (∀ cleanup ∈ s.cleanups, ¬ s.Torn cleanup) ∧ ¬ s.Tearing

/-- No instance's tally has the root's present stamp. -/
def State.Stale (s : State) : Prop := ∀ i, s.current i = none

/-- The files of a pending directory while they are written. -/
def Job.Staged (job : Job) (files : List Nat) : Prop :=
  files = [] ∨ (∃ n ≤ job.payload, files = [n]) ∨ ∃ m ≤ job.manifest, files = [job.payload, m]

def otherKeys (key : Key) (entries : List Seen) : List Seen :=
  entries.filter fun entry => decide (entry.name ∉ [.entry key])

variable (limit : Nat → Nat)

/-- The room that was made is enough. -/
def Enough (job : Job) (kept : List Seen) (used : Nat) : Prop :=
  used = totalSize kept ∧ used + job.incoming ≤ limit job.owner

/-- What the entries and the numbers of a publication stand for at each stage. -/
def StageRight (s : State) (job : Job) : Stage → Prop
  | .checking | .makingRoom =>
    s.current job.owner ≠ none → ∀ cleanup ∈ s.cleanups, ¬ s.Torn cleanup
  | .scanning todo entries used =>
    used = totalSize entries ∧ ∃ done rest, s.disk.dirs = done ++ rest ∧
      pairs entries = done.map (fun dir => (dir.name, dir.size)) ∧ todo = rest.map (·.name)
  | .evicting room =>
    room.used = totalSize (room.kept ++ room.todo) ∧
      (pairs (room.kept ++ room.todo)).Perm s.disk.pairs
  | .evictingEntry room entry _ =>
    room.used = totalSize (room.kept ++ room.todo) + entry.size ∧
      (pairs (room.kept ++ room.todo)).Perm (s.disk.without [entry.name]) ∧
      s.disk.find entry.name ≠ none
  | .staging kept used => Enough limit job kept used ∧ (pairs kept).Perm s.disk.pairs
  | .writing suffix kept used files =>
    s.Stale ∧ Enough limit job kept used ∧ (pairs kept).Perm (s.disk.without [.pending suffix]) ∧
      job.Staged files ∧ ∃ dir, s.disk.find (.pending suffix) = some dir ∧ dir.files = files
  | .replacing suffix kept used =>
    s.Stale ∧ Enough limit job kept used ∧
      (pairs (otherKeys job.key kept)).Perm (s.disk.without [.pending suffix, .entry job.key]) ∧
      ∃ dir, s.disk.find (.pending suffix) = some dir ∧ dir.size = job.incoming
  | .recording kept used =>
    s.Stale ∧ Enough limit job kept used ∧
      (pairs (otherKeys job.key kept)).Perm (s.disk.without [.entry job.key]) ∧
      ∃ dir, s.disk.find (.entry job.key) = some dir ∧ dir.size = job.incoming

/-- What holds between the directory, the tallies and the publication. -/
structure Exact (s : State) : Prop where
  named : (s.disk.dirs.map (·.name)).Nodup
  clock : s.disk.stamp < s.clock
  stamps : ∀ i usage, s.usage i = some usage → usage.stamp ≤ s.disk.stamp
  summed : ∀ i usage, s.usage i = some usage → usage.used = totalSize usage.entries
  matching : s.Settled → ∀ i usage, s.current i = some usage →
    (pairs usage.entries).Perm s.disk.pairs
  stage : ∀ job stage, s.publishing = some (job, stage) → StageRight limit s job stage
  exact : ∀ i, s.returned = some (i, true) →
    s.disk.total ≤ limit i ∧ ∃ usage, s.usage i = some usage ∧ usage.used = s.disk.total

variable {limit} {s next : State} {i : Nat}

theorem current_iff {usage : Usage} :
    s.current i = some usage ↔ s.usage i = some usage ∧ usage.stamp = s.disk.stamp := by
  simp [State.current, Option.filter_eq_some_iff]

/-- The tallies of a step: none is new, and the stamp does not go back. -/
structure Older (s next : State) : Prop where
  usage : ∀ i usage, next.usage i = some usage → s.usage i = some usage
  stamp : s.disk.stamp ≤ next.disk.stamp

theorem Older.refl_of (usage : next.usage = s.usage) (stamp : next.disk.stamp = s.disk.stamp) :
    Older s next :=
  ⟨fun _ _ known => usage ▸ known, stamp.ge⟩

variable {stage : Stage}

theorem not_tearing {s : State} {job : Job} (publishing : s.publishing = some (job, stage))
    (whole : ∀ room entry, stage ≠ .evictingEntry room entry true) : ¬ s.Tearing := by
  rintro ⟨job', room, entry, tearing⟩
  rw [publishing] at tearing
  cases tearing
  exact whole room entry rfl

namespace Exact

section
variable (exact : Exact limit s)
include exact

section
variable (older : Older s next)
include older

theorem current_of {usage : Usage}
    (current : next.current i = some usage) :
    s.current i = some usage ∧ next.disk.stamp = s.disk.stamp := by
  obtain ⟨known, stamp⟩ := current_iff.mp current
  have before := older.usage i usage known
  have past := exact.stamps i usage before
  have later := older.stamp
  exact ⟨current_iff.mpr ⟨before, by omega⟩, by omega⟩

theorem stale_of (stale : s.Stale) : next.Stale := by
  intro i
  rw [Option.eq_none_iff_forall_ne_some]
  intro usage current
  have before := (exact.current_of older current).1
  rw [stale i] at before
  cases before

theorem keep (named : (next.disk.dirs.map (·.name)).Nodup) (clock : next.disk.stamp < next.clock)
    (matching : next.Settled → next.Stale ∨ s.Settled ∧ next.disk = s.disk)
    (stage : ∀ job stage, next.publishing = some (job, stage) → StageRight limit next job stage)
    (returned : ∀ i, next.returned ≠ some (i, true)) : Exact limit next where
  named := named
  clock := clock
  stamps i usage known := (exact.stamps i usage (older.usage i usage known)).trans older.stamp
  summed i usage known := exact.summed i usage (older.usage i usage known)
  matching settled i usage current := by
    rcases matching settled with stale | ⟨before, disk⟩
    · rw [stale i] at current
      cases current
    · rw [disk]
      exact exact.matching before i usage (exact.current_of older current).1
  stage := stage
  exact _ success := absurd success (returned _)

end

theorem goto {job : Job} {stage stage' : Stage}
    (publishing : s.publishing = some (job, stage))
    (whole : ∀ room entry, stage ≠ .evictingEntry room entry true)
    (right : StageRight limit (s.goto job stage') job stage') : Exact limit (s.goto job stage') := by
  refine exact.keep (.refl_of rfl rfl) exact.named (Nat.lt_succ_of_lt exact.clock) ?_ ?_ ?_
  · intro settled
    exact .inr ⟨⟨settled.1, not_tearing publishing whole⟩, rfl⟩
  · intro job' stage'' same
    cases same
    exact right
  · intro i same
    cases same

theorem fail (job : Job) (stage : Stage) (tearing : s.Tearing → s.Stale) :
    Exact limit (s.fail job stage) := by
  refine exact.keep (.refl_of rfl rfl) exact.named (Nat.lt_succ_of_lt exact.clock) ?_ ?_ ?_
  · intro settled
    by_cases torn : s.Tearing
    · exact .inl (exact.stale_of (.refl_of rfl rfl) (tearing torn))
    · refine .inr ⟨⟨fun cleanup member => ?_, torn⟩, rfl⟩
      exact settled.1 cleanup (mem_append_left _ member)
  · intro job' stage' same
    cases same
  · intro i same
    cases same

theorem change {job : Job}
    (named : (disk.dirs.map (·.name)).Nodup) (clock : disk.stamp ≤ s.clock)
    (stamp : s.disk.stamp ≤ disk.stamp) (stale : ({ s with disk := disk } : State).Stale)
    (right : StageRight limit ({ s with disk := disk }.goto job stage) job stage) :
    Exact limit ({ s with disk := disk }.goto job stage) := by
  refine exact.keep ⟨fun _ _ known => known, stamp⟩ named (Nat.lt_succ_of_le clock)
    (fun _ => .inl stale) ?_ ?_
  · intro job' stage' same
    cases same
    exact right
  · intro i same
    cases same

end

end Exact

namespace Exact

variable {job : Job} {busy : Bool} {suffix : List Char}

section
variable (exact : Exact limit s)
include exact

end

variable {pending : List Char}

section
variable (exact : Exact limit s)
include exact

end

variable {n : Nat}

end Exact

def digitKey (digit : Char) : List Char := List.replicate 64 digit

def publication (i : Nat) (digit : Char) (payload : Nat) (operations : Nat) : List Act :=
  .publish i (digitKey digit) true payload 5 :: List.replicate operations (.advance false ['x'])

/-- A test that undisturbed actions pass: no removal is half done when a publication begins or is
cut. -/
def State.calm (s : State) : Act → Bool
  | .publish .. => s.cleanups.all fun cleanup => !cleanup.begun
  | .cut =>
    match s.publishing with
    | some (_, .evictingEntry _ _ true) => false
    | _ => true
  | .clean _ => s.publishing.isNone
  | .cleanCut _ => false
  | _ => true

end OpenUltraSast.Push.Cache
