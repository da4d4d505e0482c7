import OpenUltraSast.Push.CacheTally

/-!
# Refreshing the cache

A publication left alone returns, and whether it makes room depends on the entries of
other keys in its own key's lock stripe, which it cannot lock a second time.
-/

namespace OpenUltraSast.Push.Cache

open Collections List Option

variable {limit : Nat → Nat} {s next : State} {job : Job} {suffix : List Char}

/-- The number a stage carries is the size of the entries it carries. -/
def StageCounted : Stage → Prop
  | .checking | .makingRoom => True
  | .scanning _ entries used => used = totalSize entries
  | .evicting room => room.used = totalSize (room.kept ++ room.todo)
  | .evictingEntry room entry _ => room.used = totalSize (room.kept ++ room.todo) + entry.size
  | .staging kept used | .writing _ kept used _ | .replacing _ kept used | .recording kept used =>
    used = totalSize kept

structure Counted (s : State) : Prop where
  named : (s.disk.dirs.map (·.name)).Nodup
  summed : ∀ i usage, s.usage i = some usage → usage.used = totalSize usage.entries
  stage : ∀ job stage, s.publishing = some (job, stage) → StageCounted stage

variable {used : Nat} {kept : List Seen}

variable {busy : Bool} {entries : List Seen} {pending : List Char} {room : Room}

namespace Counted

section
variable (counted : Counted s)
include counted

theorem goto {stage : Stage} {disk : Disk} {usage : Nat → Option Usage}
    (named : (disk.dirs.map (·.name)).Nodup)
    (older : ∀ i known, usage i = some known → s.usage i = some known)
    (right : StageCounted stage) :
    Counted (({ s with disk := disk, usage := usage } : State).goto job stage) where
  named := named
  summed i known same := counted.summed i known (older i known same)
  stage job' stage' same := by
    cases same
    exact right

theorem fail (stage : Stage) : Counted (s.fail job stage) where
  named := counted.named
  summed := counted.summed
  stage _ _ same := by cases same

end

end Counted

/-- The publication under way returns a result when no other process holds a lock, changes
the root or takes the deadline. -/
inductive Returns (limit : Nat → Nat) (suffix : List Char) : State → Bool → Prop where
  | now {s : State} (next : State) {i : Nat} {result : Bool}
      (taken : advance limit false suffix s = some next) (returned : next.returned = some (i, result)) :
      Returns limit suffix s result
  | later {s : State} (next : State) {result : Bool} (taken : advance limit false suffix s = some next)
      (underway : next.returned = none) (rest : Returns limit suffix next result) :
      Returns limit suffix s result

theorem Returns.unique {result other : Bool} (first : Returns limit suffix s result)
    (second : Returns limit suffix s other) : result = other := by
  induction first with
  | now next taken returned =>
    cases second with
    | now _ taken' returned' =>
      rw [taken] at taken'
      cases taken'
      rw [returned] at returned'
      cases returned'
      rfl
    | later _ taken' underway =>
      rw [taken] at taken'
      cases taken'
      -- One run has returned where the other goes on.
      rw [returned] at underway
      cases underway
  | later next taken underway _ ih =>
    cases second with
    | now _ taken' returned' =>
      rw [taken] at taken'
      cases taken'
      rw [underway] at returned'
      cases returned'
    | later _ taken' _ rest =>
      rw [taken] at taken'
      cases taken'
      exact ih rest

/-- The writes a publication still makes, at most. -/
def Job.unwritten (job : Job) : List Nat → Nat
  | [] => job.payload + 3
  | [n] => job.payload - n + 2
  | [_, m] => if m < job.manifest then 1 else 0
  | _ => 0

/-- The entries whose stripe the publication holds itself: those of other keys in its own
key's stripe. -/
def stuck (job : Job) (entries : List Seen) : List Seen :=
  entries.filter fun entry => !evictable job false entry.name

/-- Two entries of 15 bytes each. -/
def twoEntries : List Act := publication 0 'a' 10 12 ++ publication 0 'b' 10 12

end OpenUltraSast.Push.Cache
