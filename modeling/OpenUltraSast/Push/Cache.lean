import Mathlib.Algebra.GroupWithZero.Nat
import Mathlib.Data.List.Sort
import OpenUltraSast.Library.Runs

/-!
# The artifact cache

A directory of entries and pending publications, shared by cache instances.
-/

namespace OpenUltraSast.Push.Cache

def isHex (c : Char) : Bool := ('0' ≤ c && c ≤ '9') || ('a' ≤ c && c ≤ 'f')

/-- `_KEY.fullmatch`. -/
def isKey (text : List Char) : Bool := text.length = 64 && text.all isHex

abbrev Key := { text : List Char // isKey text = true }

def hexValue (c : Char) : Nat := if c ≤ '9' then c.toNat - '0'.toNat else c.toNat - 'a'.toNat + 10

/-- `_bucket`: the lock stripe of a key, `int(key[:2], 16) % 64`. -/
def bucket (key : Key) : Nat :=
  (key.1.take 2).foldl (fun value c => value * 16 + hexValue c) 0 % 64

/-- The directories that count: entries, and publications under way or abandoned. -/
inductive Name where
  | entry (key : Key)
  | pending (suffix : List Char)
deriving DecidableEq

def Name.text : Name → List Char
  | .entry key => key.1
  | .pending suffix => ['.', 'p', 'e', 'n', 'd', 'i', 'n', 'g', '-'] ++ suffix

structure Dir where
  name : Name
  mtime : Nat
  files : List Nat
deriving DecidableEq

def Dir.size (dir : Dir) : Nat := dir.files.sum

/-- `(mtime, path, size)`, as a scan reports it. -/
structure Seen where
  mtime : Nat
  name : Name
  size : Nat
deriving DecidableEq

def Dir.seen (dir : Dir) : Seen := ⟨dir.mtime, dir.name, dir.size⟩

/-- The order of `sorted(entries)`. -/
def Seen.le (a b : Seen) : Bool :=
  a.mtime < b.mtime || (a.mtime = b.mtime && (a.name.text < b.name.text ||
    (a.name.text = b.name.text && a.size ≤ b.size)))

def sortSeen (entries : List Seen) : List Seen := entries.insertionSort fun a b => a.le b = true

/-- The root directory and its modification stamp. -/
structure Disk where
  dirs : List Dir
  stamp : Nat

namespace Disk

variable (disk : Disk)

def total : Nat := (disk.dirs.map (·.size)).sum

def find (name : Name) : Option Dir := disk.dirs.find? (·.name = name)

/-- A change inside a directory, which the root's stamp does not show. -/
def update (name : Name) (files : List Nat → List Nat) (now : Nat) : Disk :=
  { disk with dirs := disk.dirs.map fun dir =>
      if dir.name = name then { dir with mtime := now, files := files dir.files } else dir }

def make (name : Name) (now : Nat) : Disk :=
  { dirs := disk.dirs ++ [⟨name, now, []⟩], stamp := now }

def remove (name : Name) (now : Nat) : Disk :=
  { dirs := disk.dirs.filter (·.name ≠ name), stamp := now }

/-- `os.replace` of a directory that is there by a name that is not. -/
def rename (dir : Dir) (name : Name) (now : Nat) : Disk :=
  { dirs := disk.dirs.filter (·.name ≠ dir.name) ++ [{ dir with name := name }], stamp := now }

/-- The next operation of `_remove_owned_tree`: a file is unlinked, or the empty
directory is removed. -/
def unlink (dir : Dir) (now : Nat) : Disk :=
  match dir.files with
  | [] => disk.remove dir.name now
  | _ :: _ => disk.update dir.name List.tail now

end Disk

/-- What an instance remembers of its last full scan: the root's stamp then, the entries,
and their total size. -/
structure Usage where
  stamp : Nat
  entries : List Seen
  used : Nat
deriving DecidableEq

structure Job where
  owner : Nat
  key : Key
  payload : Nat
  manifest : Nat

def Job.incoming (job : Job) : Nat := job.payload + job.manifest

/-- `1024 * 1024`: the bytes written at a time, and the most a manifest may have. -/
def mebibyte : Nat := 1024 * 1024

/-- The sizes of the files after the next write of a publication, if there is one. -/
def Job.write (job : Job) : List Nat → Option (List Nat)
  | [] => some [0]
  | [n] => if n < job.payload then some [min job.payload (n + mebibyte)] else some [n, 0]
  | [n, m] => if m < job.manifest then some [n, job.manifest] else none
  | _ => none

/-- The loop of `_make_room`. -/
structure Room where
  todo : List Seen
  kept : List Seen
  used : Nat
  fits : Bool

/-- Where a publication stands. -/
inductive Stage where
  | checking
  | makingRoom
  | scanning (todo : List Name) (entries : List Seen) (used : Nat)
  | evicting (room : Room)
  | evictingEntry (room : Room) (entry : Seen) (begun : Bool)
  | staging (kept : List Seen) (used : Nat)
  | writing (suffix : List Char) (kept : List Seen) (used : Nat) (files : List Nat)
  | replacing (suffix : List Char) (kept : List Seen) (used : Nat)
  | recording (kept : List Seen) (used : Nat)

/-- The pending directory an exception would leave behind. -/
def Stage.pending : Stage → Option (List Char)
  | .writing suffix _ _ _ | .replacing suffix _ _ => some suffix
  | _ => none

/-- The removal of what a failed publication left; `begun` after its first operation. -/
structure Cleanup where
  suffix : List Char
  begun : Bool

structure State where
  disk : Disk
  clock : Nat
  usage : Nat → Option Usage
  /-- The publication that holds the publication lock. -/
  publishing : Option (Job × Stage)
  cleanups : List Cleanup
  /-- The instance whose publication returned in the last action, and what it returned. -/
  returned : Option (Nat × Bool)

namespace State

variable (s : State)

def goto (job : Job) (stage : Stage) : State :=
  { s with publishing := some (job, stage), clock := s.clock + 1, returned := none }

/-- The publication returns `False`; its pending directory is removed afterwards. -/
def fail (job : Job) (stage : Stage) : State :=
  { s with
    publishing := none
    clock := s.clock + 1
    cleanups := s.cleanups ++ stage.pending.toList.map fun suffix => ⟨suffix, false⟩
    returned := some (job.owner, false) }

def current (i : Nat) : Option Usage :=
  (s.usage i).filter fun usage => usage.stamp = s.disk.stamp

end State

def Room.start (entries : List Seen) (used : Nat) : Room := ⟨sortSeen entries, [], used, false⟩

/-- Whether an entry may be removed: the publication's own key, a pending directory, or an
entry whose stripe can be locked. The publication holds its own key's stripe. -/
def evictable (job : Job) (busy : Bool) : Name → Bool
  | .pending _ => true
  | .entry key => key = job.key || !(busy || bucket key = bucket job.key)

section
variable (limit : Nat → Nat)

/-- The next operation of the publication that holds the lock; `busy` says that somebody
else holds the stripe, `suffix` is the unused one that `mkdtemp` picks. -/
def advance (busy : Bool) (suffix : List Char) (s : State) : Option State :=
  match s.publishing with
  | none => none
  | some (job, stage) =>
    match stage with
    | .checking =>
      if job.payload = 0 || job.payload > limit job.owner || job.manifest > mebibyte then
        some (s.fail job stage)
      else some (s.goto job .makingRoom)
    | .makingRoom =>
      -- Restored only by a publication that completes.
      let forgotten := { s with usage := Function.update s.usage job.owner none }
      match s.current job.owner with
      | some usage => some (forgotten.goto job (.evicting (.start usage.entries usage.used)))
      | none => some (forgotten.goto job (.scanning (s.disk.dirs.map (·.name)) [] 0))
    | .scanning [] entries used => some (s.goto job (.evicting (.start entries used)))
    | .scanning (name :: todo) entries used =>
      match s.disk.find name with
      | none => some (s.goto job (.scanning todo entries used))
      | some dir => some (s.goto job (.scanning todo (entries ++ [dir.seen]) (used + dir.size)))
    | .evicting ⟨[], kept, used, _⟩ =>
      if used + job.incoming ≤ limit job.owner then some (s.goto job (.staging kept used))
      else some (s.fail job stage)
    | .evicting ⟨entry :: todo, kept, used, fits⟩ =>
      if fits || used + job.incoming ≤ limit job.owner then
        some (s.goto job (.evicting ⟨todo, kept ++ [entry], used, true⟩))
      else if evictable job busy entry.name then
        some (s.goto job (.evictingEntry ⟨todo, kept, used, false⟩ entry false))
      else some (s.goto job (.evicting ⟨todo, kept ++ [entry], used, false⟩))
    | .evictingEntry room entry begun =>
      let done := Stage.evicting { room with used := room.used - entry.size }
      match s.disk.find entry.name with
      | none => if begun then some (s.fail job stage) else some (s.goto job done)
      | some dir =>
        let unlinked := { s with disk := s.disk.unlink dir s.clock }
        if dir.files = [] then some (unlinked.goto job done)
        else some (unlinked.goto job (.evictingEntry room entry true))
    | .staging kept used =>
      if (s.disk.find (.pending suffix)).isSome then none
      else
        some ({ s with disk := s.disk.make (.pending suffix) s.clock }.goto job
          (.writing suffix kept used []))
    | .writing suffix kept used files =>
      match job.write files with
      | some files =>
        some ({ s with disk := s.disk.update (.pending suffix) (fun _ => files) s.clock }.goto job
          (.writing suffix kept used files))
      | none => some (s.goto job (.replacing suffix kept used))
    | .replacing suffix kept used =>
      match s.disk.find (.entry job.key), s.disk.find (.pending suffix) with
      | some existing, _ => some ({ s with disk := s.disk.unlink existing s.clock }.goto job stage)
      | none, none => some (s.fail job stage)
      | none, some dir =>
        some ({ s with disk := s.disk.rename dir (.entry job.key) s.clock }.goto job
          (.recording kept used))
    | .recording kept used =>
      match s.disk.find (.entry job.key) with
      | none => some (s.fail job stage)
      | some dir =>
        let others := kept.filter (·.name ≠ .entry job.key)
        let replaced := kept.filter (·.name = .entry job.key)
        let usage : Usage :=
          { stamp := s.disk.stamp
            entries := others ++ [⟨dir.mtime, .entry job.key, job.incoming⟩]
            used := used - (replaced.map (·.size)).sum + job.incoming }
        some { s with
          usage := Function.update s.usage job.owner (some usage)
          publishing := none
          clock := s.clock + 1
          returned := some (job.owner, true) }

inductive Act where
  /-- An instance is made; it creates the lock files that are missing. -/
  | create (i : Nat) (missing : Bool)
  /-- A publication takes the publication lock. -/
  | publish (i : Nat) (key : List Char) (complete : Bool) (payload manifest : Nat)
  | advance (busy : Bool) (suffix : List Char)
  /-- The deadline or the system cuts the publication. -/
  | cut
  /-- The next operation of a cleanup. -/
  | clean (n : Nat)
  | cleanCut (n : Nat)

def clean (n : Nat) (s : State) : Option State :=
  match s.cleanups[n]? with
  | none => none
  | some cleanup =>
    let ticked := { s with clock := s.clock + 1, returned := none }
    match s.disk.find (.pending cleanup.suffix) with
    | none => some { ticked with cleanups := s.cleanups.eraseIdx n }
    | some dir =>
      if dir.files = [] then
        some { ticked with
          disk := s.disk.unlink dir s.clock
          cleanups := s.cleanups.eraseIdx n }
      else
        some { ticked with
          disk := s.disk.unlink dir s.clock
          cleanups := s.cleanups.set n { cleanup with begun := true } }

def step : Act → State → Option State
  | .create i missing, s =>
    some { s with
      usage := Function.update s.usage i none
      disk := if missing then { s.disk with stamp := s.clock } else s.disk
      clock := s.clock + 1
      returned := none }
  | .publish i key complete payload manifest, s =>
    if valid : complete = true ∧ isKey key = true then
      match s.publishing with
      | some _ => none
      | none => some (s.goto ⟨i, ⟨key, valid.2⟩, payload, manifest⟩ .checking)
    else some { s with clock := s.clock + 1, returned := some (i, false) }
  | .advance busy suffix, s => advance limit busy suffix s
  | .cut, s => s.publishing.map fun (job, stage) => s.fail job stage
  | .clean n, s => clean n s
  | .cleanCut n, s =>
    if n < s.cleanups.length then
      some { s with
        cleanups := s.cleanups.eraseIdx n
        clock := s.clock + 1
        returned := none }
    else none

end

/-- A root directory no instance has looked at. -/
structure Fresh (s : State) : Prop where
  named : (s.disk.dirs.map (·.name)).Nodup
  clock : s.disk.stamp < s.clock
  usage : ∀ i, s.usage i = none
  publishing : s.publishing = none
  cleanups : s.cleanups = []
  returned : s.returned = none

end OpenUltraSast.Push.Cache
