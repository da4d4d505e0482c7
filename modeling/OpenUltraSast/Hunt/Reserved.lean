import Mathlib.Data.List.Nodup
import OpenUltraSast.Hunt.Reservations

/-!
# Reservations are spent once

Exclusion needs the lock alone. That nobody is blocked needs that every directory belongs to a line
of the ledger, or to the call that holds the lock.
-/

namespace OpenUltraSast.Hunt.Report

open List Option

section Fields
variable (s : State) (p q : Nat) (next : Phase) (outcome : Outcome)

@[simp] theorem goto_phase : (s.goto p next).phase q = if q = p then next else s.phase q := rfl
@[simp] theorem goto_directories : (s.goto p next).directories = s.directories := rfl
@[simp] theorem goto_ledger : (s.goto p next).ledger = s.ledger := rfl
@[simp] theorem goto_cache : (s.goto p next).cache = s.cache := rfl
@[simp] theorem goto_holder : (s.goto p next).holder = s.holder := rfl
@[simp] theorem goto_started : (s.goto p next).started = s.started := rfl
@[simp] theorem goto_outcomes : (s.goto p next).outcomes = s.outcomes := rfl
@[simp] theorem release_phase : (s.release p).phase q = if q = p then .idle else s.phase q := rfl
@[simp] theorem release_directories : (s.release p).directories = s.directories := rfl
@[simp] theorem release_ledger : (s.release p).ledger = s.ledger := rfl
@[simp] theorem release_cache : (s.release p).cache = s.cache := rfl
@[simp] theorem release_holder :
    (s.release p).holder = if s.holder = some p then none else s.holder := rfl
@[simp] theorem release_started : (s.release p).started = s.started := rfl
@[simp] theorem release_outcomes : (s.release p).outcomes = s.outcomes := rfl
@[simp] theorem finish_phase :
    (s.finish p outcome).phase q = if q = p then .idle else s.phase q := rfl
@[simp] theorem finish_directories : (s.finish p outcome).directories = s.directories := rfl
@[simp] theorem finish_ledger : (s.finish p outcome).ledger = s.ledger := rfl
@[simp] theorem finish_cache : (s.finish p outcome).cache = s.cache := rfl
@[simp] theorem finish_holder :
    (s.finish p outcome).holder = if s.holder = some p then none else s.holder := rfl
@[simp] theorem finish_started : (s.finish p outcome).started = s.started := rfl
@[simp] theorem finish_outcomes : (s.finish p outcome).outcomes = s.outcomes ++ [outcome] := rfl

end Fields

/-- How far a call is. -/
def Phase.rank : Phase → Nat
  | idle => 0
  | opened _ => 1
  | locked _ => 2
  | checked _ => 3
  | made _ => 4
  | written _ => 5
  | flushed _ => 6
  | synced _ => 7

/-- What a step can do. -/
inductive Moves (root : String) (s : State) : Action → State → Prop
  | opens (p : Nat) (call : Call) (at_ : s.phase p = .idle) (hex : call.isHexadecimal = true) :
    Moves root s (.start p call)
      ({ s with started := s.started ++ [call] }.goto p (.opened call))
  | refuses (p : Nat) (call : Call) (at_ : s.phase p = .idle) (hex : call.isHexadecimal = false) :
    Moves root s (.start p call)
      ({ s with started := s.started ++ [call] }.finish p (.raised call .notHexadecimal))
  | locks (p : Nat) (call : Call) (at_ : s.phase p = .opened call) (free : s.holder = none) :
    Moves root s (.advance p) ({ s with holder := some p }.goto p (.locked call))
  | checks (p : Nat) (call : Call) (at_ : s.phase p = .locked call)
    (new : findRun call.programId (linesOf (s.ledger ++ s.cache)) = .ok ()) :
    Moves root s (.advance p) (s.goto p (.checked call))
  | finds (p : Nat) (call : Call) (error : ReserveError) (at_ : s.phase p = .locked call)
    (old : findRun call.programId (linesOf (s.ledger ++ s.cache)) = .error error) :
    Moves root s (.advance p) (s.finish p (.raised call error))
  | blocks (p : Nat) (call : Call) (at_ : s.phase p = .checked call)
    (there : call.directory ∈ s.directories) :
    Moves root s (.advance p) (s.finish p (.raised call .directoryExists))
  | makes (p : Nat) (call : Call) (at_ : s.phase p = .checked call)
    (absent : call.directory ∉ s.directories) :
    Moves root s (.advance p)
      ({ s with directories := call.directory :: s.directories }.goto p (.made call))
  | writes (p : Nat) (call : Call) (at_ : s.phase p = .made call) :
    Moves root s (.advance p) (s.goto p (.written call))
  | flushes (p : Nat) (call : Call) (at_ : s.phase p = .written call) :
    Moves root s (.advance p)
      ({ s with cache := [(call.row root, .line)] }.goto p (.flushed call))
  | syncs (p : Nat) (call : Call) (at_ : s.phase p = .flushed call) :
    Moves root s (.advance p)
      ({ s with ledger := s.ledger ++ s.cache, cache := [] }.goto p (.synced call))
  | returns (p : Nat) (call : Call) (at_ : s.phase p = .synced call) :
    Moves root s (.advance p) (s.finish p (.returned call))
  | dies (p : Nat) (kept : Option Kept) (busy : s.phase p ≠ .idle)
    (dry : ∀ call, s.phase p ≠ .written call ∧ s.phase p ≠ .flushed call) :
    Moves root s (.crash p kept) (s.release p)
  | tears (p : Nat) (call : Call) (kept : Option Kept)
    (at_ : s.phase p = .written call ∨ s.phase p = .flushed call) :
    Moves root s (.crash p kept) ((leaves root s call kept).release p)

variable {a : Action}

/-- What one step can do, action by action. -/
theorem moves_of_step {root : String} {s after : State}
    (taken : step root a s = some after) : Moves root s a after := by
  -- one move for each branch of the step, the order of the phases being that of the call
  cases a with
  | start p call =>
    simp only [step] at taken
    split at taken
    next at_ =>
      split at taken
      next hex => cases taken; exact .opens p call at_ hex
      next hex => cases taken; exact .refuses p call at_ (by simpa using hex)
    next => cases taken
  | advance p =>
    simp only [step, advance] at taken
    split at taken
    next => cases taken
    next call at_ =>
      split at taken
      next free => cases taken; exact .locks p call at_ free
      next => cases taken
    next call at_ =>
      split at taken
      next new => cases taken; exact .checks p call at_ new
      next error old => cases taken; exact .finds p call error at_ old
    next call at_ =>
      split at taken
      next there => cases taken; exact .blocks p call at_ there
      next absent => cases taken; exact .makes p call at_ absent
    next call at_ => cases taken; exact .writes p call at_
    next call at_ => cases taken; exact .flushes p call at_
    next call at_ => cases taken; exact .syncs p call at_
    next call at_ => cases taken; exact .returns p call at_
  | crash p kept =>
    simp only [step] at taken
    split at taken
    next => cases taken
    -- a crash while writing or flushing leaves a prefix of the bytes
    next call at_ => cases taken; exact .tears p call kept (.inl at_)
    next call at_ => cases taken; exact .tears p call kept (.inr at_)
    -- anywhere else it leaves the file as it is
    next busy written flushed =>
      cases taken
      exact .dies p kept busy fun call => ⟨written call, flushed call⟩

variable {programId : String} {ledger : Ledger}

private theorem findRun_ok {lines : List Ledger} (new : findRun programId lines = .ok ()) :
    ∀ line ∈ lines, ∃ other, loadsId line = some other ∧ other ≠ programId := by
  induction lines with
  | nil => intro line member; cases member
  | cons first rest ih =>
    rw [findRun] at new
    split at new
    next => cases new
    next other read =>
      split at new
      next => cases new
      next apart =>
        intro line member
        rcases mem_cons.mp member with rfl | later
        · exact ⟨other, read, apart⟩
        · exact ih new line later

variable {entry : Row × Kept}

private theorem mem_linesOf (member : entry ∈ ledger) :
    ∃ line ∈ linesOf ledger, entry ∈ line := by
  induction ledger with
  | nil => cases member
  | cons first rest ih =>
    obtain ⟨row, kept⟩ := first
    -- A line's end closes the line of the first entry; else it joins the first line of the rest.
    have alone (open_ : kept ≠ .line) (none_ : linesOf rest = []) :
        linesOf ((row, kept) :: rest) = [[(row, kept)]] := by
      cases kept with
      | line => exact absurd rfl open_
      | _ => simp only [linesOf, none_]
    have joins (open_ : kept ≠ .line) {line : Ledger} {others : List Ledger}
        (some_ : linesOf rest = line :: others) :
        linesOf ((row, kept) :: rest) = ((row, kept) :: line) :: others := by
      cases kept with
      | line => exact absurd rfl open_
      | _ => simp only [linesOf, some_]
    by_cases closed : kept = .line
    · subst closed
      rw [linesOf]
      rcases mem_cons.mp member with rfl | later
      · exact ⟨_, mem_cons_self, mem_cons_self⟩
      · obtain ⟨line, held, inside⟩ := ih later
        exact ⟨line, mem_cons_of_mem _ held, inside⟩
    · cases others : linesOf rest with
      | nil =>
        rw [alone closed others]
        rcases mem_cons.mp member with rfl | later
        · exact ⟨_, mem_cons_self, mem_cons_self⟩
        · obtain ⟨line, held, -⟩ := ih later
          rw [others] at held
          cases held
      | cons line lines =>
        rw [joins closed others]
        rcases mem_cons.mp member with rfl | later
        · exact ⟨_, mem_cons_self, mem_cons_self⟩
        · obtain ⟨other, held, inside⟩ := ih later
          rw [others] at held
          rcases mem_cons.mp held with rfl | further
          · exact ⟨_, mem_cons_self, mem_cons_of_mem _ inside⟩
          · exact ⟨other, mem_cons_of_mem _ further, inside⟩

private theorem loadsId_mem {line : Ledger} {other : String} (read : loadsId line = some other)
    (member : entry ∈ line) : entry.1.programId = other := by
  unfold loadsId at read
  split at read
  next => cases read
  next row kept _ =>
    cases mem_singleton.mp member
    exact some.inj read
  next => cases read

theorem ne_of_findRun_ok (new : findRun programId (linesOf ledger) = .ok ())
    (member : entry ∈ ledger) : entry.1.programId ≠ programId := by
  obtain ⟨line, held, inside⟩ := mem_linesOf member
  obtain ⟨other, read, apart⟩ := findRun_ok new line held
  rwa [loadsId_mem read inside]

private theorem linesOf_whole (whole : ∀ entry ∈ ledger, entry.2 = .line) :
    linesOf ledger = ledger.map ([·]) := by
  induction ledger with
  | nil => rfl
  | cons first rest ih =>
    obtain ⟨row, kept⟩ := first
    cases whole (row, kept) mem_cons_self
    rw [linesOf, ih fun entry later => whole entry (mem_cons_of_mem _ later)]
    rfl

variable {error : ReserveError}

private theorem findRun_error (whole : ∀ entry ∈ ledger, entry.2 = .line)
    (old : findRun programId (linesOf ledger) = .error error) :
    ∃ entry ∈ ledger, entry.1.programId = programId := by
  rw [linesOf_whole whole] at old
  induction ledger with
  | nil => cases old
  | cons first rest ih =>
    obtain ⟨row, kept⟩ := first
    cases whole (row, kept) mem_cons_self
    simp only [map_cons, findRun, loadsId] at old
    split at old
    next same => exact ⟨_, mem_cons_self, same⟩
    next =>
      obtain ⟨entry, later, named⟩ :=
        ih (fun entry later => whole entry (mem_cons_of_mem _ later)) old
      exact ⟨entry, mem_cons_of_mem _ later, named⟩

def Fresh (s : State) (call : Call) : Prop :=
  ∀ other ∈ s.returned, other.programId ≠ call.programId

def Owns (s : State) (call : Call) : Prop :=
  call.directory ∈ s.directories ∧ ∀ other ∈ s.returned, other.directory ≠ call.directory

/-- What holds while a call has the lock. -/
def Held (root : String) (s : State) : Phase → Prop
  | .idle | .opened _ => False
  | .locked _ => s.cache = []
  | .checked call => s.cache = [] ∧ Fresh s call
  | .made call | .written call => s.cache = [] ∧ Fresh s call ∧ Owns s call
  | .flushed call => s.cache = [(call.row root, .line)] ∧ Fresh s call ∧ Owns s call
  | .synced call => s.cache = [] ∧ Fresh s call ∧ Owns s call ∧ s.Lists call.programId

structure Spent (s : State) : Prop where
  listed : ∀ call ∈ s.returned, s.Lists call.programId
  placed : ∀ call ∈ s.returned, call.directory ∈ s.directories
  once : SpentOnce s

structure Sound (root : String) (s : State) : Prop where
  inside : ∀ p, 2 ≤ (s.phase p).rank → s.holder = some p
  held : ∀ p, s.holder = some p → Held root s (s.phase p)
  free : s.holder = none → s.cache = []
  spent : Spent s

variable {call : Call}

section Sound
variable {root : String} {s after : State} {p : Nat}

theorem Sound.outside (sound : Sound root s) {q : Nat} (holds : s.holder = some p) (other : q ≠ p) :
    (s.phase q).rank < 2 := by
  by_contra inside
  have same := (sound.inside q (Nat.le_of_not_lt inside)).symm.trans holds
  exact other (some.inj same)

theorem Held.same {phase : Phase} (held : Held root s phase) (cache : after.cache = s.cache)
    (returned : after.returned = s.returned) (ledger : after.ledger = s.ledger)
    (directories : after.directories = s.directories) : Held root after phase := by
  cases phase <;>
    simp only [Held, Fresh, Owns, State.Lists, cache, returned, ledger, directories] at held ⊢ <;>
    exact held

/-- A step of a process that does not hold the lock, and does not take it. -/
theorem Sound.aside (sound : Sound root s) (without : s.holder ≠ some p)
    (others : ∀ q, q ≠ p → after.phase q = s.phase q) (own : (after.phase p).rank < 2)
    (holder : after.holder = s.holder) (cache : after.cache = s.cache)
    (held : ∀ phase, Held root s phase → Held root after phase) (spent : Spent after) :
    Sound root after := by
  refine ⟨?_, ?_, ?_, spent⟩
  · intro q inside
    by_cases here : q = p
    · subst here
      omega
    · rw [others q here] at inside
      rw [holder]
      exact sound.inside q inside
  · intro q holds
    rw [holder] at holds
    have here : q ≠ p := fun is => without (is ▸ holds)
    rw [others q here]
    exact held _ (sound.held q holds)
  · intro none_
    rw [cache]
    exact sound.free (holder ▸ none_)

theorem Sound.within (sound : Sound root s) (holds : s.holder = some p)
    (others : ∀ q, q ≠ p → after.phase q = s.phase q) (holder : after.holder = some p)
    (held : Held root after (after.phase p)) (spent : Spent after) : Sound root after := by
  refine ⟨?_, ?_, ?_, spent⟩
  · intro q inside
    by_cases here : q = p
    · rw [here, holder]
    · rw [others q here] at inside
      exact absurd inside (Nat.not_le.mpr (sound.outside holds here))
  · intro q same
    cases some.inj (holder.symm.trans same)
    exact held
  · intro none_
    rw [holder] at none_
    cases none_

theorem Sound.released (sound : Sound root s) (holds : s.holder = some p)
    (others : ∀ q, q ≠ p → after.phase q = s.phase q) (idle : after.phase p = .idle)
    (holder : after.holder = none) (cache : after.cache = []) (spent : Spent after) :
    Sound root after := by
  refine ⟨?_, ?_, fun _ => cache, spent⟩
  · intro q inside
    by_cases here : q = p
    · rw [here, idle] at inside
      exact absurd inside (by decide)
    · rw [others q here] at inside
      exact absurd inside (Nat.not_le.mpr (sound.outside holds here))
  · intro q some_
    rw [holder] at some_
    cases some_

theorem returned_raised (call : Call) (error : ReserveError) :
    (s.finish p (.raised call error)).returned = s.returned := by
  simp [State.returned]

theorem returned_finish (call : Call) :
    (s.finish p (.returned call)).returned = s.returned ++ [call] := by
  simp [State.returned]

theorem Spent.grown (spent : Spent s) (returned : after.returned = s.returned)
    (ledger : s.ledger ⊆ after.ledger) (directories : s.directories ⊆ after.directories) :
    Spent after := by
  refine ⟨?_, ?_, ?_⟩
  · rw [returned]
    intro call member
    obtain ⟨entry, held, same⟩ := spent.listed call member
    exact ⟨entry, ledger held, same⟩
  · rw [returned]
    exact fun call member => directories (spent.placed call member)
  · rw [SpentOnce, returned]
    exact spent.once

theorem Spent.same (spent : Spent s) (returned : after.returned = s.returned)
    (ledger : after.ledger = s.ledger) (directories : after.directories = s.directories) :
    Spent after :=
  spent.grown returned (fun _ held => ledger ▸ held) (fun _ held => directories ▸ held)

theorem Spent.raised (spent : Spent s) (call : Call) (error : ReserveError) :
    Spent (s.finish p (.raised call error)) :=
  spent.same (returned_raised call error) rfl rfl

theorem Spent.returned (spent : Spent s) (fresh : Fresh s call) (owns : Owns s call)
    (listed : s.Lists call.programId) : Spent (s.finish p (.returned call)) := by
  obtain ⟨names, places, ids, directories⟩ := spent
  refine ⟨?_, ?_, ?_, ?_⟩
  · intro other member
    rw [returned_finish, mem_append, mem_singleton] at member
    rcases member with old | rfl
    · exact names other old
    · exact listed
  · intro other member
    rw [returned_finish, mem_append, mem_singleton] at member
    rcases member with old | rfl
    · exact places other old
    · exact owns.1
  · rw [returned_finish, map_append, map_singleton, ← concat_eq_append]
    apply List.Nodup.concat _ ids
    rintro member
    obtain ⟨other, old, same⟩ := mem_map.mp member
    exact fresh other old same
  · rw [returned_finish, map_append, map_singleton, ← concat_eq_append]
    apply List.Nodup.concat _ directories
    rintro member
    obtain ⟨other, old, same⟩ := mem_map.mp member
    exact owns.2 other old same

theorem sound_start : Sound root {} where
  inside p big := absurd big (by show ¬ 2 ≤ 0; decide)
  held p some_ := by cases some_
  free _ := rfl
  spent := ⟨nofun, nofun, nodup_nil, nodup_nil⟩

/-- Each step keeps all but the holder of the lock outside. -/
theorem Sound.step (sound : Sound root s) (moves : Moves root s a after) :
    Sound root after := by
  -- before it has the lock a process is not its holder
  have free_of : ∀ {q}, (s.phase q).rank < 2 → s.holder ≠ some q := by
    intro q low holds
    have held := sound.held q holds
    cases at_ : s.phase q <;> rw [at_] at held low
    · exact held
    · exact held
    all_goals exact absurd low (by simp [Phase.rank])
  -- from the lock on a process is its holder, and what its phase says holds
  have inside_of : ∀ {q phase}, s.phase q = phase → 2 ≤ phase.rank →
      s.holder = some q ∧ Held root s phase := by
    intro q phase at_ inside
    have holds := sound.inside q (at_ ▸ inside)
    exact ⟨holds, at_ ▸ sound.held q holds⟩
  cases moves with
  | opens q call at_ hex =>
    refine sound.aside (p := q) (free_of (by rw [at_]; decide)) ?_ ?_ rfl rfl (fun _ => id)
      (sound.spent.same rfl rfl rfl)
    · exact fun r other => if_neg other
    · simp [Phase.rank]
  | refuses q call at_ hex =>
    have without := free_of (q := q) (by rw [at_]; decide)
    refine sound.aside (p := q) without ?_ ?_ ?_ rfl ?_ ?_
    · exact fun r other => if_neg other
    · simp [Phase.rank]
    · simp [without]
    · intro phase held
      exact held.same rfl (returned_raised (s := { s with started := s.started ++ [call] }) call _)
        rfl rfl
    · exact (sound.spent.same (returned_raised (s := { s with started := s.started ++ [call] }) call _)
        rfl rfl)
  | locks q call at_ free =>
    refine ⟨?_, ?_, nofun, sound.spent.same rfl rfl rfl⟩
    · intro r inside
      by_cases here : r = q
      · rw [here]; rfl
      · rw [goto_phase, if_neg here] at inside
        -- no other process is inside while the lock is free
        exact absurd ((sound.inside r inside).symm.trans free) nofun
    · intro r holds
      cases some.inj holds
      rw [goto_phase, if_pos rfl]
      exact sound.free free
  | checks q call at_ new =>
    obtain ⟨holds, held⟩ := inside_of at_ (by simp [Phase.rank])
    refine sound.within holds (fun r other => if_neg other) holds ?_ (sound.spent.same rfl rfl rfl)
    rw [goto_phase, if_pos rfl]
    -- a returned call is listed, and the run that is checked is not
    refine ⟨held, fun other returned => ?_⟩
    obtain ⟨entry, member, same⟩ := sound.spent.listed other returned
    exact same ▸ ne_of_findRun_ok new (mem_append_left _ member)
  | finds q call error at_ old =>
    obtain ⟨holds, held⟩ := inside_of at_ (by simp [Phase.rank])
    refine sound.released holds (fun r other => if_neg other) (if_pos rfl) (if_pos holds) held ?_
    exact sound.spent.raised call error
  | blocks q call at_ there =>
    obtain ⟨holds, held⟩ := inside_of at_ (by simp [Phase.rank])
    refine sound.released holds (fun r other => if_neg other) (if_pos rfl) (if_pos holds) held.1 ?_
    exact sound.spent.raised call _
  | makes q call at_ absent =>
    obtain ⟨holds, cache, fresh⟩ := inside_of at_ (by simp [Phase.rank])
    refine sound.within holds (fun r other => if_neg other) holds ?_ ?_
    · rw [goto_phase, if_pos rfl]
      refine ⟨cache, fresh, mem_cons_self, fun other returned same => ?_⟩
      exact absent (same ▸ sound.spent.placed other returned)
    · exact sound.spent.grown rfl (List.Subset.refl _) (subset_cons_self _ _)
  | writes q call at_ =>
    obtain ⟨holds, held⟩ := inside_of at_ (by simp [Phase.rank])
    refine sound.within holds (fun r other => if_neg other) holds ?_ (sound.spent.same rfl rfl rfl)
    rw [goto_phase, if_pos rfl]
    exact held
  | flushes q call at_ =>
    obtain ⟨holds, -, own⟩ := inside_of at_ (by simp [Phase.rank])
    refine sound.within holds (fun r other => if_neg other) holds ?_ (sound.spent.same rfl rfl rfl)
    rw [goto_phase, if_pos rfl]
    exact ⟨rfl, own⟩
  | syncs q call at_ =>
    obtain ⟨holds, cache, fresh, owns⟩ := inside_of at_ (by simp [Phase.rank])
    refine sound.within holds (fun r other => if_neg other) holds ?_ ?_
    · rw [goto_phase, if_pos rfl]
      refine ⟨rfl, fresh, owns, (call.row root, .line), ?_, rfl⟩
      rw [goto_ledger, cache]
      exact mem_append_right _ mem_cons_self
    · exact sound.spent.grown rfl (subset_append_left _ _) (List.Subset.refl _)
  | returns q call at_ =>
    obtain ⟨holds, cache, fresh, owns, listed⟩ := inside_of at_ (by simp [Phase.rank])
    refine sound.released holds (fun r other => if_neg other) (if_pos rfl) (if_pos holds) cache ?_
    exact sound.spent.returned fresh owns listed
  | dies q kept busy dry =>
    -- a process that dies outside the lock leaves everything as it is
    by_cases holds : s.holder = some q
    · have cache : s.cache = [] := by
        have held := sound.held q holds
        cases at_ : s.phase q with
        | idle => exact absurd at_ busy
        | opened call => rw [at_] at held; exact held.elim
        | locked call => rw [at_] at held; exact held
        | checked call | made call | synced call => rw [at_] at held; exact held.1
        | written call => exact absurd at_ (dry call).1
        | flushed call => exact absurd at_ (dry call).2
      exact sound.released holds (fun r other => if_neg other) (if_pos rfl) (if_pos holds) cache
        (sound.spent.same rfl rfl rfl)
    · refine sound.aside holds (fun r other => if_neg other) ?_ (if_neg holds) rfl (fun _ => id)
        (sound.spent.same rfl rfl rfl)
      rw [release_phase, if_pos rfl]
      decide
  | tears q call kept at_ =>
    have holds : s.holder = some q := by
      rcases at_ with at_ | at_
      · exact (inside_of at_ (by simp [Phase.rank])).1
      · exact (inside_of at_ (by simp [Phase.rank])).1
    refine sound.released holds (fun r other => if_neg other) (if_pos rfl) (if_pos holds) rfl ?_
    exact sound.spent.grown rfl (subset_append_left _ _) (List.Subset.refl _)

def Phase.making : Phase → Option Call
  | made call | written call | flushed call => some call
  | _ => none

/-- The ledger has whole lines only, and every directory has a line or a call that is to append
one. -/
structure Tidy (root : String) (s : State) : Prop where
  whole : ∀ entry ∈ s.ledger, entry.2 = .line
  known : ∀ p call, (s.phase p).call? = some call → call ∈ s.started ∧ call.isHexadecimal
  apart : ∀ a ∈ s.started, ∀ b ∈ s.started, a.directory = b.directory → a.programId = b.programId
  new : ∀ p call, s.phase p = .checked call → ¬ s.Lists call.programId
  taken : ∀ d ∈ s.directories, (∃ call ∈ s.started, call.directory = d ∧ s.Lists call.programId) ∨
    ∃ p call, (s.phase p).making = some call ∧ call.directory = d
  blocks : BlocksNobody s

theorem call_of_making {phase : Phase} (making : phase.making = some call) :
    phase.call? = some call ∧ 2 ≤ phase.rank := by
  cases phase <;> simp_all [Phase.making, Phase.call?, Phase.rank]

theorem State.Lists.grown (listed : s.Lists programId) (ledger : s.ledger ⊆ after.ledger) :
    after.Lists programId := by
  obtain ⟨entry, member, same⟩ := listed
  exact ⟨entry, ledger member, same⟩

theorem Tidy.move (tidy : Tidy root s) (sound : Sound root s) {before next : Phase}
    (was : s.phase p = before) (is : after.phase p = next)
    (others : ∀ q, q ≠ p → after.phase q = s.phase q) (started : s.started ⊆ after.started)
    (apart : ∀ a ∈ after.started, ∀ b ∈ after.started,
      a.directory = b.directory → a.programId = b.programId)
    (added : Ledger) (ledger : after.ledger = s.ledger ++ added)
    (whole : ∀ entry ∈ added, entry.2 = .line) (alone : added ≠ [] → s.holder = some p)
    (own : ∀ call, next.call? = some call → call ∈ after.started ∧ call.isHexadecimal)
    (new : ∀ call, next = .checked call → ¬ after.Lists call.programId)
    (directories : ∀ d ∈ after.directories, d ∈ s.directories ∨
      ∃ call, next.making = some call ∧ call.directory = d)
    (making : ∀ call, before.making = some call →
      next.making = some call ∨ after.Lists call.programId)
    (blocks : BlocksNobody after) : Tidy root after := by
  subst was is
  have more : s.ledger ⊆ after.ledger := fun _ held => ledger ▸ mem_append_left _ held
  refine ⟨?_, ?_, apart, ?_, ?_, blocks⟩
  · intro entry member
    rw [ledger] at member
    exact (mem_append.mp member).elim (tidy.whole entry) (whole entry)
  · intro q call is
    by_cases here : q = p
    · exact own call (here ▸ is)
    · rw [others q here] at is
      exact (tidy.known q call is).imp_left (started ·)
  · intro q call at_
    by_cases here : q = p
    · exact new call (here ▸ at_)
    · -- No other process is past its check while this one holds the lock.
      rw [others q here] at at_
      by_cases quiet : added = []
      · rintro ⟨entry, member, same⟩
        rw [ledger, quiet, append_nil] at member
        exact tidy.new q call at_ ⟨entry, member, same⟩
      · have outside := sound.outside (alone quiet) here
        rw [at_] at outside
        exact absurd outside (by simp [Phase.rank])
  · intro d member
    rcases directories d member with old | ⟨call, makes, is⟩
    · rcases tidy.taken d old with ⟨call, known, is, listed⟩ | ⟨q, call, makes, is⟩
      · exact .inl ⟨call, started known, is, listed.grown more⟩
      · by_cases here : q = p
        · subst here
          rcases making call makes with still | listed
          · exact .inr ⟨q, call, still, is⟩
          · exact .inl ⟨call, started (tidy.known q call (call_of_making makes).1).1, is, listed⟩
        · exact .inr ⟨q, call, by rw [others q here]; exact makes, is⟩
    · exact .inr ⟨p, call, makes, is⟩

theorem Tidy.quiet (tidy : Tidy root s) (sound : Sound root s) {before next : Phase}
    (was : s.phase p = before) (is : after.phase p = next)
    (others : ∀ q, q ≠ p → after.phase q = s.phase q) (started : after.started = s.started)
    (ledger : after.ledger = s.ledger) (directories : after.directories = s.directories)
    (own : ∀ call, next.call? = some call → before.call? = some call)
    (new : ∀ call, next = .checked call → ¬ s.Lists call.programId)
    (making : ∀ call, before.making = some call → next.making = some call)
    (blocks : BlocksNobody after) : Tidy root after := by
  apply tidy.move sound was is others (fun _ held => started ▸ held) _ [] _ nofun
    (fun some_ => absurd rfl some_) _ _ _ (fun call is => .inl (making call is)) blocks
  · rw [started]
    exact tidy.apart
  · simpa using ledger
  · intro call has
    rw [started]
    exact tidy.known p call (by rw [was]; exact own call has)
  · intro call at_ listed
    exact new call at_ (listed.grown fun _ held => ledger ▸ held)
  · rw [directories]
    exact fun d member => .inl member

theorem BlocksNobody.same (blocks : BlocksNobody s) (outcomes : after.outcomes = s.outcomes)
    (ledger : s.ledger ⊆ after.ledger) : BlocksNobody after := by
  intro call error member hex
  exact (blocks call error (outcomes ▸ member) hex).grown ledger

theorem BlocksNobody.raised (blocks : BlocksNobody s)
    (listed : call.isHexadecimal → s.Lists call.programId) :
    BlocksNobody (s.finish p (.raised call error)) := by
  intro other error' member hex
  rw [finish_outcomes, mem_append, mem_singleton] at member
  rcases member with old | is
  · exact blocks other error' old hex
  · cases is
    exact listed hex

theorem BlocksNobody.returned (blocks : BlocksNobody s) :
    BlocksNobody (s.finish p (.returned call)) := by
  intro other error member hex
  rw [finish_outcomes, mem_append, mem_singleton] at member
  rcases member with old | is
  · exact blocks other error old hex
  · cases is

theorem Tidy.absent (tidy : Tidy root s) (sound : Sound root s) (at_ : s.phase p = .checked call) :
    call.directory ∉ s.directories := by
  have holds : s.holder = some p := sound.inside p (by rw [at_]; simp [Phase.rank])
  have mine := (tidy.known p call (by rw [at_]; rfl)).1
  intro there
  rcases tidy.taken _ there with ⟨other, known, is, listed⟩ | ⟨q, other, makes, -⟩
  · rw [tidy.apart other known call mine is] at listed
    exact tidy.new p call at_ listed
  · have same : q = p := by
      have holds' := sound.inside q (call_of_making makes).2
      exact some.inj (holds'.symm.trans holds)
    rw [same, at_] at makes
    cases makes

private theorem tidy_start : Tidy root {} :=
  ⟨nofun, nofun, nofun, nofun, nofun, nofun⟩

variable {q : Nat} {kept : Option Kept}

section
variable (tidy : Tidy root s)
include tidy

/-- The programs of one directory stay one when a call is added that agrees with the others. -/
theorem Tidy.apart_append (distinct : ∀ other ∈ s.started,
      other.directory = call.directory → other.programId = call.programId) :
    ∀ a ∈ s.started ++ [call], ∀ b ∈ s.started ++ [call],
      a.directory = b.directory → a.programId = b.programId := by
  intro a memberA b memberB same
  rw [mem_append, mem_singleton] at memberA memberB
  rcases memberA with memberA | rfl <;> rcases memberB with memberB | rfl
  · exact tidy.apart a memberA b memberB same
  · exact distinct a memberA same
  · exact (distinct b memberB same.symm).symm
  · rfl

section
variable (sound : Sound root s)
include sound

theorem Tidy.syncs (at_ : s.phase q = .flushed call) :
    Tidy root ({ s with ledger := s.ledger ++ s.cache, cache := [] }.goto q (.synced call)) := by
  have holds := sound.inside q (by rw [at_]; simp [Phase.rank])
  have held := sound.held q holds
  rw [at_] at held
  -- the row that was written is all that the cache holds
  have cache : s.cache = [(call.row root, .line)] := held.1
  refine tidy.move sound at_ (if_pos rfl) (fun r other => if_neg other) (List.Subset.refl _)
    tidy.apart s.cache rfl ?_ (fun _ => holds) ?_ nofun (fun d member => .inl member) ?_
    (tidy.blocks.same rfl (subset_append_left _ _))
  · intro entry member
    rw [cache, mem_singleton] at member
    rw [member]
  · intro other is
    exact tidy.known q other (by rw [at_]; exact is)
  · intro other makes
    cases makes
    refine .inr ⟨(call.row root, .line), ?_, rfl⟩
    rw [goto_ledger, cache]
    exact mem_append_right _ mem_cons_self

theorem Tidy.dies (orderly : Orderly s (.crash q kept))
    (dry : ∀ call, s.phase q ≠ .written call ∧ s.phase q ≠ .flushed call) :
    Tidy root (s.release q) := by
  refine tidy.quiet sound rfl (if_pos rfl) (fun r other => if_neg other) rfl rfl rfl
    nofun nofun ?_ (tidy.blocks.same rfl (List.Subset.refl _))
  intro other makes
  -- an orderly process does not die with a directory and no row
  cases at_ : s.phase q with
  | made call =>
    rw [Orderly, at_] at orderly
    cases orderly
  | written call => exact absurd at_ (dry call).1
  | flushed call => exact absurd at_ (dry call).2
  | idle | opened call | locked call | checked call | synced call =>
    rw [at_] at makes
    cases makes

theorem Tidy.tears (orderly : Orderly s (.crash q kept))
    (at_ : s.phase q = .written call ∨ s.phase q = .flushed call) :
    Tidy root ((leaves root s call kept).release q) := by
  -- an orderly tear leaves the whole row, which accounts for the directory
  have whole : kept = some .line := by
    rw [Orderly] at orderly
    rcases at_ with at_ | at_ <;> rw [at_] at orderly <;> exact of_decide_eq_true orderly
  have making : (s.phase q).making = some call := by
    rcases at_ with at_ | at_ <;> rw [at_] <;> rfl
  have holds := sound.inside q (call_of_making making).2
  subst whole
  refine tidy.move sound rfl (if_pos rfl) (fun r other => if_neg other) (List.Subset.refl _)
    tidy.apart [(call.row root, .line)] rfl ?_ (fun _ => holds) nofun nofun
    (fun d member => .inl member) ?_ (tidy.blocks.same rfl (subset_append_left _ _))
  · intro entry member
    rw [mem_singleton] at member
    rw [member]
  · intro other makes
    cases some.inj (making.symm.trans makes)
    exact .inr ⟨_, mem_append_right _ mem_cons_self, rfl⟩

/-- Every orderly step keeps the ledger whole and the directories accounted for. -/
theorem Tidy.step (orderly : Orderly s a)
    (moves : Moves root s a after) : Tidy root after := by
  have distinct : ∀ {q call}, Orderly s (.start q call) → ∀ other ∈ s.started,
      other.directory = call.directory → other.programId = call.programId := by
    intro q call orderly other member same
    have either := all_eq_true.mp orderly other member
    simpa [same] using either
  cases moves with
  | opens q call at_ hex =>
    -- a started call is listed, and nothing is written yet
    refine tidy.move sound at_ (if_pos rfl) (fun r other => if_neg other)
      (subset_append_left _ _) (tidy.apart_append (distinct orderly)) [] (append_nil _).symm nofun
      (fun some_ => absurd rfl some_) ?_ nofun (fun d member => .inl member) nofun
      (tidy.blocks.same rfl (List.Subset.refl _))
    intro other is
    cases is
    exact ⟨mem_append_right _ mem_cons_self, hex⟩
  | refuses q call at_ hex =>
    refine tidy.move sound at_ (if_pos rfl) (fun r other => if_neg other)
      (subset_append_left _ _) (tidy.apart_append (distinct orderly)) [] (append_nil _).symm nofun
      (fun some_ => absurd rfl some_) nofun nofun (fun d member => .inl member) nofun ?_
    apply BlocksNobody.raised (s := { s with started := s.started ++ [call] })
    · exact tidy.blocks.same rfl (List.Subset.refl _)
    · intro is
      rw [hex] at is
      cases is
  | locks q call at_ free =>
    exact tidy.quiet sound at_ (if_pos rfl) (fun r other => if_neg other) rfl rfl rfl
      (fun _ => id) nofun nofun (tidy.blocks.same rfl (List.Subset.refl _))
  | checks q call at_ new =>
    refine tidy.quiet sound at_ (if_pos rfl) (fun r other => if_neg other) rfl rfl rfl
      (fun _ => id) ?_ nofun (tidy.blocks.same rfl (List.Subset.refl _))
    intro other is
    cases is
    -- the run was not found in the ledger, so its id is new there
    rintro ⟨entry, member, same⟩
    exact ne_of_findRun_ok new (mem_append_left _ member) same
  | finds q call error at_ old =>
    have held := sound.held q (sound.inside q (by rw [at_]; simp [Phase.rank]))
    rw [at_] at held
    refine tidy.quiet sound at_ (if_pos rfl) (fun r other => if_neg other) rfl rfl rfl
      nofun nofun nofun ?_
    apply tidy.blocks.raised
    -- what is found is in the ledger itself, since nothing is in the cache
    rw [show s.cache = [] from held, append_nil] at old
    exact fun _ => findRun_error tidy.whole old
  | blocks q call at_ there => exact absurd there (tidy.absent sound at_)
  | makes q call at_ absent =>
    refine tidy.move sound at_ (if_pos rfl) (fun r other => if_neg other) (List.Subset.refl _)
      tidy.apart [] (append_nil _).symm nofun (fun some_ => absurd rfl some_) ?_ nofun ?_ nofun
      (tidy.blocks.same rfl (List.Subset.refl _))
    · intro other is
      exact tidy.known q other (by rw [at_]; exact is)
    · intro d member
      rcases mem_cons.mp member with rfl | old
      · exact .inr ⟨call, rfl, rfl⟩
      · exact .inl old
  | writes q call at_ =>
    exact tidy.quiet sound at_ (if_pos rfl) (fun r other => if_neg other) rfl rfl rfl
      (fun _ => id) nofun (fun _ => id) (tidy.blocks.same rfl (List.Subset.refl _))
  | flushes q call at_ =>
    exact tidy.quiet sound at_ (if_pos rfl) (fun r other => if_neg other) rfl rfl rfl
      (fun _ => id) nofun (fun _ => id) (tidy.blocks.same rfl (List.Subset.refl _))
  | syncs q call at_ => exact tidy.syncs sound at_
  | returns q call at_ =>
    exact tidy.quiet sound at_ (if_pos rfl) (fun r other => if_neg other) rfl rfl rfl
      nofun nofun nofun tidy.blocks.returned
  | dies q kept busy dry => exact tidy.dies sound orderly dry
  | tears q call kept at_ => exact tidy.tears sound orderly at_

end

end

structure Ends (root : String) (p : Nat) (call : Call) (s after : State) : Prop where
  ran : ∃ n, Runs.run (step root) (List.replicate n (.advance p)) s = some after
  outcome : ∃ outcome : Outcome, outcome.call = call ∧ after.outcomes = s.outcomes ++ [outcome]
  idle : after.phase p = .idle
  free : after.holder = none
  others : ∀ q, q ≠ p → after.phase q = s.phase q

theorem ends_finish {outcome : Outcome} (is : outcome.call = call) (holds : s.holder = some p)
    (taken : advance root p s = some (s.finish p outcome)) : ∃ after, Ends root p call s after := by
  refine ⟨s.finish p outcome, ⟨1, ?_⟩, ⟨outcome, is, rfl⟩, if_pos rfl, if_pos holds,
    fun q other => if_neg other⟩
  rw [replicate_one, Runs.run, step, taken]
  rfl

theorem Ends.after_step {next : State} (taken : advance root p s = some next)
    (outcomes : next.outcomes = s.outcomes) (others : ∀ q, q ≠ p → next.phase q = s.phase q)
    (ends : ∃ after, Ends root p call next after) : ∃ after, Ends root p call s after := by
  obtain ⟨after, ⟨n, ran⟩, ⟨outcome, is, ended⟩, idle, free, rest⟩ := ends
  refine ⟨after, ⟨n + 1, ?_⟩, ⟨outcome, is, outcomes ▸ ended⟩, idle, free,
    fun q other => (rest q other).trans (others q other)⟩
  rw [replicate_succ, Runs.run, step, taken]
  exact ran

theorem ends_inside : ∀ (left : Nat) {s : State} {call : Call},
    (s.phase p).call? = some call → 2 ≤ (s.phase p).rank → (s.phase p).rank + left = 8 →
    s.holder = some p → ∃ after, Ends root p call s after
  | 0, s, call, is, inside, far, holds => by
    cases at_ : s.phase p <;> rw [at_] at far <;> simp [Phase.rank] at far
  | left + 1, s, call, is, inside, far, holds => by
    have next_ : ∀ (next : State) (phase : Phase), phase.call? = some call →
        phase.rank = (s.phase p).rank + 1 → advance root p s = some next → next.phase p = phase →
        next.holder = some p → next.outcomes = s.outcomes →
        (∀ q, q ≠ p → next.phase q = s.phase q) → ∃ after, Ends root p call s after := by
      intro next phase calls rank taken at_ holder outcomes others
      subst at_
      exact Ends.after_step taken outcomes others
        (ends_inside left calls (by omega) (by omega) holder)
    -- each phase inside the lock goes on to the next one, or ends the call with an error
    cases at_ : s.phase p with
    | idle | opened other => rw [at_] at inside; exact absurd inside (by simp [Phase.rank])
    | locked other =>
      rw [at_] at is
      cases is
      cases read : findRun call.programId (linesOf (s.ledger ++ s.cache)) with
      | ok value =>
        exact next_ (s.goto p (.checked call)) (.checked call) rfl (by rw [at_]; rfl)
          (by rw [advance, at_]; simp only [read]) (if_pos rfl) holds rfl fun q apart => if_neg apart
      | error error =>
        have is : (Outcome.raised call error).call = call := rfl
        exact ends_finish is holds (by rw [advance, at_]; simp only [read])
    | checked other =>
      rw [at_] at is
      cases is
      -- a directory that is there already raises
      by_cases there : call.directory ∈ s.directories
      · exact ends_finish rfl holds (by rw [advance, at_]; exact if_pos there)
      · exact next_ ({ s with directories := call.directory :: s.directories }.goto p (.made call))
          (.made call) rfl (by rw [at_]; rfl) (by rw [advance, at_]; exact if_neg there)
          (if_pos rfl) holds rfl fun q apart => if_neg apart
    | made other =>
      rw [at_] at is
      cases is
      exact next_ (s.goto p (.written call)) (.written call) rfl (by rw [at_]; rfl)
        (by rw [advance, at_]) (if_pos rfl) holds rfl fun q apart => if_neg apart
    | written other =>
      rw [at_] at is
      cases is
      exact next_ ({ s with cache := [(call.row root, .line)] }.goto p (.flushed call))
        (.flushed call) rfl (by rw [at_]; rfl) (by rw [advance, at_]) (if_pos rfl) holds rfl
        fun q apart => if_neg apart
    | flushed other =>
      rw [at_] at is
      cases is
      exact next_ ({ s with ledger := s.ledger ++ s.cache, cache := [] }.goto p (.synced call))
        (.synced call) rfl (by rw [at_]; rfl) (by rw [advance, at_]) (if_pos rfl) holds rfl
        fun q apart => if_neg apart
    | synced other =>
      rw [at_] at is
      cases is
      exact ends_finish rfl holds (by rw [advance, at_])

theorem rank_le (phase : Phase) : phase.rank ≤ 7 := by
  cases phase <;> simp [Phase.rank]

private theorem ends_any (sound : Sound root s) (is : (s.phase p).call? = some call) :
    ∃ (actions : List Nat) (after : State) (ends : List Outcome),
      Runs.run (step root) (actions.map .advance) s = some after ∧
        after.outcomes = s.outcomes ++ ends ∧ after.phase p = .idle ∧
        ∃ outcome ∈ ends, outcome.call = call := by
  have alone : ∀ {t : State}, (t.phase p).call? = some call → 2 ≤ (t.phase p).rank →
      t.holder = some p → ∃ after, Ends root p call t after := by
    intro t is inside holds
    have bound := rank_le (t.phase p)
    exact ends_inside (8 - (t.phase p).rank) is inside (by omega) holds
  by_cases inside : 2 ≤ (s.phase p).rank
  · obtain ⟨after, ⟨n, ran⟩, ⟨outcome, of_, ended⟩, idle, -⟩ :=
      alone is inside (sound.inside p inside)
    exact ⟨List.replicate n p, after, [outcome], by rw [map_replicate]; exact ran, ended, idle,
      outcome, mem_cons_self, of_⟩
  · have at_ : s.phase p = .opened call := by
      cases here : s.phase p <;> rw [here] at is inside <;> simp_all [Phase.rank, Phase.call?]
    -- From a state without a holder the call takes the lock itself.
    have free_ : ∀ {t : State}, t.phase p = .opened call → t.holder = none →
        ∃ after, Ends root p call t after := by
      intro t opened free
      have taken : advance root p t = some ({ t with holder := some p }.goto p (.locked call)) := by
        rw [advance, opened]
        exact if_pos free
      refine Ends.after_step taken rfl (fun q other => if_neg other) (alone ?_ ?_ rfl)
      · rw [goto_phase, if_pos rfl]
        rfl
      · rw [goto_phase, if_pos rfl]
        exact Nat.le_refl 2
    cases holder : s.holder with
    | none =>
      obtain ⟨after, ⟨n, ran⟩, ⟨outcome, of_, ended⟩, idle, -⟩ := free_ at_ holder
      exact ⟨List.replicate n p, after, [outcome], by rw [map_replicate]; exact ran, ended,
        idle, outcome, mem_cons_self, of_⟩
    | some q =>
      have other : q ≠ p := fun same => by
        have held := sound.held q holder
        rw [same, at_] at held
        exact held
      have held := sound.held q holder
      have calls : ∃ first, (s.phase q).call? = some first ∧ 2 ≤ (s.phase q).rank := by
        cases here : s.phase q <;> rw [here] at held <;>
          first | exact held.elim | exact ⟨_, rfl, by simp [Phase.rank]⟩
      obtain ⟨first, called, within⟩ := calls
      obtain ⟨middle, ⟨m, ran⟩, ⟨early, -, ended⟩, -, free, rest⟩ :=
        ends_inside (8 - (s.phase q).rank) called within
          (by have bound := rank_le (s.phase q); omega) holder
      obtain ⟨after, ⟨n, ran'⟩, ⟨outcome, of_, ended'⟩, idle, -⟩ :=
        free_ ((rest p other.symm).trans at_) free
      refine ⟨List.replicate m q ++ List.replicate n p, after, [early, outcome], ?_, ?_, idle,
        outcome, by simp, of_⟩
      · rw [map_append, map_replicate, map_replicate, Runs.run_append, ran]
        exact ran'
      · rw [ended', ended, append_assoc]
        rfl

private theorem meets_advances (actions : List Nat) (s : State) :
    Runs.Meets (step root) (fun s a => Orderly s a) (actions.map .advance) s := by
  induction actions generalizing s with
  | nil => trivial
  | cons p rest ih => exact ⟨rfl, fun next _ => ih next⟩

/-- So does every orderly run. -/
theorem tidy_of_run {actions : List Action} {first last : State}
    (holds : Sound root first ∧ Tidy root first)
    (orderly : Runs.Meets (step root) (fun s a => Orderly s a) actions first)
    (ran : Runs.run (step root) actions first = some last) : Sound root last ∧ Tidy root last := by
  have kept : ∀ s a next, Sound root s ∧ Tidy root s → Orderly s a → step root a s = some next →
      Sound root next ∧ Tidy root next := by
    intro s a next both orderly taken
    have moves := moves_of_step taken
    exact ⟨both.1.step moves, both.2.step both.1 orderly moves⟩
  exact Runs.run_invariant kept holds orderly ran

/-- From a tidy state a call can be completed. -/
theorem completes_of_tidy (sound : Sound root s) (tidy : Tidy root s) : Completes root s := by
  intro p call is
  obtain ⟨actions, after, ends, ran, ended, idle, outcome, member, of_⟩ := ends_any sound is
  refine ⟨actions, after, ends, ran, ended, idle, ?_⟩
  cases outcome with
  | returned other =>
    cases of_
    exact .inl member
  | raised other error =>
    cases of_
    have later := (tidy_of_run ⟨sound, tidy⟩ (meets_advances actions s) ran).2
    have hex := (tidy.known p other is).2
    exact .inr ⟨error, member, later.blocks other error
      (by rw [ended]; exact mem_append_right _ member) hex⟩

end Sound

/-- In every run no program is reserved twice and no directory is returned twice. In every orderly
run a call that raises has its id in the ledger, and every call under way can end. -/
theorem pilot_spent_once {root : String} {actions : List Action} {last : State}
    (ran : Runs.run (step root) actions {} = some last) :
    SpentOnce last ∧ (Runs.Meets (step root) (fun s a => Orderly s a) actions {} →
      BlocksNobody last ∧ Completes root last) := by
  constructor
  · have reached : Runs.Reachable (step root) (· = {}) last := ⟨_, actions, rfl, ran⟩
    have sound : Sound root last := by
      apply Runs.reachable_invariant _ _ reached
      · rintro s rfl
        exact sound_start
      · exact fun s a next sound taken => sound.step (moves_of_step taken)
    exact sound.spent.once
  · intro orderly
    obtain ⟨sound, tidy⟩ := tidy_of_run ⟨sound_start, tidy_start⟩ orderly ran
    exact ⟨tidy.blocks, completes_of_tidy sound tidy⟩

def firstCall : Call := ⟨"0123456789abcdef", "2026-10-01"⟩

def secondCall : Call := ⟨"fedcba9876543210", "2026-10-01"⟩

/-- Two processes at once, of which the second one crashes once its line is flushed; then it is
started again. -/
def twoCalls : List Action :=
  [.start 0 firstCall, .start 1 secondCall, .advance 0, .advance 0, .advance 0, .advance 0,
    .advance 0, .advance 0, .advance 0, .advance 1, .advance 1, .advance 1, .advance 1, .advance 1,
    .crash 1 (some .line), .start 1 secondCall, .advance 1]

theorem pilot_spent_once_twoCalls :
    ∃ last, Runs.run (step "out") twoCalls {} = some last ∧ SpentOnce last ∧
      BlocksNobody last ∧ Completes "out" last := by
  obtain ⟨last, ran⟩ : ∃ last, Runs.run (step "out") twoCalls {} = some last :=
    isSome_iff_exists.mp (by decide +kernel)
  have both := pilot_spent_once ran
  exact ⟨last, ran, both.1, both.2 (Runs.meets_of_allowed (fun _ _ => id) (by decide +kernel))⟩

/-- A crash between the directory and the line: another call of the day for the program raises, and
the ledger does not name it. -/
theorem crash_blocks :
    ∃ last, Runs.run (step "out")
        [.start 0 firstCall, .advance 0, .advance 0, .advance 0, .crash 0 none,
          .start 0 firstCall, .advance 0, .advance 0, .advance 0] {} = some last ∧
      ¬ BlocksNobody last := by
  refine ⟨_, rfl, fun blocks => ?_⟩
  obtain ⟨entry, member, -⟩ :=
    blocks firstCall .directoryExists mem_cons_self (by decide +kernel)
  cases member

end OpenUltraSast.Hunt.Report
