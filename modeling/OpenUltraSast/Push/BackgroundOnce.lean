import OpenUltraSast.Push.Background

/-!
# One replay, one showing

The two halves of a run are told apart: the gate, which the starting hooks work on, and the desk,
which the showing ones work on.
-/

namespace OpenUltraSast.Push.Background

open List

theorem setPhase_self (phase : Nat → Phase) (p : Nat) (new : Phase) : setPhase phase p new p = new :=
  if_pos rfl

variable {p : Nat} {s : State} {head : Head} {q : Nat}

theorem setPhase_of_ne (phase : Nat → Phase) (new : Phase) (other : q ≠ p) :
    setPhase phase p new q = phase q := if_neg other

/-- A phase as far as `start` goes. -/
def Phase.starting : Phase → Phase
  | scanning .. | unmarked .. | gathered .. => idle
  | phase => phase

structure Gate where
  alive : Nat → Bool
  replays : List Replay
  newest : Option Nat
  view : Nat → Phase

def State.gate (s : State) : Gate :=
  ⟨s.alive, s.replays, s.newest, fun p => (s.phase p).starting⟩

/-- Only the newest replay is alive. A reading that is not stale named it, and once that was
tested it is gone. -/
structure Alone (g : Gate) : Prop where
  one : g.replays.length ≤ 1
  only : ∀ replay ∈ g.replays, g.newest = some replay.pid
  alive : ∀ replay ∈ g.replays, 0 < replay.pid ∧ g.alive replay.pid = true
  seen : ∀ p head pid, g.view p = .seen head pid false → g.newest = none ∨ pid = g.newest
  cleared : ∀ p head, g.view p = .cleared head false → g.replays = []

variable {new : Phase}

private theorem setPhase_eq (phase : Nat → Phase) (same : new = phase p) :
    setPhase phase p new = phase := by
  funext q
  by_cases here : q = p
  · rw [here, setPhase_self, same]
  · exact setPhase_of_ne _ _ here

section
variable (alone : Alone s.gate)
include alone

theorem Alone.go {n : Phase}
    (seen : ∀ head pid, n = .seen head pid false → s.newest = none ∨ pid = s.newest)
    (cleared : ∀ head, n = .cleared head false → s.replays = []) : Alone (s.go p n).gate := by
  have at_ {q : Nat} {phase : Phase} (is : (s.go p n).gate.view q = phase) :
      q = p ∧ n.starting = phase ∨ s.gate.view q = phase := by
    by_cases here : q = p
    · subst here
      exact .inl ⟨rfl, (congrArg Phase.starting (setPhase_self s.phase q n)).symm.trans is⟩
    · exact .inr ((congrArg Phase.starting (setPhase_of_ne s.phase n here)).symm.trans is)
  constructor
  case one => exact alone.one
  case only => exact alone.only
  case alive => exact alone.alive
  case seen =>
    intro q head pid is
    rcases at_ is with ⟨-, is⟩ | old
    · apply seen head pid
      cases n <;> simp_all [Phase.starting]
    · exact alone.seen q head pid old
  case cleared =>
    intro q head is
    rcases at_ is with ⟨-, is⟩ | old
    · apply cleared head
      cases n <;> simp_all [Phase.starting]
    · exact alone.cleared q head old

private theorem alone_readLock (p : Nat) (head : Head) :
    Alone (s.go p (.seen head s.lock.join !s.namesNewest)).gate := by
  apply alone.go
  · intro other pid is
    cases newest : s.newest with
    | none => exact .inl rfl
    | some n =>
      simp only [Phase.seen.injEq, Bool.not_eq_false', State.namesNewest, newest] at is
      obtain ⟨-, rfl, names⟩ := is
      have lock : s.lock = some (some n) := by simpa using names
      rw [lock]
      exact .inr rfl
  · nofun

private theorem alone_test {pid : Option Nat} {stale : Bool}
    (sees : s.phase p = .seen head pid stale) :
    Alone (s.go p (if s.aliveAt pid then .idle else .cleared head stale)).gate := by
  apply alone.go
  · intro other pid' is
    split at is <;> cases is
  · intro other is
    split at is
    next => cases is
    next dead =>
      cases is
      have view : s.gate.view p = .seen head pid false := congrArg Phase.starting sees
      -- A replay that is alive is the newest one, and the reading would have found it.
      rcases eq_nil_or_concat s.replays with none | ⟨before, replay, some⟩
      · exact none
      · have member : replay ∈ s.replays := by
          rw [some, concat_eq_append]
          exact mem_append_right _ (mem_singleton_self _)
        have newest := alone.only replay member
        rcases alone.seen p head pid view with old | old
        · exact absurd (old.symm.trans newest) nofun
        · have named : pid = Option.some replay.pid := old.trans newest
          have lives := alone.alive replay member
          rw [named, State.aliveAt] at dead
          simp only [Option.any_some, Bool.and_eq_true, decide_eq_true_eq] at dead
          exact absurd lives dead

private theorem alone_launch {pid : Nat} (clear : s.phase p = .cleared head false)
    (positive : 0 < pid) : Alone (s.launch p pid head).gate := by
  have none : s.replays = [] := alone.cleared p head (congrArg Phase.starting clear)
  have replays : (s.launch p pid head).gate.replays = [{ pid := pid, head := head }] := by
    change s.replays ++ _ = _
    rw [none]
    rfl
  -- Every other reading is stale now.
  have stale (q : Nat) : (∀ other pid', (s.launch p pid head).gate.view q ≠ .seen other pid' false) ∧
      ∀ other, (s.launch p pid head).gate.view q ≠ .cleared other false := by
    change (∀ other pid', (setPhase (fun q => (s.phase q).overtake) p (.spawned pid) q).starting ≠ _) ∧
      ∀ other, (setPhase (fun q => (s.phase q).overtake) p (.spawned pid) q).starting ≠ _
    by_cases here : q = p
    · rw [here, setPhase_self]
      exact ⟨nofun, nofun⟩
    · rw [setPhase_of_ne _ _ here]
      cases s.phase q <;> exact ⟨nofun, nofun⟩
  constructor
  case one => rw [replays]; exact le_rfl
  case only =>
    intro replay member
    rw [replays, mem_singleton] at member
    rw [member]
    rfl
  case alive =>
    intro replay member
    rw [replays, mem_singleton] at member
    rw [member]
    exact ⟨positive, by simp [State.gate, State.launch]⟩
  case seen => exact fun q other pid' is => absurd is ((stale q).1 other pid')
  case cleared => exact fun q other is => absurd is ((stale q).2 other)

private theorem alone_die (pid : Nat) :
    Alone { s.gate with
      alive := fun other => other ≠ pid && s.alive other
      replays := s.replays.filter fun replay => replay.pid ≠ pid } := by
  constructor
  case one => exact (length_filter_le _ _).trans alone.one
  case only => exact fun replay member => alone.only replay (mem_of_mem_filter member)
  case alive =>
    intro replay member
    obtain ⟨there, other⟩ := mem_filter.mp member
    obtain ⟨positive, lives⟩ := alone.alive replay there
    exact ⟨positive, Bool.and_eq_true_iff.mpr ⟨other, lives⟩⟩
  case seen => exact alone.seen
  case cleared =>
    intro p head is
    have none : s.replays = [] := alone.cleared p head is
    change s.replays.filter _ = []
    rw [none]
    rfl

private theorem alone_finish (pid : Nat) :
    Alone { s.gate with
      replays := s.replays.map fun other =>
        if other.pid = pid then { other with done := true } else other } := by
  have back {replay : Replay} (member : replay ∈ s.replays.map fun other =>
      if other.pid = pid then { other with done := true } else other) :
      ∃ other ∈ s.replays, other.pid = replay.pid := by
    obtain ⟨other, there, rfl⟩ := mem_map.mp member
    exact ⟨other, there, by split <;> rfl⟩
  constructor
  case one =>
    change (s.replays.map _).length ≤ 1
    rw [length_map]
    exact alone.one
  case only =>
    intro replay member
    obtain ⟨other, there, same⟩ := back member
    exact same ▸ alone.only other there
  case alive =>
    intro replay member
    obtain ⟨other, there, same⟩ := back member
    exact same ▸ alone.alive other there
  case seen => exact alone.seen
  case cleared =>
    intro p head is
    have none : s.replays = [] := alone.cleared p head is
    change s.replays.map _ = []
    rw [none]
    rfl

private theorem alone_fork (pid : Nat) :
    Alone { s.gate with alive := fun other => other = pid || s.alive other } := by
  constructor
  case one => exact alone.one
  case only => exact alone.only
  case alive =>
    intro replay member
    obtain ⟨positive, lives⟩ := alone.alive replay member
    exact ⟨positive, Bool.or_eq_true_iff.mpr (.inr lives)⟩
  case seen => exact alone.seen
  case cleared => exact alone.cleared

end

variable {action : Action} {next : State}

/-- Each orderly step leaves at most one replay. -/
theorem alone_step (alone : Alone s.gate) (orderly : Orderly s action)
    (taken : step action s = some next) : Alone next.gate := by
  -- the gate counts the replays that run; the steps of a scan leave it alone
  cases action with
  | readLock p head =>
    rw [step, Option.ite_none_right_eq_some, Option.some.injEq] at taken
    obtain ⟨-, rfl⟩ := taken
    exact alone_readLock alone p head
  | test p =>
    rw [step] at taken
    split at taken
    next sees =>
      cases taken
      exact alone_test alone sees
    next => cases taken
  | spawn p pid =>
    rw [step] at taken
    split at taken
    next head stale clear =>
      rw [Option.ite_none_right_eq_some, Option.some.injEq] at taken
      obtain ⟨⟨positive, -⟩, rfl⟩ := taken
      cases stale with
      | false => exact alone_launch alone clear positive
      -- an orderly call does not take the lock of a dead replay for a live one
      | true => exact absurd clear (orderly head)
    next => cases taken
  | truncate p =>
    rw [step] at taken
    split at taken
    next pid spawned =>
      cases taken
      exact alone.go (p := p) (n := .opened pid) nofun nofun
    next => cases taken
  | writeLock p =>
    rw [step] at taken
    split at taken
    next =>
      cases taken
      exact alone.go (p := p) (n := .idle) nofun nofun
    next => cases taken
  | begin_ pid =>
    obtain ⟨replay, -, rfl⟩ := Option.map_eq_some_iff.mp taken
    exact alone
  | finish pid =>
    obtain ⟨replay, -, rfl⟩ := Option.map_eq_some_iff.mp taken
    exact alone_finish alone pid
  | fork pid =>
    rw [step, Option.ite_none_left_eq_some, Option.some.injEq] at taken
    obtain ⟨-, rfl⟩ := taken
    exact alone_fork alone pid
  | die pid =>
    cases taken
    exact alone_die alone pid
  | list p order =>
    rw [step, Option.ite_none_right_eq_some, Option.some.injEq] at taken
    obtain ⟨-, rfl⟩ := taken
    exact alone.go nofun nofun
  | check p =>
    rw [step] at taken
    split at taken
    next =>
      cases taken
      apply alone.go <;> split <;> exact nofun
    next => cases taken
  | read p ok =>
    rw [step] at taken
    split at taken
    next =>
      split at taken <;> (cases taken; exact alone.go nofun nofun)
    next => cases taken
  | touch p ok =>
    rw [step] at taken
    split at taken
    next head listed left shown gathered =>
      cases taken
      exact alone.go (p := p) (n := .scanning listed left shown) nofun nofun
    next => cases taken
  | give p =>
    rw [step] at taken
    split at taken
    next =>
      cases taken
      exact alone.go (p := p) (n := .idle) nofun nofun
    next => cases taken
  | leave p =>
    rw [step, Option.ite_none_left_eq_some, Option.some.injEq] at taken
    obtain ⟨-, rfl⟩ := taken
    exact alone.go nofun nofun

/-- A phase as far as `previous` goes. -/
def Phase.showing : Phase → Phase
  | seen .. | cleared .. | spawned .. | opened .. => idle
  | phase => phase

def Phase.listed : Phase → List Nat
  | scanning listed _ _ | unmarked _ listed _ _ | gathered _ listed _ _ => listed
  | _ => []

def Phase.todo : Phase → List Head
  | scanning _ left _ | gathered _ _ left _ => left
  | unmarked head _ left _ => head :: left
  | _ => []

def Phase.gatheredAt : Phase → Option Head
  | gathered head _ _ _ => some head
  | _ => none

structure Desk where
  files : List (Head × File)
  markers : List Head
  written : Nat
  returned : List Nat
  due : List Nat
  view : Nat → Phase

def State.desk (s : State) : Desk :=
  ⟨s.files, s.markers, s.written, s.returned, s.due, fun p => (s.phase p).showing⟩

namespace Desk

variable (d : Desk)

def Holds (head : Head) (artifact : Nat) : Prop := d.files.lookup head = some (.complete artifact)

/-- An artifact is returned, or a call is going to return it. -/
def Taken (artifact : Nat) : Prop := artifact ∈ d.returned ∨ ∃ p, artifact ∈ (d.view p).shown

def go (p : Nat) (new : Phase) : Desk := { d with view := setPhase d.view p new }

end Desk

/-- No artifact is taken twice. An artifact in the directory is taken once its head is marked or a
call is about to mark it, and not before. A call has what it listed taken or still to do. -/
structure Fair (d : Desk) : Prop where
  keys : (Dicts.keys d.files).Nodup
  distinct : d.returned.Nodup
  own : ∀ p, (d.view p).shown.Nodup
  apart : ∀ p q, p ≠ q → (d.view p).shown.Disjoint (d.view q).shown
  fresh : ∀ p, (d.view p).shown.Disjoint d.returned
  known : ∀ artifact, d.Taken artifact → artifact < d.written
  filed : ∀ head artifact, d.Holds head artifact → artifact < d.written
  heads : ∀ head other artifact, d.Holds head artifact → d.Holds other artifact → head = other
  single : ∀ p q head, (d.view p).on = some head → (d.view q).on = some head → p = q
  unmarked : ∀ p head, (d.view p).on = some head → head ∉ d.markers
  taken : ∀ head artifact, d.Holds head artifact → d.Taken artifact →
    head ∈ d.markers ∨ ∃ p, (d.view p).gatheredAt = some head
  gathered : ∀ p head, (d.view p).gatheredAt = some head →
    ∃ artifact, d.Holds head artifact ∧ artifact ∈ (d.view p).shown
  marked : ∀ head artifact, head ∈ d.markers → d.Holds head artifact → d.Taken artifact
  owes : ∀ p, ∀ artifact ∈ (d.view p).listed, d.Taken artifact ∨
    ∃ head ∈ (d.view p).todo, d.Holds head artifact
  due : ∀ artifact ∈ d.due, d.Taken artifact

theorem shown_showing (phase : Phase) : phase.showing.shown = phase.shown := by
  cases phase <;> rfl

private theorem on_showing (phase : Phase) : phase.showing.on = phase.on := by
  cases phase <;> rfl

private theorem shownOnce_of_fair (fair : Fair s.desk) : ShownOnce s := by
  refine ⟨fair.distinct, fun artifact member => ?_⟩
  rcases fair.due artifact member with returned | ⟨p, held⟩
  · exact .inl returned
  · exact .inr ⟨p, shown_showing (s.phase p) ▸ held⟩

theorem desk_go (s : State) (p : Nat) (new : Phase) : (s.go p new).desk = s.desk.go p new.showing := by
  rw [State.desk, State.desk, Desk.go]
  congr 1
  funext q
  change (setPhase s.phase p new q).showing = setPhase (fun q => (s.phase q).showing) p new.showing q
  by_cases here : q = p
  · rw [here, setPhase_self, setPhase_self]
  · rw [setPhase_of_ne _ _ here, setPhase_of_ne _ _ here]

theorem Fair.go {d : Desk} (fair : Fair d) (shown : new.shown = (d.view p).shown)
    (on : ∀ head, new.on = some head → head ∉ d.markers ∧ ∀ q, q ≠ p → (d.view q).on ≠ some head)
    (before : (d.view p).gatheredAt = none) (after : new.gatheredAt = none)
    (owes : ∀ artifact ∈ new.listed, d.Taken artifact ∨ ∃ head ∈ new.todo, d.Holds head artifact) :
    Fair (d.go p new) := by
  -- no call takes or gives up anything
  have same (q : Nat) : ((d.go p new).view q).shown = (d.view q).shown := by
    by_cases here : q = p
    · exact here ▸ (congrArg Phase.shown (setPhase_self d.view p new)).trans shown
    · exact congrArg Phase.shown (setPhase_of_ne d.view new here)
  have taken (artifact : Nat) : (d.go p new).Taken artifact ↔ d.Taken artifact := by
    rw [Desk.Taken, Desk.Taken]
    simp only [same]
    rfl
  have gathers (q : Nat) (head : Head) : ((d.go p new).view q).gatheredAt = some head ↔
      (d.view q).gatheredAt = some head := by
    by_cases here : q = p
    · subst here
      rw [show (d.go q new).view q = new from setPhase_self d.view q new, before, after]
    · rw [show (d.go p new).view q = d.view q from setPhase_of_ne d.view new here]
  -- a call on a head is this one in its new phase, or another as before
  have onHead {q : Nat} {head : Head} (is : ((d.go p new).view q).on = some head) :
      q = p ∧ new.on = some head ∨ q ≠ p ∧ (d.view q).on = some head := by
    by_cases here : q = p
    · subst here
      exact .inl ⟨rfl, (congrArg Phase.on (setPhase_self d.view q new)).symm.trans is⟩
    · exact .inr ⟨here, (congrArg Phase.on (setPhase_of_ne d.view new here)).symm.trans is⟩
  constructor
  case keys => exact fair.keys
  case distinct => exact fair.distinct
  case own => exact fun q => same q ▸ fair.own q
  case apart =>
    intro q r other
    rw [same, same]
    exact fair.apart q r other
  case fresh =>
    intro q
    rw [same]
    exact fair.fresh q
  case known => exact fun artifact is => fair.known artifact ((taken artifact).mp is)
  case filed => exact fair.filed
  case heads => exact fair.heads
  case single =>
    intro q r head first second
    rcases onHead first with ⟨rfl, mine⟩ | ⟨other, theirs⟩
    · rcases onHead second with ⟨rfl, -⟩ | ⟨apart, again⟩
      · rfl
      · -- the new head is one that no other call is on
        exact absurd again ((on head mine).2 r apart)
    · rcases onHead second with ⟨rfl, mine⟩ | ⟨-, again⟩
      · exact absurd theirs ((on head mine).2 q other)
      · exact fair.single q r head theirs again
  case unmarked =>
    intro q head is
    rcases onHead is with ⟨-, mine⟩ | ⟨-, theirs⟩
    · exact (on head mine).1
    · exact fair.unmarked q head theirs
  case taken =>
    intro head artifact holds is
    simp only [gathers]
    exact fair.taken head artifact holds ((taken artifact).mp is)
  case gathered =>
    intro q head is
    rw [same]
    exact fair.gathered q head ((gathers q head).mp is)
  case marked => exact fun head artifact is holds => (taken artifact).mpr (fair.marked head artifact is holds)
  case owes =>
    intro q artifact member
    rw [taken]
    by_cases here : q = p
    · subst here
      rw [show (d.go q new).view q = new from setPhase_self d.view q new] at member ⊢
      exact owes artifact member
    · rw [show (d.go p new).view q = d.view q from setPhase_of_ne d.view new here] at member ⊢
      exact fair.owes q artifact member
  case due => exact fun artifact member => (taken artifact).mpr (fair.due artifact member)

theorem view_self (d : Desk) (p : Nat) (new : Phase) : (d.go p new).view p = new :=
  setPhase_self d.view p new

theorem view_of_ne (d : Desk) (new : Phase) (other : q ≠ p) :
    (d.go p new).view q = d.view q := setPhase_of_ne d.view new other

variable {listed shown : List Nat} {left : List Head}

/-- A call finds an artifact at a head that it is about to mark: no one has taken it. -/
theorem Fair.read {d : Desk} (fair : Fair d) {artifact : Nat}
    (here : d.view p = .unmarked head listed left shown) (holds : d.Holds head artifact) :
    Fair (d.go p (.gathered head listed left (shown ++ [artifact]))) := by
  have free : ¬ d.Taken artifact := by
    intro is
    rcases fair.taken head artifact holds is with marked | ⟨q, at_⟩
    · exact fair.unmarked p head (by rw [here]; rfl) marked
    · have on : (d.view q).on = some head := by
        cases view : d.view q <;> simp [view, Phase.gatheredAt, Phase.on] at at_ ⊢
        exact at_
      have same := fair.single q p head on (by rw [here]; rfl)
      rw [same, here] at at_
      cases at_
  have mine : (d.view p).shown = shown := by rw [here]; rfl
  have shownAt (q : Nat) (other : Nat) :
      other ∈ ((d.go p (.gathered head listed left (shown ++ [artifact]))).view q).shown ↔
        other ∈ (d.view q).shown ∨ q = p ∧ other = artifact := by
    by_cases at_ : q = p
    · subst at_
      rw [view_self, mine]
      simp [Phase.shown]
    · rw [view_of_ne d _ at_]
      simp [at_]
  have taken (other : Nat) :
      (d.go p (.gathered head listed left (shown ++ [artifact]))).Taken other ↔
        d.Taken other ∨ other = artifact := by
    simp only [Desk.Taken, shownAt, exists_or, exists_eq_left, or_assoc]
    rfl
  have onAt (q : Nat) : ((d.go p (.gathered head listed left (shown ++ [artifact]))).view q).on =
      (d.view q).on := by
    by_cases at_ : q = p
    · subst at_
      rw [view_self, here]
      rfl
    · rw [view_of_ne d _ at_]
  constructor
  case keys => exact fair.keys
  case distinct => exact fair.distinct
  case own =>
    intro q
    by_cases at_ : q = p
    · subst at_
      rw [view_self]
      have old : artifact ∉ shown := fun member => free (.inr ⟨q, mine ▸ member⟩)
      exact concat_eq_append ▸ (mine ▸ fair.own q : shown.Nodup).concat old
    · rw [view_of_ne d _ at_]
      exact fair.own q
  case apart =>
    intro q r other name first second
    rw [shownAt] at first second
    rcases first with first | ⟨rfl, rfl⟩
    · rcases second with second | ⟨rfl, rfl⟩
      · exact fair.apart q r other first second
      · exact free (.inr ⟨q, first⟩)
    · rcases second with second | ⟨again, -⟩
      · exact free (.inr ⟨r, second⟩)
      · exact other again.symm
  case fresh =>
    intro q name first returned
    rcases (shownAt q name).mp first with first | ⟨-, rfl⟩
    · exact fair.fresh q first returned
    · exact free (.inl returned)
  case known =>
    intro name is
    rcases (taken name).mp is with old | rfl
    · exact fair.known name old
    · exact fair.filed head name holds
  case filed => exact fair.filed
  case heads => exact fair.heads
  case single =>
    intro q r name first second
    rw [onAt] at first second
    exact fair.single q r name first second
  case unmarked =>
    intro q name is
    rw [onAt] at is
    exact fair.unmarked q name is
  case taken =>
    intro other name holds' is
    rcases (taken name).mp is with old | rfl
    · refine (fair.taken other name holds' old).imp_right ?_
      rintro ⟨q, at_⟩
      have moved : q ≠ p := by
        rintro rfl
        rw [here] at at_
        cases at_
      exact ⟨q, by rw [view_of_ne d _ moved]; exact at_⟩
    · refine .inr ⟨p, ?_⟩
      rw [view_self, fair.heads other head name holds' holds]
      rfl
  case gathered =>
    intro q other at_
    by_cases moved : q = p
    · subst moved
      rw [view_self] at at_ ⊢
      cases at_
      exact ⟨artifact, holds, mem_append_right _ (mem_singleton_self _)⟩
    · rw [view_of_ne d _ moved] at at_ ⊢
      exact fair.gathered q other at_
  case marked =>
    exact fun other name is holds' => (taken name).mpr (.inl (fair.marked other name is holds'))
  case owes =>
    intro q name member
    rw [taken]
    by_cases moved : q = p
    · subst moved
      rw [view_self] at member ⊢
      rcases fair.owes q name (by rw [here]; exact member) with is | ⟨other, due, holds'⟩
      · exact .inl (.inl is)
      · rw [here] at due
        rcases mem_cons.mp due with rfl | later
        · -- The head that was read holds one artifact.
          have same : File.complete name = .complete artifact :=
            Option.some.inj (holds'.symm.trans holds)
          exact .inl (.inr (File.complete.inj same))
        · exact .inr ⟨other, later, holds'⟩
    · rw [view_of_ne d _ moved] at member ⊢
      exact (fair.owes q name member).imp_left .inl
  case due => exact fun name member => (taken name).mpr (.inl (fair.due name member))

theorem Fair.touch {d : Desk} (fair : Fair d) (here : d.view p = .gathered head listed left shown) :
    Fair { d.go p (.scanning listed left shown) with markers := head :: d.markers } := by
  -- the artifact of the head is in the hands of the call
  obtain ⟨artifact, holds, member⟩ := fair.gathered p head (by rw [here]; rfl)
  have shownAt (q : Nat) :
      ((d.go p (.scanning listed left shown)).view q).shown = (d.view q).shown := by
    -- the call was on this head, which has its marker now
    by_cases at_ : q = p
    · subst at_
      rw [view_self, here]
      rfl
    · rw [view_of_ne d _ at_]
  have taken (name : Nat) :
      Desk.Taken { d.go p (.scanning listed left shown) with markers := head :: d.markers } name ↔
        d.Taken name := by
    simp only [Desk.Taken, shownAt]
    rfl
  have onAt {q : Nat} {name : Head}
      (is : ((d.go p (.scanning listed left shown)).view q).on = some name) :
      q ≠ p ∧ (d.view q).on = some name := by
    by_cases at_ : q = p
    · subst at_
      rw [view_self] at is
      cases is
    · rw [view_of_ne d _ at_] at is
      exact ⟨at_, is⟩
  constructor
  case keys => exact fair.keys
  case distinct => exact fair.distinct
  case own => exact fun q => shownAt q ▸ fair.own q
  case apart =>
    intro q r other
    change List.Disjoint ((d.go p _).view q).shown ((d.go p _).view r).shown
    rw [shownAt, shownAt]
    exact fair.apart q r other
  case fresh =>
    intro q
    change List.Disjoint ((d.go p _).view q).shown _
    rw [shownAt]
    exact fair.fresh q
  case known => exact fun name is => fair.known name ((taken name).mp is)
  case filed => exact fair.filed
  case heads => exact fair.heads
  case single =>
    intro q r name first second
    exact fair.single q r name (onAt first).2 (onAt second).2
  case unmarked =>
    intro q name is marked
    obtain ⟨apart, on⟩ := onAt is
    rcases mem_cons.mp marked with rfl | old
    · -- only one call is on a head, so no other is on the one that is marked now
      exact apart (fair.single q p name on (by rw [here]; rfl))
    · exact fair.unmarked q name on old
  case taken =>
    intro other name holds' is
    rcases fair.taken other name holds' ((taken name).mp is) with old | ⟨q, at_⟩
    · exact .inl (mem_cons_of_mem _ old)
    · by_cases moved : q = p
      · rw [moved, here] at at_
        cases at_
        exact .inl mem_cons_self
      · exact .inr ⟨q, by rw [view_of_ne d _ moved]; exact at_⟩
  case gathered =>
    intro q other at_
    change ((d.go p _).view q).gatheredAt = some other at at_
    change ∃ name, d.Holds other name ∧ name ∈ ((d.go p _).view q).shown
    by_cases moved : q = p
    · subst moved
      rw [view_self] at at_
      cases at_
    · rw [view_of_ne d _ moved] at at_ ⊢
      exact fair.gathered q other at_
  case marked =>
    intro other name marked holds'
    rw [taken]
    rcases mem_cons.mp marked with rfl | old
    · -- the head holds one artifact, the one the call has taken
      have same : File.complete name = .complete artifact :=
        Option.some.inj (holds'.symm.trans holds)
      rw [File.complete.inj same]
      exact .inr ⟨p, member⟩
    · exact fair.marked other name old holds'
  case owes =>
    intro q name member
    rw [taken]
    change name ∈ ((d.go p _).view q).listed at member
    change d.Taken name ∨ ∃ other ∈ ((d.go p _).view q).todo, d.Holds other name
    by_cases moved : q = p
    · subst moved
      rw [view_self] at member ⊢
      have owed := fair.owes q name (by rw [here]; exact member)
      rwa [here] at owed
    · rw [view_of_ne d _ moved] at member ⊢
      exact fair.owes q name member
  case due => exact fun name member => (taken name).mpr (fair.due name member)

theorem Fair.give {d : Desk} (fair : Fair d) (here : d.view p = .scanning listed [] shown) :
    Fair { d.go p .idle with returned := d.returned ++ shown, due := d.due ++ listed } := by
  have mine : (d.view p).shown = shown := by rw [here]; rfl
  -- what the call showed leaves its hands
  have shownAt (q : Nat) (name : Nat) : name ∈ ((d.go p .idle).view q).shown ↔
      q ≠ p ∧ name ∈ (d.view q).shown := by
    by_cases at_ : q = p
    · subst at_
      rw [view_self]
      simp [Phase.shown]
    · rw [view_of_ne d _ at_]
      simp [at_]
  -- and is among the returned ones instead, so what has been taken stays the same
  have taken (name : Nat) : Desk.Taken
      { d.go p .idle with returned := d.returned ++ shown, due := d.due ++ listed } name ↔
        d.Taken name := by
    rw [Desk.Taken, Desk.Taken, mem_append, ← mine]
    simp only [shownAt]
    constructor
    · rintro ((returned | own) | ⟨q, -, theirs⟩)
      · exact .inl returned
      · exact .inr ⟨p, own⟩
      · exact .inr ⟨q, theirs⟩
    · rintro (returned | ⟨q, theirs⟩)
      · exact .inl (.inl returned)
      · by_cases at_ : q = p
        · exact .inl (.inr (at_ ▸ theirs))
        · exact .inr ⟨q, at_, theirs⟩
  -- the phases of the other calls are as before, and this one is idle
  have other {q : Nat} {α : Type} {f : Phase → Option α} {x : α} (idle : f .idle = none)
      (is : f ((d.go p .idle).view q) = some x) : f (d.view q) = some x := by
    by_cases at_ : q = p
    · subst at_
      rw [view_self, idle] at is
      cases is
    · rwa [view_of_ne d _ at_] at is
  constructor
  case keys => exact fair.keys
  case distinct =>
    apply List.Nodup.append fair.distinct (mine ▸ fair.own p)
    intro name returned own
    exact fair.fresh p (mine.symm ▸ own) returned
  case own =>
    intro q
    change (((d.go p .idle).view q).shown).Nodup
    by_cases at_ : q = p
    · subst at_
      rw [view_self]
      exact nodup_nil
    · rw [view_of_ne d _ at_]
      exact fair.own q
  case apart =>
    intro q r apart name first second
    exact fair.apart q r apart ((shownAt q name).mp first).2 ((shownAt r name).mp second).2
  case fresh =>
    intro q name first returned
    obtain ⟨moved, held⟩ := (shownAt q name).mp first
    rcases mem_append.mp returned with old | own
    · exact fair.fresh q held old
    · exact fair.apart q p moved held (mine.symm ▸ own)
  case known => exact fun name is => fair.known name ((taken name).mp is)
  case filed => exact fair.filed
  case heads => exact fair.heads
  case single =>
    exact fun q r name first second => fair.single q r name (other rfl first) (other rfl second)
  case unmarked => exact fun q name is => fair.unmarked q name (other rfl is)
  case taken =>
    intro head name holds is
    refine (fair.taken head name holds ((taken name).mp is)).imp_right ?_
    rintro ⟨q, at_⟩
    have moved : q ≠ p := by
      rintro rfl
      rw [here] at at_
      cases at_
    exact ⟨q, (congrArg Phase.gatheredAt (view_of_ne d .idle moved)).trans at_⟩
  case gathered =>
    intro q head is
    have at_ : (d.view q).gatheredAt = some head := other rfl is
    have moved : q ≠ p := by
      rintro rfl
      rw [here] at at_
      cases at_
    obtain ⟨name, holds, held⟩ := fair.gathered q head at_
    exact ⟨name, holds, (shownAt q name).mpr ⟨moved, held⟩⟩
  case marked =>
    exact fun head name marked holds => (taken name).mpr (fair.marked head name marked holds)
  case owes =>
    intro q name member
    rw [taken]
    change name ∈ ((d.go p .idle).view q).listed at member
    change d.Taken name ∨ ∃ head ∈ ((d.go p .idle).view q).todo, d.Holds head name
    by_cases at_ : q = p
    · subst at_
      rw [view_self] at member
      cases member
    · rw [view_of_ne d _ at_] at member ⊢
      exact fair.owes q name member
  case due =>
    intro name member
    rw [taken]
    rcases mem_append.mp member with old | own
    · exact fair.due name old
    · have owed := fair.owes p name (by rw [here]; exact own)
      rw [here] at owed
      -- nothing is left to do, so each listed artifact has been taken
      exact owed.resolve_right fun ⟨_, nothing, _⟩ => not_mem_nil nothing

theorem Fair.refile {d : Desk} (fair : Fair d) (unmarked : head ∉ d.markers) {files : List (Head × File)}
    {written : Nat} (keys : (Dicts.keys files).Nodup) (grows : d.written ≤ written)
    (kept : ∀ other artifact, d.Holds other artifact →
      files.lookup other = some (.complete artifact))
    (new : ∀ other artifact, files.lookup other = some (.complete artifact) →
      d.Holds other artifact ∨ other = head ∧ artifact = d.written ∧ d.written < written) :
    Fair { d with files := files, written := written } := by
  constructor
  case keys => exact keys
  case distinct => exact fair.distinct
  case own => exact fair.own
  case apart => exact fair.apart
  case fresh => exact fair.fresh
  case known => exact fun name is => (fair.known name is).trans_le grows
  case filed =>
    intro other name holds
    -- the numbers of the files are below the next one
    rcases new other name holds with old | ⟨-, rfl, more⟩
    · exact (fair.filed other name old).trans_le grows
    · exact more
  case heads =>
    intro first second name one two
    rcases new first name one with old | ⟨here, number, -⟩
    · rcases new second name two with again | ⟨-, number, -⟩
      · exact fair.heads first second name old again
      · -- an old artifact does not have the new number
        exact absurd (fair.filed first name old) (number ▸ lt_irrefl _)
    · rcases new second name two with again | ⟨there, -, -⟩
      · exact absurd (fair.filed second name again) (number ▸ lt_irrefl _)
      · exact here.trans there.symm
  case single => exact fair.single
  case unmarked => exact fair.unmarked
  case taken =>
    intro other name holds is
    rcases new other name holds with old | ⟨-, rfl, -⟩
    · exact fair.taken other name old is
    · -- what has been taken has an earlier number
      exact absurd (fair.known _ is) (lt_irrefl _)
  case gathered =>
    intro p other at_
    obtain ⟨name, holds, held⟩ := fair.gathered p other at_
    exact ⟨name, kept other name holds, held⟩
  case marked =>
    intro other name marked holds
    rcases new other name holds with old | ⟨rfl, -, -⟩
    · exact fair.marked other name marked old
    · -- the head that gains an artifact has no marker
      exact absurd marked unmarked
  case owes =>
    intro p name member
    rcases fair.owes p name member with is | ⟨other, due, holds⟩
    · exact .inl is
    · exact .inr ⟨other, due, kept other name holds⟩
  case due => exact fair.due

theorem Fair.write {d : Desk} (fair : Fair d) (unmarked : head ∉ d.markers)
    (free : ∀ artifact, ¬ d.Holds head artifact) {file : File} {written : Nat}
    (grows : d.written ≤ written)
    (new : ∀ artifact, file = .complete artifact → artifact = d.written ∧ d.written < written) :
    Fair { d with files := Dicts.set d.files head file, written := written } := by
  apply fair.refile unmarked (Dicts.nodup_set fair.keys _ _) grows
  · intro other name holds
    have apart : other ≠ head := by
      rintro rfl
      exact free name holds
    rw [Dicts.lookup_set, if_neg apart]
    exact holds
  · intro other name holds
    rw [Dicts.lookup_set] at holds
    split at holds
    next here => exact .inr ⟨here, new name (Option.some.inj holds)⟩
    next => exact .inl holds

theorem holds_of_artifact (fair : Fair s.desk) {artifact : Nat} (member : artifact ∈ s.artifacts) :
    ∃ head ∈ Dicts.keys s.files, s.desk.Holds head artifact := by
  obtain ⟨⟨head, file⟩, there, is⟩ := mem_filterMap.mp member
  cases file with
  | writing => cases is
  | complete name =>
    cases is
    exact ⟨head, mem_map_of_mem there, Collections.lookup_of_nodup fair.keys there⟩

theorem desk_idle (old : (s.phase p).showing = .idle) (idle : new.showing = .idle) :
    (s.go p new).desk = s.desk := by
  rw [desk_go, idle, Desk.go, setPhase_eq _ old.symm]

/-- A spawn makes readings stale, and the desk knows no readings. -/
theorem desk_launch {pid : Nat} (idle : (s.phase p).showing = .idle) :
    (s.launch p pid head).desk = s.desk := by
  have same : (fun q => (setPhase (fun q => (s.phase q).overtake) p (.spawned pid) q).showing) =
      fun q => (s.phase q).showing := by
    funext q
    by_cases here : q = p
    · rw [here, setPhase_self, idle]
      rfl
    · rw [setPhase_of_ne _ _ here]
      cases s.phase q <;> rfl
  exact congrArg (Desk.mk s.files s.markers s.written s.returned s.due) same

section
variable (fair : Fair s.desk)
include fair

private theorem fair_list (idle : s.phase p = .idle) {order : List Head}
    (perm : order.Perm (Dicts.keys s.files)) :
    Fair (s.go p (.scanning s.artifacts order [])).desk := by
  have view : s.desk.view p = .idle := congrArg Phase.showing idle
  rw [desk_go]
  apply fair.go
  · rw [view]
    rfl
  · nofun
  · rw [view]
    rfl
  · rfl
  · intro artifact member
    obtain ⟨head, key, holds⟩ := holds_of_artifact fair member
    exact .inr ⟨head, perm.mem_iff.mpr key, holds⟩

private theorem fair_check (scans : s.phase p = .scanning listed (head :: left) shown)
    (alone : head ∉ s.markers → ∀ q, (s.phase q).on ≠ some head) :
    Fair (s.go p (if head ∈ s.markers then .scanning listed left shown
      else .unmarked head listed left shown)).desk := by
  have view : s.desk.view p = .scanning listed (head :: left) shown := congrArg Phase.showing scans
  rw [desk_go]
  split
  next marked =>
    apply fair.go
    · rw [view]
      rfl
    · nofun
    · rw [view]
      rfl
    · rfl
    · intro artifact member
      rcases fair.owes p artifact (by rw [view]; exact member) with is | ⟨other, due, holds⟩
      · exact .inl is
      · rw [view] at due
        rcases mem_cons.mp due with rfl | later
        -- A marked head's artifact is taken.
        · exact .inl (fair.marked other artifact marked holds)
        · exact .inr ⟨other, later, holds⟩
  next unmarked =>
    apply fair.go
    · rw [view]
      rfl
    · rintro other is
      cases is
      refine ⟨unmarked, fun q _ on => alone unmarked q ?_⟩
      rwa [← on_showing]
    · rw [view]
      rfl
    · rfl
    · intro artifact member
      have owed := fair.owes p artifact (by rw [view]; exact member)
      rwa [view] at owed

private theorem fair_skip (here : s.phase p = .unmarked head listed left shown)
    (free : ∀ artifact, s.files.lookup head ≠ some (.complete artifact)) :
    Fair (s.go p (.scanning listed left shown)).desk := by
  have view : s.desk.view p = .unmarked head listed left shown := congrArg Phase.showing here
  rw [desk_go]
  apply fair.go
  · rw [view]
    rfl
  · nofun
  · rw [view]
    rfl
  · rfl
  · intro artifact member
    rcases fair.owes p artifact (by rw [view]; exact member) with is | ⟨other, due, holds⟩
    · exact .inl is
    · rw [view] at due
      rcases mem_cons.mp due with rfl | later
      · exact absurd holds (free artifact)
      · exact .inr ⟨other, later, holds⟩

private theorem fair_leave (none : (s.phase p).shown = []) :
    Fair (s.go p .idle).desk := by
  have nothing : (s.desk.view p).shown = [] := (shown_showing _).trans none
  rw [desk_go]
  apply fair.go
  · exact nothing.symm
  · nofun
  · cases at_ : (s.desk.view p).gatheredAt with
    | none => rfl
    | some head =>
      obtain ⟨_, -, member⟩ := fair.gathered p head at_
      rw [nothing] at member
      cases member
  · rfl
  · nofun

/-- Each orderly step keeps every artifact shown at most once. -/
theorem fair_step (orderly : Orderly s action)
    (taken : step action s = some next) : Fair next.desk := by
  -- only the steps of a scan and of a replay that writes touch the desk
  cases action with
  | readLock p head =>
    rw [step, Option.ite_none_right_eq_some, Option.some.injEq] at taken
    obtain ⟨idle, rfl⟩ := taken
    rw [desk_idle (by rw [idle]; rfl) rfl]
    exact fair
  | test p =>
    rw [step] at taken
    split at taken
    next sees =>
      cases taken
      rw [desk_idle (by rw [sees]; rfl) (by split <;> rfl)]
      exact fair
    next => cases taken
  | spawn p pid =>
    rw [step] at taken
    split at taken
    next head stale clear =>
      rw [Option.ite_none_right_eq_some, Option.some.injEq] at taken
      obtain ⟨-, rfl⟩ := taken
      rw [desk_launch (by rw [clear]; rfl)]
      exact fair
    next => cases taken
  | truncate p =>
    rw [step] at taken
    split at taken
    next pid spawned =>
      cases taken
      have same : (s.go p (.opened pid)).desk = s.desk := desk_idle (by rw [spawned]; rfl) rfl
      exact same.symm ▸ fair
    next => cases taken
  | writeLock p =>
    rw [step] at taken
    split at taken
    next pid opened =>
      cases taken
      have same : (s.go p .idle).desk = s.desk := desk_idle (by rw [opened]; rfl) rfl
      exact same.symm ▸ fair
    next => cases taken
  | begin_ pid =>
    obtain ⟨replay, is, rfl⟩ := Option.map_eq_some_iff.mp taken
    obtain ⟨unmarked, free⟩ := orderly replay is
    -- the report is begun under a head that is unmarked and that no call is on
    exact fair.write unmarked free le_rfl nofun
  | finish pid =>
    obtain ⟨replay, is, rfl⟩ := Option.map_eq_some_iff.mp taken
    obtain ⟨unmarked, free⟩ := orderly replay is
    -- the report is complete, with the next number
    apply fair.write unmarked free (Nat.le_succ _)
    rintro artifact is
    cases is
    exact ⟨rfl, Nat.lt_succ_self _⟩
  | fork pid =>
    rw [step, Option.ite_none_left_eq_some, Option.some.injEq] at taken
    obtain ⟨-, rfl⟩ := taken
    exact fair
  | die pid =>
    cases taken
    exact fair
  | list p order =>
    rw [step, Option.ite_none_right_eq_some, Option.some.injEq] at taken
    obtain ⟨⟨idle, perm⟩, rfl⟩ := taken
    exact fair_list fair idle perm
  | check p =>
    rw [step] at taken
    split at taken
    next listed head left shown scans =>
      cases taken
      exact fair_check fair scans (orderly listed head left shown scans)
    next => cases taken
  | read p ok =>
    rw [step] at taken
    cases (orderly : ok = true)
    split at taken
    next head listed left shown here =>
      split at taken
      next artifact holds =>
        cases taken
        rw [desk_go]
        exact fair.read (congrArg Phase.showing here) holds
      -- nothing complete is read, so the call passes the head over
      next unread =>
        cases taken
        exact fair_skip fair here fun artifact holds => unread artifact rfl holds
    next => cases taken
  | touch p ok =>
    rw [step] at taken
    cases (orderly : ok = true)
    split at taken
    next head listed left shown here =>
      cases taken
      -- the marker is put after the artifact was taken
      have moved := fair.touch (congrArg Phase.showing here : s.desk.view p = _)
      have same := congrArg (fun desk : Desk => { desk with markers := head :: s.markers })
        (desk_go s p (.scanning listed left shown))
      exact (congrArg Fair same).mpr moved
    next => cases taken
  | give p =>
    rw [step] at taken
    split at taken
    next listed shown here =>
      cases taken
      have given := fair.give (congrArg Phase.showing here : s.desk.view p = _)
      have same := congrArg (fun desk : Desk =>
        { desk with returned := s.returned ++ shown, due := s.due ++ listed }) (desk_go s p .idle)
      exact (congrArg Fair same).mpr given
    next => cases taken
  | leave p =>
    rw [step, Option.ite_none_left_eq_some, Option.some.injEq] at taken
    obtain ⟨-, rfl⟩ := taken
    exact fair_leave fair orderly

end

private theorem alone_init : Alone init.gate := by
  constructor
  case one => exact Nat.zero_le _
  case only => nofun
  case alive => nofun
  case seen => nofun
  case cleared => nofun

private theorem fair_init : Fair init.desk := by
  have none (artifact : Nat) : ¬ init.desk.Taken artifact := by
    rintro (returned | ⟨p, held⟩)
    · cases returned
    · cases held
  constructor
  case keys => exact nodup_nil
  case distinct => exact nodup_nil
  case own => exact fun _ => nodup_nil
  case apart => exact fun _ _ _ => disjoint_nil_left _
  case fresh => exact fun _ => disjoint_nil_left _
  case known => exact fun artifact is => absurd is (none artifact)
  case filed => nofun
  case heads => nofun
  case single => nofun
  case unmarked => nofun
  case taken => nofun
  case gathered => nofun
  case marked => nofun
  case owes => nofun
  case due => nofun

def oneReplay : List Action :=
  [.readLock 1 "a", .test 1, .spawn 1 10, .truncate 1, .writeLock 1, .begin_ 10, .finish 10, .die 10]

/-- Two hooks read the lock before either writes it, and two calls of `previous` find one artifact
before either marks it. -/
theorem two_replays_shown_twice :
    (¬ ∀ actions s, Runs.run step actions init = some s → Exclusive s) ∧
      ¬ ∀ actions s, Runs.run step actions init = some s → ShownOnce s := by
  constructor
  · intro exclusive
    have run : (Runs.run step [.readLock 1 "a", .readLock 2 "b", .test 1, .test 2, .spawn 1 10,
        .spawn 2 11] init).map (·.replays.length) = some 2 := by
      decide +kernel
    obtain ⟨s, ran, two⟩ := Option.map_eq_some_iff.mp run
    have one := exclusive _ s ran
    rw [Exclusive, two] at one
    omega
  · intro once
    have run : (Runs.run step (oneReplay ++ [.list 1 ["a"], .list 2 ["a"], .check 1, .check 2,
        .read 1 true, .read 2 true, .touch 1 true, .touch 2 true, .give 1, .give 2]) init).map
          (·.returned) = some [0, 0] := by
      decide +kernel
    obtain ⟨s, ran, twice⟩ := Option.map_eq_some_iff.mp run
    have distinct := (once _ s ran).1
    rw [twice] at distinct
    exact absurd distinct (by decide)

/-- In every orderly run at most one replay is alive and every artifact is shown once. -/
theorem one_replay_shown_once {actions : List Action} {s : State}
    (orderly : Runs.Meets step Orderly actions init) (ran : Runs.run step actions init = some s) :
    Exclusive s ∧ ShownOnce s := by
  have kept (s : State) (action : Action) (next : State) (holds : Alone s.gate ∧ Fair s.desk)
      (allowed : Orderly s action) (taken : step action s = some next) :
      Alone next.gate ∧ Fair next.desk :=
    ⟨alone_step holds.1 allowed taken, fair_step holds.2 allowed taken⟩
  obtain ⟨alone, fair⟩ := Runs.run_invariant kept ⟨alone_init, fair_init⟩ orderly ran
  exact ⟨alone.one, shownOnce_of_fair fair⟩

/-- The hook whose action it is; 0 for a replay or another process. -/
def Action.hook : Action → Nat
  | .readLock p _ | .test p | .spawn p _ | .truncate p | .writeLock p | .list p _ | .check p
  | .read p _ | .touch p _ | .give p | .leave p => p
  | .begin_ _ | .finish _ | .fork _ | .die _ => 0

theorem idle_step (idle : s.phase q = .idle)
    (other : q ≠ action.hook) (taken : step action s = some next) : next.phase q = .idle := by
  have go (new : Phase) : (s.go action.hook new).phase q = .idle :=
    (setPhase_of_ne s.phase new other).trans idle
  have launch (pid : Nat) (head : Head) : (s.launch action.hook pid head).phase q = .idle := by
    have kept := setPhase_of_ne (fun q => (s.phase q).overtake) (.spawned pid) other
    simp only [idle, Phase.overtake] at kept
    exact kept
  cases action with
  | begin_ pid | finish pid =>
    obtain ⟨replay, -, rfl⟩ := Option.map_eq_some_iff.mp taken
    exact idle
  | _ => grind [step, Action.hook]

/-- `Orderly`, computed where only the hooks below `limit` do anything. -/
def orderlyBelow (limit : Nat) (s : State) (action : Action) : Bool :=
  action.hook < limit && match action with
    | .spawn p _ =>
      match s.phase p with
      | .cleared _ stale => !stale
      | _ => true
    | .begin_ pid | .finish pid => (s.replayOf pid).all fun replay =>
      replay.head ∉ s.markers ∧ (s.files.lookup replay.head).all (· = .writing)
    | .check p =>
      match s.phase p with
      | .scanning _ (head :: _) _ =>
        head ∈ s.markers || (List.range limit).all fun q => (s.phase q).on ≠ some head
      | _ => true
    | .read _ ok | .touch _ ok => ok
    | .leave p => (s.phase p).shown = []
    | _ => true

private theorem orderly_of_below {limit : Nat} (idle : ∀ q, limit ≤ q → s.phase q = .idle)
    (below : orderlyBelow limit s action = true) : Orderly s action := by
  obtain ⟨-, below⟩ := Bool.and_eq_true_iff.mp below
  cases action with
  | spawn p pid =>
    intro head is
    simp [is] at below
  | begin_ pid | finish pid =>
    intro replay is
    simp only [is, Option.all_some, decide_eq_true_eq] at below
    refine ⟨below.1, fun artifact holds => ?_⟩
    rw [holds] at below
    exact absurd below.2 (by simp)
  | check p =>
    intro listed head left shown is unmarked q
    simp only [is, Bool.or_eq_true, decide_eq_true_eq, all_eq_true, mem_range] at below
    by_cases inside : q < limit
    · exact below.resolve_left unmarked q inside
    · rw [idle q (Nat.le_of_not_lt inside)]
      exact nofun
  | read p ok | touch p ok => exact below
  | leave p => simpa only [Orderly, decide_eq_true_eq] using below
  | _ => trivial

/-- The second hook gives up on a stale reading and at a live replay. It starts its own one when the
first has ended, and both show a result. -/
def shownRun : List Action :=
  [.readLock 1 "a", .test 1, .spawn 1 10, .readLock 2 "b", .test 2, .leave 2, .truncate 1,
    .writeLock 1, .readLock 2 "b", .test 2, .begin_ 10, .finish 10, .die 10, .readLock 2 "b", .test 2,
    .spawn 2 11, .truncate 2, .writeLock 2, .list 1 ["a"], .check 1, .begin_ 11, .read 1 true,
    .finish 11, .touch 1 true, .die 11, .give 1, .list 2 ["a", "b"], .check 2, .check 2, .read 2 true,
    .touch 2 true, .give 2]

theorem shownRun_shown_once :
    ∃ s, Runs.run step shownRun init = some s ∧ s.returned = [0, 1] ∧ Exclusive s ∧ ShownOnce s := by
  have run : ((Runs.run step shownRun init).map (·.returned)) = some [0, 1] := by decide +kernel
  obtain ⟨s, ran, returned⟩ := Option.map_eq_some_iff.mp run
  have orderly : Runs.Meets step Orderly shownRun init := by
    have enough (s : State) (action : Action) (idle : ∀ q, 3 ≤ q → s.phase q = .idle)
        (below : orderlyBelow 3 s action = true) := orderly_of_below idle below
    refine Runs.meets_of_tested ?_ enough (fun _ _ => rfl) (by decide +kernel)
    intro s action next idle below taken q later
    have own := of_decide_eq_true (Bool.and_eq_true_iff.mp below).1
    exact idle_step (idle q later) (by omega) taken
  exact ⟨s, ran, returned, one_replay_shown_once orderly ran⟩

end OpenUltraSast.Push.Background
