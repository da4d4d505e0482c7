import OpenUltraSast.Cpg.SessionCalls

/-!
# Receipts of a session

An answer of a session is what the engine wrote for the code of its own call, and a session that
failed once answers nothing again.
-/

namespace OpenUltraSast.Cpg.SessionCalls

open List Option

variable {r : Reader}

/-- A session that failed or was closed. -/
def State.Dead (s : State) : Prop := s.session.failure ≠ "" ∨ s.session.process = none

namespace State

private theorem apply_session (current : Option Nonce) (s : State) (a : Act) :
    (s.apply current a).session = s.session ∨
      (s.apply current a).session =
        { s.session with process := s.session.process.map fun _ => false } := by
  cases a with
  | exits => exact .inr rfl
  | _ =>
    left
    rw [apply]
    split <;> rfl

theorem acts_session (current : Option Nonce) (acts : List Act) (s : State) :
    (s.acts current acts).session.failure = s.session.failure ∧
      (s.acts current acts).session.observed = s.session.observed ∧
      (s.session.process = none → (s.acts current acts).session.process = none) := by
  induction acts generalizing s with
  | nil => exact ⟨rfl, rfl, id⟩
  | cons a acts ih =>
    obtain ⟨failure, observed, process⟩ := ih (s.apply current a)
    rw [State.acts, foldl_cons, ← State.acts, failure, observed]
    rcases apply_session current s a with same | ended
    · rw [same] at process ⊢
      exact ⟨rfl, rfl, process⟩
    · rw [ended] at process ⊢
      exact ⟨rfl, rfl, fun none => process (by rw [none]; rfl)⟩

theorem Dead.acts {s : State} (dead : s.Dead) (current : Option Nonce) (acts : List Act) :
    (s.acts current acts).Dead := by
  obtain ⟨failure, -, process⟩ := acts_session current acts s
  exact dead.imp (fun failed => failure ▸ failed) process

theorem Dead.not_alive {s : State} (dead : s.Dead) : s.alive = false := by
  rcases dead with failed | none
  · simp [alive, failed]
  · simp [alive, none]

theorem dead_poison (s : State) {reason : String} (given : reason ≠ "") :
    (s.poison reason).Dead := by
  rw [poison]
  split
  next => exact .inl given
  next failed => exact .inl failed

theorem dead_poisonDead (s : State) : s.poisonDead.Dead := by
  rw [poisonDead]
  split
  next => exact dead_poison s (by decide)
  next failed => exact dead_poison s failed

theorem dead_close (s : State) (reaped : Bool) : (s.close reaped).Dead := by
  rw [close]
  split
  · exact dead_poison _ (by decide)
  · exact .inr rfl

theorem evaluate_of_dead {s : State} (dead : s.Dead) (code : String) (w : Wait) :
    (s.evaluate code w).2 = .nothing ∧ (s.evaluate code w).1.Dead := by
  rw [evaluate, (dead.acts none w.before).not_alive]
  exact ⟨rfl, dead_poisonDead _⟩

theorem define_of_dead {s : State} (dead : s.Dead) (p : Post) :
    (s.define r p).2 = .nothing ∧ (s.define r p).1.Dead := by
  rw [define, (dead.acts none p.before).not_alive]
  exact ⟨rfl, dead_poisonDead _⟩

private theorem load_of_dead {s : State} (dead : s.Dead) (graph : String) (w : Wait) :
    (s.load graph w).1.Dead := by
  obtain ⟨nothing, dead⟩ := evaluate_of_dead dead (importCode graph) w
  rw [load]
  split
  next is => rw [is] at nothing; cases nothing
  next is => rw [is] at nothing; cases nothing
  next is =>
    rw [is] at dead
    exact dead

end State

/-- The request that is waited for: no other has its nonce, and its file holds what the engine
wrote for it. -/
structure Own (p : Request) (s : State) : Prop where
  posted : p ∈ s.posted
  only : ∀ q ∈ s.posted, q.nonce = p.nonce → q = p
  file : s.files p.nonce = (s.runs p).map (Page.bytes p.nonce)

variable {p : Request}

theorem Own.shows {s : State} (own : Own p s) {q : Request} (posted : q ∈ s.posted)
    (page : Option Page) :
    Own p (s.shows q page) ∧ (s.shows q page).runs p = if q = p then page else s.runs p := by
  by_cases same : q = p
  · subst same
    have runs : (s.shows q page).runs q = page := if_pos rfl
    refine ⟨⟨own.posted, own.only, ?_⟩, by rw [runs, if_pos rfl]⟩
    rw [runs]
    exact if_pos rfl
  · -- Another request has another nonce, hence another file.
    have other : ¬ p.nonce = q.nonce := fun is => same (own.only q posted is.symm)
    have runs : (s.shows q page).runs p = s.runs p := if_neg fun is => same is.symm
    refine ⟨⟨own.posted, own.only, ?_⟩, by rw [runs, if_neg same]⟩
    rw [runs, ← own.file]
    exact if_neg other

theorem Own.apply {s : State} (own : Own p s) (a : Act) :
    Own p (s.apply (some p.nonce) a) ∧
      (s.apply (some p.nonce) a).runs p = pageStep p (s.runs p) a := by
  -- What the engine does for a request that is not waited for leaves the page alone.
  have unsent {q : Request} (absent : q ∉ s.posted) : q ≠ p := fun same =>
    absent (same ▸ own.posted)
  cases a with
  | leaves n bytes =>
    rw [State.apply]
    split
    · exact ⟨own, rfl⟩
    next other =>
      refine ⟨⟨own.posted, own.only, ?_⟩, rfl⟩
      rw [State.setFile]
      have apart : ¬ p.nonce = n := fun same => other (congrArg some same)
      simpa [apart] using own.file
  | exits => exact ⟨⟨own.posted, own.only, own.file⟩, rfl⟩
  | starts q k =>
    rw [State.apply]
    split
    next sent =>
      obtain ⟨kept, runs⟩ := own.shows sent (pageStep q (s.runs q) (.starts q k))
      refine ⟨kept, runs.trans ?_⟩
      by_cases same : q = p <;> simp [pageStep, same]
    next absent => exact ⟨own, by simp [pageStep, unsent absent]⟩
  | opens q =>
    rw [State.apply]
    split
    next sent =>
      obtain ⟨kept, runs⟩ := own.shows sent (pageStep q (s.runs q) (.opens q))
      refine ⟨kept, runs.trans ?_⟩
      by_cases same : q = p <;> simp [pageStep, same]
    next absent => exact ⟨own, by simp [pageStep, unsent absent]⟩
  | prints q text =>
    rw [State.apply]
    split
    next sent =>
      obtain ⟨kept, runs⟩ := own.shows sent.1 (pageStep q (s.runs q) (.prints q text))
      refine ⟨kept, runs.trans ?_⟩
      by_cases same : q = p
      · subst same
        simp [pageStep]
      · simp [pageStep, same]
    next idle =>
      refine ⟨own, ?_⟩
      by_cases same : q = p
      · subst same
        have none : s.runs q = none := by
          by_contra running
          exact idle ⟨own.posted, running⟩
        simp [pageStep, none]
      · simp [pageStep, same]

theorem Own.acts {s : State} (own : Own p s) (acts : List Act) :
    Own p (s.acts (some p.nonce) acts) ∧
      (s.acts (some p.nonce) acts).runs p = acts.foldl (pageStep p) (s.runs p) := by
  induction acts generalizing s with
  | nil => exact ⟨own, rfl⟩
  | cons a acts ih =>
    obtain ⟨kept, runs⟩ := own.apply a
    obtain ⟨all, after⟩ := ih kept
    exact ⟨all, after.trans (by rw [runs, foldl_cons])⟩

theorem Nonce.not_mem_of_not_hex (n : Nonce) {c : Char} (other : c ∉ hexDigits) : c ∉ n.chars :=
  fun member => other (n.hex c member)

theorem Nonce.no_return (n : Nonce) : '\r' ∉ n.receipt := by
  rw [receipt, mem_append, not_or]
  exact ⟨n.not_mem_of_not_hex (by decide), by decide⟩

/-- Behind the receipt is the output, and nothing before the receipt is whole. -/
theorem partition_page (n : Nonce) (page : Page) :
    (TextFiles.readText (page.bytes n)).map (fun text => (TextFiles.partition text).2) =
      (TextFiles.decode page.out).map TextFiles.newlines := by
  have no_line : '\n' ∉ n.chars := n.not_mem_of_not_hex (by decide)
  cases page with
  | torn k =>
    have plain : '\r' ∉ n.receipt.take k := fun member => n.no_return (mem_of_mem_take member)
    have text : TextFiles.readText ((Page.torn k).bytes n) = some (n.receipt.take k) := by
      rw [TextFiles.readText, Page.bytes, TextFiles.decode_encode, map_some,
        TextFiles.newlines_eq_iff.mpr plain]
    have rest : (TextFiles.partition (n.receipt.take k)).2 = [] := by
      rcases Nat.lt_or_ge n.chars.length k with whole | part
      · have all : n.receipt.take k = n.chars ++ '\n' :: [] := by
          apply take_of_length_le
          rw [Nonce.receipt, length_append, length_singleton]
          omega
        rw [all, TextFiles.partition_line no_line]
      · have some_ : n.receipt.take k = n.chars.take k := take_append_of_le_length part
        rw [some_, TextFiles.partition_of_no_line fun member => no_line (mem_of_mem_take member)]
    rw [text, map_some, rest, Page.out, TextFiles.decode_empty]
    rfl
  | whole out =>
    rw [Page.bytes, TextFiles.readText_append n.no_return, Option.map_map, Page.out,
      TextFiles.readText, Option.map_map, Nonce.receipt]
    congr 1
    funext text
    rw [Function.comp, Function.comp, append_assoc, singleton_append,
      TextFiles.partition_line no_line]

/-- What a call meets lets it end in order: no error but those that are caught, and an output
that can be read, without carriage returns. -/
structure Wait.Clean (code : String) (w : Wait) (observed : Bool) : Prop where
  caught : w.response = .raised → observed = true
  observes : observed = true → ∀ poll ∈ w.polls ++ [w.last], poll.verdict ≠ none
  unlinks : w.unlinks = true
  plain : ∀ body, w.response = .body body → succeeded body = true →
    ∀ page, written ⟨w.nonce, code⟩ (w.acts observed) = some page →
      ∃ text, TextFiles.decode page.out = some text ∧ '\r' ∉ text

/-- How a call ends: with what the engine wrote for it, with nothing and a session that answers
nothing from then on, or with an error. -/
inductive Outcome (code : String) (w : Wait) (observed : Bool) : State × Reply → Prop where
  | answer {s : State} {body : Cpg.Fields} {page : Page} {text : List Char}
      (answered : w.response = .body body) (success : succeeded body = true)
      (wrote : written ⟨w.nonce, code⟩ (w.acts observed) = some page)
      (reads : TextFiles.decode page.out = some text) :
      Outcome code w observed (s, .answer ⟨TextFiles.newlines text, w.seconds⟩)
  | silent {s : State} (dead : s.Dead) : Outcome code w observed (s, .nothing)
  | broken {s : State} (why : ¬ w.Clean code observed) : Outcome code w observed (s, .raised)

variable {code : String}

variable {w : Wait} {body : Cpg.Fields}

private theorem read_outcome {observed : Bool} {s : State} (own : Own ⟨w.nonce, code⟩ s)
    (answered : w.response = .body body) (success : succeeded body = true)
    (runs : (w.late.foldl (pageStep ⟨w.nonce, code⟩) (s.runs ⟨w.nonce, code⟩)) =
      written ⟨w.nonce, code⟩ (w.acts observed)) : Outcome code w observed (s.read w) := by
  -- the file is still the one of this request when it is read
  obtain ⟨kept, after⟩ := own.acts w.late
  rw [runs] at after
  have file := kept.file
  rw [after] at file
  rw [State.read]
  dsimp only at file ⊢
  cases wrote : written ⟨w.nonce, code⟩ (w.acts observed) with
  -- nothing was written for the request
  | none =>
    rw [file, wrote]
    dsimp only [map_none]
    split
    · exact .silent (State.dead_poison _ (by decide))
    next stays => exact .broken fun clean => stays clean.unlinks
  | some page =>
    -- the page ends with the receipt of the request, and what is before it is the answer
    have behind := partition_page w.nonce page
    rw [file, wrote]
    dsimp only [map_some]
    split
    -- a page without a receipt is not one that a clean wait leaves
    next unread =>
      rw [unread, map_none, eq_comm, map_eq_none_iff] at behind
      refine .broken fun clean => ?_
      obtain ⟨text, reads, -⟩ := clean.plain body answered success page wrote
      rw [behind] at reads
      cases reads
    next text read =>
      rw [read, map_some, eq_comm, map_eq_some_iff] at behind
      obtain ⟨out, reads, rest⟩ := behind
      split
      next stays =>
        refine .broken fun clean => ?_
        rw [clean.unlinks] at stays
        cases stays
      next =>
        split
        next =>
          rw [← rest]
          exact .answer answered success wrote reads
        next => exact .silent (State.dead_poison _ (by decide))

/-- A watch goes on, ends with a dead session, or raises. -/
theorem watch_spec (is : p.nonce = w.nonce) (polls : List Poll) {s : State} (own : Own p s) :
    (∃ s', State.watch w polls s = (s', none) ∧ Own p s' ∧
      s'.runs p = (polls.flatMap (·.acts)).foldl (pageStep p) (s.runs p) ∧
      s'.session.observed = s.session.observed) ∨
    (∃ s', State.watch w polls s = (s', some .nothing) ∧ s'.Dead) ∨
    (∃ s', State.watch w polls s = (s', some .raised) ∧
      (w.unlinks = false ∨ ∃ poll ∈ polls, poll.verdict = none)) := by
  induction polls generalizing s with
  | nil => exact .inl ⟨s, rfl, own, rfl, rfl⟩
  | cons poll polls ih =>
    obtain ⟨kept, runs⟩ := own.acts poll.acts
    rw [is] at kept runs
    obtain ⟨-, observed, -⟩ := State.acts_session (some w.nonce) poll.acts s
    rw [State.watch]
    split
    next broken => exact .inr (.inr ⟨_, rfl, .inr ⟨poll, mem_cons_self, broken⟩⟩)
    next =>
      rcases ih kept with ⟨s', ended, own', after, seen⟩ | silent | ⟨s', ended, why⟩
      · refine .inl ⟨s', ended, own', ?_, seen.trans observed⟩
        rw [after, runs, flatMap_cons, foldl_append]
      · exact .inr (.inl silent)
      · refine .inr (.inr ⟨s', ended, why.imp_right ?_⟩)
        rintro ⟨later, member, none⟩
        exact ⟨later, mem_cons_of_mem _ member, none⟩
    next =>
      dsimp only
      split
      next => exact .inr (.inl ⟨_, rfl, State.dead_close _ w.reaped⟩)
      next stays => exact .inr (.inr ⟨_, rfl, .inl (Bool.eq_false_of_not_eq_true stays)⟩)

theorem respond_outcome {s : State} (own : Own ⟨w.nonce, code⟩ s)
    (runs : (w.late.foldl (pageStep ⟨w.nonce, code⟩) (s.runs ⟨w.nonce, code⟩)) =
      written ⟨w.nonce, code⟩ (w.acts s.session.observed)) :
    Outcome code w s.session.observed (s.respond w) := by
  rw [State.respond]
  split
  next failed =>
    split
    · exact .silent (State.dead_poison _ (by decide))
    next unobserved => exact .broken fun clean => unobserved (clean.caught failed)
  next => exact .silent (State.dead_poison _ (by decide))
  next body answered =>
    split
    next success =>
      have counted : Own ⟨w.nonce, code⟩ s.count := ⟨own.posted, own.only, own.file⟩
      exact read_outcome counted answered success runs
    next => exact .silent (State.dead_poison _ (by decide))

theorem await_outcome {s : State} (own : Own ⟨w.nonce, code⟩ s) (idle : s.runs ⟨w.nonce, code⟩ = none) :
    Outcome code w s.session.observed (s.await w) := by
  rw [State.await]
  cases seen : s.session.observed with
  | true =>
    rw [if_pos rfl]
    rcases watch_spec rfl (w.polls ++ [w.last]) own with
      ⟨s', ended, own', after, same⟩ | ⟨s', ended, dead⟩ | ⟨s', ended, why⟩
    · rw [ended]
      dsimp only
      rw [← seen, ← same]
      apply respond_outcome own'
      rw [after, idle, same, seen, ← foldl_append]
      rfl
    · rw [ended]
      exact .silent dead
    · rw [ended]
      refine .broken fun clean => ?_
      rcases why with stays | ⟨poll, member, broken⟩
      · rw [clean.unlinks] at stays
        cases stays
      · exact clean.observes rfl poll member broken
  | false =>
    rw [if_neg Bool.false_ne_true]
    obtain ⟨own', after⟩ := own.acts w.during
    obtain ⟨-, same, -⟩ := State.acts_session (some w.nonce) w.during s
    rw [← seen, ← same]
    apply respond_outcome own'
    rw [after, idle, same, seen, ← foldl_append]
    rfl

/-- The engine has run only what it was sent. -/
def State.Known (s : State) : Prop := ∀ p, s.runs p ≠ none → p ∈ s.posted

namespace State.Known

variable {s : State}

section
variable (known : s.Known)
include known

theorem setFile (n : Nonce) (bytes : Option ByteArray) :
    (s.setFile n bytes).Known := known

theorem shows (sent : p ∈ s.posted) (page : Option Page) :
    (s.shows p page).Known := by
  intro q running
  by_cases same : q = p
  · exact same ▸ sent
  · have apart : (s.shows p page).runs q = s.runs q := if_neg same
    exact known q (apart ▸ running)

theorem apply (current : Option Nonce) (a : Act) :
    (s.apply current a).Known := by
  cases a with
  | exits => exact known
  | leaves n bytes =>
    rw [State.apply]
    split
    · exact known
    · exact known.setFile n bytes
  | prints p text =>
    rw [State.apply]
    split
    next sent => exact known.shows sent.1 _
    next => exact known
  | _ =>
    rw [State.apply]
    split
    next sent => exact known.shows sent _
    next => exact known

theorem acts (current : Option Nonce) (acts : List Act) :
    (s.acts current acts).Known := by
  induction acts generalizing s with
  | nil => exact known
  | cons a acts ih => exact ih (known.apply current a)

theorem poison (reason : String) : (s.poison reason).Known := by
  rw [State.poison]
  split
  · exact known
  · exact known

theorem close (reaped : Bool) : (s.close reaped).Known := by
  have closed : ({ s with session := { s.session with process := none } } : State).Known := known
  rw [State.close]
  split
  · exact closed.poison _
  · exact closed

theorem post (p : Request) : (s.post p).Known :=
  fun q running => mem_cons_of_mem _ (known q running)

theorem read (w : Wait) : (s.read w).1.Known := by
  have late := known.acts (some w.nonce) w.late
  have cleared : (if w.unlinks then (s.acts (some w.nonce) w.late).setFile w.nonce none
      else s.acts (some w.nonce) w.late).Known := by
    split
    · exact late.setFile w.nonce none
    · exact late
  rw [State.read]
  split
  · exact cleared.poison _
  · split
    · exact cleared
    · split
      · exact cleared
      · split
        · exact cleared
        · exact cleared.poison _

theorem respond (w : Wait) : (s.respond w).1.Known := by
  have counted : s.count.Known := known
  rw [State.respond]
  split
  · split
    · exact counted.poison _
    · exact known
  · exact counted.poison _
  · split
    · exact counted.read w
    · exact counted.poison _

end

theorem watch (w : Wait) (polls : List Poll) (known : s.Known) :
    (State.watch w polls s).1.Known := by
  induction polls generalizing s with
  | nil => exact known
  | cons poll polls ih =>
    have seen := known.acts (some w.nonce) poll.acts
    rw [State.watch]
    split
    · exact seen
    · exact ih seen
    · dsimp only
      split
      · exact (seen.poison _).close w.reaped
      · exact (seen.poison _).close w.reaped

theorem await (known : s.Known) (w : Wait) : (s.await w).1.Known := by
  have watched := known.watch w (w.polls ++ [w.last])
  rw [State.await]
  split
  · split
    next is => rwa [is] at watched
    next is =>
      rw [is] at watched
      exact watched.respond w
  · exact (known.acts _ w.during).respond w

theorem evaluate (known : s.Known) (code : String) (w : Wait) : (s.evaluate code w).1.Known := by
  have before := known.acts none w.before
  rw [State.evaluate]
  split
  · exact before.poison _
  · split
    · exact before.poison _
    · exact (before.post _).await w

theorem step (known : s.Known) (call : Call) : (step r call s).1.Known := by
  cases call with
  | evaluate code w => exact known.evaluate code w
  | define code p =>
    have before := known.acts none p.before
    have during := before.acts none p.during
    change (s.define r p).1.Known
    rw [State.define]
    split
    · exact before.poison _
    · split
      · exact before.poison _
      · dsimp only
        split
        · exact during
        · exact State.Known.poison (s := (State.count _)) during _
        · exact during
  | load graph w =>
    have loaded := known.evaluate (importCode graph) w
    change (s.load graph w).1.Known
    rw [State.load]
    split
    all_goals
      next is =>
        rw [is] at loaded
        exact loaded
  | close before reaped => exact (known.acts none before).close reaped

end State.Known

/-- The nonce of a call is new: no request has it, and no file its name. -/
def Wait.Fresh (w : Wait) (s : State) : Prop :=
  (∀ p ∈ s.posted, p.nonce ≠ w.nonce) ∧ s.files w.nonce = none

theorem State.Known.own {s : State} (known : s.Known) (code : String) (fresh : w.Fresh s) :
    Own ⟨w.nonce, code⟩ (s.post ⟨w.nonce, code⟩) ∧
      (s.post ⟨w.nonce, code⟩).runs ⟨w.nonce, code⟩ = none := by
  have idle : s.runs ⟨w.nonce, code⟩ = none := by
    by_contra running
    exact fresh.1 _ (known _ running) rfl
  refine ⟨⟨mem_cons_self, fun q sent same => ?_, ?_⟩, idle⟩
  · rcases mem_cons.mp sent with here | earlier
    · exact here
    · exact absurd same (fresh.1 q earlier)
  · change s.files w.nonce = _
    rw [fresh.2]
    exact (congrArg (Option.map _) idle).symm

theorem evaluate_outcome {code : String} {w : Wait} {s : State}
    (known : (s.acts none w.before).Known) (fresh : w.Fresh (s.acts none w.before)) :
    Outcome code w s.session.observed (s.evaluate code w) := by
  obtain ⟨-, observed, -⟩ := State.acts_session none w.before s
  obtain ⟨own, idle⟩ := known.own code fresh
  rw [State.evaluate]
  split
  · exact .silent (State.dead_poisonDead _)
  · split
    · exact .silent (State.dead_poison _ (by decide))
    · rw [← observed]
      exact await_outcome own idle

def Call.evaluated : Call → Option (String × Wait)
  | .evaluate code w => some (code, w)
  | .load graph w => some (importCode graph, w)
  | _ => none

def Event.Fresh (e : Event) : Prop :=
  ∀ code w, e.call.evaluated = some (code, w) → w.Fresh (e.before.acts none w.before)

def Event.Clean (e : Event) : Prop :=
  match e.call with
  | .evaluate code w => w.Clean code e.before.session.observed
  | .load graph w => w.Clean (importCode graph) e.before.session.observed
  | .define _ p => p.response ≠ .raised
  | .close _ _ => True

/-- A call came back with nothing or with an error, or was a `close`. -/
def Event.Ended (e : Event) : Prop :=
  (∃ before reaped, e.call = .close before reaped) ∨ e.reply = .nothing ∨ e.reply = .raised ∨
    e.reply = .loaded false

/-- The text of an answer is what the engine wrote for the code of the call, in the acts since the
request was sent. -/
def Event.Belongs (e : Event) : Prop :=
  ∀ code w, e.call.evaluated = some (code, w) → ∀ a, (e.before.evaluate code w).2 = .answer a →
    ∃ page, written ⟨w.nonce, code⟩ (w.acts e.before.session.observed) = some page ∧
      TextFiles.decode page.out = some a.stdout

/-- Every answer belongs to its own call, and behind a call that failed, every `evaluate` and
`define` returns nothing. -/
structure Sound (events : List Event) : Prop where
  belongs : ∀ e ∈ events, e.Belongs
  silent : events.Pairwise fun e later => e.Ended →
    (∃ code w, later.call = .evaluate code w) ∨ (∃ code p, later.call = .define code p) →
      later.reply = .nothing

theorem step_of_dead {s : State} (dead : s.Dead) (call : Call) : (step r call s).1.Dead := by
  cases call with
  | evaluate code w => exact (State.evaluate_of_dead dead code w).2
  | define code p => exact (State.define_of_dead dead p).2
  | load graph w => exact State.load_of_dead dead graph w
  | close before reaped => exact State.dead_close _ reaped

variable {calls : List Call}

private theorem trace_of_dead {s : State} (dead : s.Dead) {e : Event}
    (member : e ∈ trace r calls s)
    (asks : (∃ code w, e.call = .evaluate code w) ∨ (∃ code p, e.call = .define code p)) :
    e.reply = .nothing := by
  induction calls generalizing s with
  | nil => cases member
  | cons call calls ih =>
    rcases mem_cons.mp member with rfl | later
    · rcases asks with ⟨code, w, is⟩ | ⟨code, p, is⟩
      · dsimp only at is
        rw [is]
        exact (State.evaluate_of_dead dead code w).1
      · dsimp only at is
        rw [is]
        exact (State.define_of_dead dead p).1
    · exact ih (step_of_dead dead call) later

private theorem define_of_failed {s : State} {p : Post} (caught : p.response ≠ .raised)
    (failed : (s.define r p).2 = .nothing ∨ (s.define r p).2 = .raised) :
    (s.define r p).1.Dead := by
  rw [State.define] at failed ⊢
  split
  · exact State.dead_poisonDead _
  · rw [if_neg ‹_›] at failed
    split
    · exact State.dead_poison _ (by decide)
    · rw [if_neg ‹_›] at failed
      dsimp only at failed ⊢
      split
      next is => exact absurd is caught
      next => exact State.dead_poison _ (by decide)
      next is => simp [is] at failed

private theorem step_of_ended {s : State} {call : Call} (known : s.Known)
    (fresh : Event.Fresh ⟨s, call, (step r call s).2⟩)
    (clean : Event.Clean ⟨s, call, (step r call s).2⟩)
    (ended : Event.Ended ⟨s, call, (step r call s).2⟩) : (step r call s).1.Dead := by
  -- evaluations and loads fail only with a dead session, unless they were not clean
  cases call with
  | evaluate code w =>
    have outcome := @evaluate_outcome code w s (known.acts none w.before) (fresh code w rfl)
    have failed : (s.evaluate code w).2 = .nothing ∨ (s.evaluate code w).2 = .raised ∨
        (s.evaluate code w).2 = .loaded false := by
      rcases ended with ⟨_, _, is⟩ | failed
      · cases is
      · exact failed
    change (s.evaluate code w).1.Dead
    generalize s.evaluate code w = result at outcome failed ⊢
    cases outcome with
    | answer => simp at failed
    | silent dead => exact dead
    | broken why => exact absurd clean why
  | define code p =>
    apply define_of_failed clean
    rcases ended with ⟨_, _, is⟩ | nothing | raised | loaded
    · cases is
    · exact .inl nothing
    · exact .inr raised
    · -- a definition does not answer with a failed load
      change (s.define r p).2 = .loaded false at loaded
      rw [State.define] at loaded
      split at loaded
      · cases loaded
      · split at loaded
        · cases loaded
        · dsimp only at loaded
          split at loaded <;> cases loaded
  | load graph w =>
    have outcome := @evaluate_outcome (importCode graph) w s (known.acts none w.before)
      (fresh _ w rfl)
    change (s.load graph w).1.Dead
    have failed : (s.load graph w).2 = .nothing ∨ (s.load graph w).2 = .raised ∨
        (s.load graph w).2 = .loaded false := by
      rcases ended with ⟨_, _, is⟩ | failed
      · cases is
      · exact failed
    rw [State.load] at failed ⊢
    generalize s.evaluate (importCode graph) w = result at outcome failed ⊢
    cases outcome with
    | answer => simp at failed
    | silent dead => exact dead
    | broken why => exact absurd clean why
  | close before reaped => exact State.dead_close _ reaped

theorem belongs_of_clean {s : State} (known : s.Known) (fresh : w.Fresh (s.acts none w.before))
    (clean : w.Clean code s.session.observed) {a : SessionAnswer}
    (answered : (s.evaluate code w).2 = .answer a) :
    ∃ page, written ⟨w.nonce, code⟩ (w.acts s.session.observed) = some page ∧
      TextFiles.decode page.out = some a.stdout := by
  have outcome := @evaluate_outcome code w s (known.acts none w.before) fresh
  generalize s.evaluate code w = result at outcome answered
  cases outcome with
  | answer body success wrote reads =>
    cases answered
    obtain ⟨text, reads', plain⟩ := clean.plain _ body success _ wrote
    cases reads.symm.trans reads'
    rw [TextFiles.newlines_eq_iff.mpr plain]
    exact ⟨_, wrote, reads⟩
  | silent => cases answered
  | broken => cases answered

/-- In every trace of fresh and clean calls each answer belongs to the code that was sent. -/
theorem trace_sound (calls : List Call) {s : State} (known : s.Known)
    (fresh : ∀ e ∈ trace r calls s, e.Fresh) (clean : ∀ e ∈ trace r calls s, e.Clean) :
    Sound (trace r calls s) := by
  induction calls generalizing s with
  | nil => exact ⟨fun e member => absurd member not_mem_nil, .nil⟩
  | cons call calls ih =>
    have fresh' := forall_mem_cons.mp fresh
    have clean' := forall_mem_cons.mp clean
    have rest := ih (known.step call) fresh'.2 clean'.2
    constructor
    · rw [trace, forall_mem_cons]
      refine ⟨fun code w asks a answered => ?_, rest.belongs⟩
      apply belongs_of_clean known (fresh'.1 code w asks) _ answered
      have own := clean'.1
      cases call with
      | evaluate other wait => cases asks; exact own
      | load graph wait => cases asks; exact own
      | define other post => cases asks
      | close before reaped => cases asks
    · rw [trace, pairwise_cons]
      refine ⟨fun later member ended asks => ?_, rest.silent⟩
      exact trace_of_dead (step_of_ended known fresh'.1 clean'.1 ended) member asks

variable {text : List Char}

theorem dropWhile_isSpace (plain : ∀ c ∈ text, Text.isSpace c = false) :
    text.dropWhile Text.isSpace = text := by
  cases text with
  | nil => rfl
  | cons c text =>
    have first := plain c mem_cons_self
    simp [first]

private theorem strip_nonce (n : Nonce) : strip n.chars = n.chars := by
  have digits : ∀ c ∈ hexDigits, Text.isSpace c = false :=
    Collections.forall_mem_of_all (by decide)
  have plain : ∀ c ∈ n.chars, Text.isSpace c = false := fun c member => digits c (n.hex c member)
  have back : ∀ c ∈ n.chars.reverse, Text.isSpace c = false := fun c member =>
    plain c (mem_reverse.mp member)
  rw [strip, dropWhile_isSpace plain, dropWhile_isSpace back, reverse_reverse]

private theorem read_answers {s : State} {out : ByteArray} (own : Own ⟨w.nonce, code⟩ s)
    (unlinks : w.unlinks = true)
    (wrote : w.late.foldl (pageStep ⟨w.nonce, code⟩) (s.runs ⟨w.nonce, code⟩) = some (.whole out))
    (reads : TextFiles.readText out = some text) : (s.read w).2 = .answer ⟨text, w.seconds⟩ := by
  have no_line : '\n' ∉ w.nonce.chars := w.nonce.not_mem_of_not_hex (by decide)
  obtain ⟨late, after⟩ := own.acts w.late
  have file := late.file
  rw [after, wrote, map_some, Page.bytes] at file
  have line : TextFiles.readText (TextFiles.encode w.nonce.receipt ++ out) =
      some (w.nonce.chars ++ '\n' :: text) := by
    rw [TextFiles.readText_append w.nonce.no_return, reads, map_some, Nonce.receipt,
      append_assoc, singleton_append]
  rw [State.read]
  dsimp only at file ⊢
  rw [file]
  dsimp only
  rw [line]
  dsimp only
  rw [TextFiles.partition_line no_line, strip_nonce, unlinks]
  simp

private theorem evaluate_answers {s : State} {out : ByteArray}
    (known : s.Known) (fresh : w.Fresh (s.acts none w.before))
    (alive : (s.acts none w.before).alive = true) (unobserved : s.session.observed = false)
    (timeLeft : w.timeLeft = true) (answered : w.response = .body body) (success : succeeded body = true)
    (unlinks : w.unlinks = true) (wrote : written ⟨w.nonce, code⟩ (w.acts false) = some (.whole out))
    (reads : TextFiles.readText out = some text) :
    (s.evaluate code w).2 = .answer ⟨text, w.seconds⟩ := by
  obtain ⟨-, same, -⟩ := State.acts_session none w.before s
  obtain ⟨own, idle⟩ := (known.acts none w.before).own code fresh
  obtain ⟨during, ran⟩ := own.acts w.during
  have waiting : ((s.acts none w.before).post ⟨w.nonce, code⟩).session.observed = false :=
    same.trans unobserved
  rw [State.evaluate]
  simp only [alive, timeLeft, Bool.not_true, Bool.false_eq_true, ↓reduceIte]
  rw [State.await, waiting, if_neg Bool.false_ne_true, State.respond, answered]
  simp only [success, ↓reduceIte]
  have counted : Own ⟨w.nonce, code⟩ (State.count _) := ⟨during.posted, during.only, during.file⟩
  apply read_answers counted unlinks _ reads
  change w.late.foldl _ ((State.acts _ _ w.during).runs _) = _
  rw [ran, idle, ← wrote, Wait.acts, written, ← foldl_append]
  rfl

def opened (session : EngineSession) (files : Nonce → Option ByteArray) : State :=
  { session := session, files := files }

theorem opened_known (session : EngineSession) (files : Nonce → Option ByteArray) :
    (opened session files).Known := fun _ running => absurd rfl running

def nonceOf (c : Char) (hex : c ∈ hexDigits) : Nonce where
  chars := List.replicate 32 c
  length := length_replicate
  hex _ member := (mem_replicate.mp member).2 ▸ hex

def firstNonce : Nonce := nonceOf 'a' (by decide)

def secondNonce : Nonce := nonceOf 'b' (by decide)

def started : State := opened { process := some true } fun _ => none

def brokenWait : Wait where
  nonce := firstNonce
  response := .raised
  seconds := 1

def emptyWait : Wait where
  nonce := secondNonce
  during := [.opens ⟨secondNonce, "2"⟩]
  response := .body [("success", .bool true)]
  seconds := 1

def printingReader : Reader where
  loads _ := none
  rawDecode _ := none
  repr _ := ""
  int _ := none

def definedPost : Post where
  response := .body [("stdout", .str "defined function twice")]

private theorem fresh_emptyWait {s : State} (posted : ∀ p ∈ s.posted, p.nonce = firstNonce)
    (files : s.files = fun _ => none) : emptyWait.Fresh s := by
  refine ⟨fun p sent same => ?_, by rw [files]⟩
  rw [posted p sent] at same
  exact absurd same (by decide)

private theorem emptyWait_answers {s : State} (known : s.Known) (alive : s.alive = true)
    (unobserved : s.session.observed = false) (fresh : emptyWait.Fresh s) :
    (s.evaluate "2" emptyWait).2 = .answer ⟨[], 1⟩ :=
  evaluate_answers known fresh alive unobserved rfl rfl (by decide +kernel) rfl rfl
    (by rw [TextFiles.readText, TextFiles.decode_empty]; rfl)

/-- Behind an error that no one catches the session still answers. -/
theorem broken_session_answers :
    ¬ ∀ (r : Reader) (session : EngineSession) (files : Nonce → Option ByteArray)
        (calls : List Call), (∀ e ∈ trace r calls (opened session files), e.Fresh) →
      Sound (trace r calls (opened session files)) := by
  intro sound
  let calls : List Call := [.evaluate "1" brokenWait, .evaluate "2" emptyWait]
  have broken : started.evaluate "1" brokenWait = (started.post ⟨firstNonce, "1"⟩, .raised) := rfl
  have second : emptyWait.Fresh (started.post ⟨firstNonce, "1"⟩) :=
    fresh_emptyWait (fun p sent => by rw [mem_singleton.mp sent]) rfl
  have run : trace printingReader calls started =
      [⟨started, .evaluate "1" brokenWait, .raised⟩,
        ⟨started.post ⟨firstNonce, "1"⟩, .evaluate "2" emptyWait, .answer ⟨[], 1⟩⟩] := by
    have answers : ((started.post ⟨firstNonce, "1"⟩).evaluate "2" emptyWait).2 = .answer ⟨[], 1⟩ :=
      emptyWait_answers ((opened_known _ _).post _) rfl rfl second
    simp only [calls, trace, step, broken, answers]
  have fresh : ∀ e ∈ trace printingReader calls started, e.Fresh := by
    rw [run, forall_mem_cons, forall_mem_singleton]
    constructor
    · intro code w asks
      cases asks
      exact ⟨nofun, rfl⟩
    · intro code w asks
      cases asks
      exact second
  have silent := (sound printingReader _ _ calls fresh).silent
  change List.Pairwise _ (trace printingReader calls started) at silent
  rw [run, pairwise_cons] at silent
  cases silent.1 _ mem_cons_self (.inr (.inr (.inl rfl))) (.inl ⟨_, _, rfl⟩)

/-- In a run of calls each of which may end in order, every answer is what the engine wrote for
its own call, and once a call failed or closed the session, nothing is answered again. -/
theorem session_sound (r : Reader) (session : EngineSession) (files : Nonce → Option ByteArray)
    (calls : List Call) (fresh : ∀ e ∈ trace r calls (opened session files), e.Fresh)
    (clean : ∀ e ∈ trace r calls (opened session files), e.Clean) :
    Sound (trace r calls (opened session files)) :=
  trace_sound calls (opened_known session files) fresh clean

def printedWait : Wait :=
  { emptyWait with
    during := [.opens ⟨secondNonce, "2"⟩, .prints ⟨secondNonce, "2"⟩ (TextFiles.encode ['4'])] }

def failedWait : Wait := { emptyWait with nonce := firstNonce, response := .failed }

def lateWait : Wait := { emptyWait with nonce := nonceOf 'c' (by decide) }

/-- The third request fails, behind an answer. -/
def failingCalls : List Call :=
  [.define "def twice" definedPost, .evaluate "2" printedWait, .evaluate "3" failedWait,
    .evaluate "4" lateWait]

/-- Without an observer and errors, a call is clean if its output is. -/
theorem clean_of_plain {w : Wait} {code : String} (polls : w.polls = [])
    (last : w.last.verdict = some true) (caught : w.response ≠ .raised) (unlinks : w.unlinks = true)
    (plain : ∀ observed page, written ⟨w.nonce, code⟩ (w.acts observed) = some page →
      ∃ text, TextFiles.decode page.out = some text ∧ '\r' ∉ text) (observed : Bool) :
    w.Clean code observed where
  caught raised := absurd raised caught
  observes _ poll member := by
    rw [polls, nil_append, mem_singleton] at member
    rw [member, last]
    exact nofun
  unlinks := unlinks
  plain _ _ _ := plain observed

private theorem call_of_mem_trace {s : State} {e : Event} (member : e ∈ trace r calls s) :
    e.call ∈ calls := by
  induction calls generalizing s with
  | nil => cases member
  | cons call calls ih =>
    rcases mem_cons.mp member with rfl | later
    · exact mem_cons_self
    · exact mem_cons_of_mem _ (ih later)

theorem started_sound :
    (trace printingReader failingCalls started).map (·.reply) =
        [.text "defined function twice", .answer ⟨['4'], 1⟩, .nothing, .nothing] ∧
      Sound (trace printingReader failingCalls started) := by
  have unused : ∀ e ∈ trace printingReader failingCalls started, ∀ asked ∈ e.call.evaluated,
      (∀ p ∈ (e.before.acts none asked.2.before).posted, p.nonce ≠ asked.2.nonce) ∧
        ((e.before.acts none asked.2.before).files asked.2.nonce).isNone = true := by decide +kernel
  refine ⟨by decide +kernel,
    session_sound printingReader { process := some true } (fun _ => none) failingCalls ?_ ?_⟩
  · intro e member code w asks
    obtain ⟨nonces, file⟩ := unused e member _ asks
    exact ⟨nonces, isNone_iff_eq_none.mp file⟩
  · rintro ⟨before, call, reply⟩ member
    have among := call_of_mem_trace member
    simp only [failingCalls, mem_cons, not_mem_nil, or_false] at among
    rcases among with rfl | rfl | rfl | rfl
    · exact fun raised => by cases raised
    · refine clean_of_plain rfl rfl (fun raised => by cases raised) rfl (fun observed page wrote => ?_) _
      cases observed <;> cases wrote
      exact ⟨['4'], by decide +kernel, by decide⟩
    all_goals
      refine clean_of_plain rfl rfl (fun raised => by cases raised) rfl (fun observed page wrote => ?_) _
      cases observed <;> cases wrote

end OpenUltraSast.Cpg.SessionCalls
