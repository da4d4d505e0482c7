import Mathlib.Data.Option.Basic

/-!
# Programs that may be cut

A program asks the world and goes on with the answers. It may be cut between any two of
its requests, and only the world is left then. What a program keeps is therefore asked
of the world after each answer, and of the program's memory only at its end.
-/

namespace Programs

variable {ρ : Type} {answer : ρ → Type} {α β ω : Type}

/-- A program with requests `ρ`, each with its type of answers. -/
inductive Program (ρ : Type) (answer : ρ → Type) (α : Type) where
  | done (result : α)
  | ask (request : ρ) (next : answer request → Program ρ answer α)

namespace Program

def bind : Program ρ answer α → (α → Program ρ answer β) → Program ρ answer β
  | done result, f => f result
  | ask request next, f => ask request fun reply => bind (next reply) f

instance : Monad (Program ρ answer) where
  pure := done
  bind := bind

def request (r : ρ) : Program ρ answer (answer r) := ask r done

end Program

abbrev Answers (ρ : Type) (answer : ρ → Type) (ω : Type) :=
  (request : ρ) → answer request → ω → ω → Prop

variable (answers : Answers ρ answer ω) (inv : ω → Prop)

/-- The world keeps the invariant after each answer, and the end meets `post`. -/
def Safe (post : α → ω → Prop) : Program ρ answer α → ω → Prop
  | .done result, world => post result world
  | .ask request next, world => ∀ reply after, answers request reply world after →
      inv after ∧ Safe post (next reply) after

variable {answers inv} {program : Program ρ answer α}

theorem Safe.mono {post weaker : α → ω → Prop} (implies : ∀ a w, post a w → weaker a w)
    {world : ω} (safe : Safe answers inv post program world) :
    Safe answers inv weaker program world := by
  induction program generalizing world with
  | done result => exact implies result world safe
  | ask request next ih =>
    intro reply after answered
    exact ⟨(safe reply after answered).1, ih reply (safe reply after answered).2⟩

variable {f : α → Program ρ answer β}

/-- The rule of sequence. -/
theorem Safe.bind {post : β → ω → Prop}
    {world : ω}
    (safe : Safe answers inv (fun a w => Safe answers inv post (f a) w) program world) :
    Safe answers inv post (program.bind f) world := by
  induction program generalizing world with
  | done result => exact safe
  | ask request next ih =>
    intro reply after answered
    exact ⟨(safe reply after answered).1, ih reply (safe reply after answered).2⟩

theorem Safe.trivial (program : Program ρ answer α) (world : ω) :
    Safe answers (fun _ => True) (fun _ _ => True) program world := by
  induction program generalizing world with
  | done result => exact True.intro
  | ask request next ih => exact fun reply after _ => ⟨True.intro, ih reply after⟩

variable (answers)

inductive Ends : Program ρ answer α → ω → α → ω → Prop where
  | done {result world} : Ends (.done result) world result world
  | ask {request next world reply after result last} (answered : answers request reply world after)
      (rest : Ends (next reply) after result last) : Ends (.ask request next) world result last

inductive Reaches : Program ρ answer α → ω → ω → Prop where
  | cut {program world} : Reaches program world world
  | ask {request next world reply after last} (answered : answers request reply world after)
      (rest : Reaches (next reply) after last) : Reaches (.ask request next) world last

/-- A program on a world that answers by a function. -/
def play (respond : (request : ρ) → ω → answer request × ω) :
    Program ρ answer α → ω → α × ω
  | .done result, world => (result, world)
  | .ask request next, world =>
    play respond (next (respond request world).1) (respond request world).2

/-- A world as a program that is cut after some answers leaves it. -/
def playFor (respond : (request : ρ) → ω → answer request × ω) : Nat → Program ρ answer α → ω → ω
  | 0, _, world => world
  | _, .done _, world => world
  | n + 1, .ask request next, world =>
    playFor respond n (next (respond request world).1) (respond request world).2

variable {answers} {respond : (request : ρ) → ω → answer request × ω}

theorem reaches_playFor (responds : ∀ request world,
      answers request (respond request world).1 world (respond request world).2)
    (n : Nat) (program : Program ρ answer α) (world : ω) :
    Reaches answers program world (playFor respond n program world) := by
  induction n generalizing program world with
  | zero => exact .cut
  | succ n ih =>
    cases program with
    | done => exact .cut
    | ask request next => exact .ask (responds request world) (ih _ _)

theorem ends_play (responds : ∀ request world,
      answers request (respond request world).1 world (respond request world).2)
    (program : Program ρ answer α) (world : ω) :
    Ends answers program world (play respond program world).1 (play respond program world).2 := by
  induction program generalizing world with
  | done result => exact .done
  | ask request next ih => exact .ask (responds request world) (ih _ _)

theorem Ends.bind {world mid last : ω}
    {first : α} {result : β} (ended : Ends answers program world first mid)
    (rest : Ends answers (f first) mid result last) :
    Ends answers (program.bind f) world result last := by
  induction ended with
  | done => exact rest
  | ask answered _ ih => exact .ask answered (ih rest)

/-- Where a safe program ends, its postcondition holds. -/
theorem Safe.ends {post : α → ω → Prop} {world last : ω}
    {result : α} (safe : Safe answers inv post program world)
    (ends : Ends answers program world result last) : post result last := by
  induction ends with
  | done => exact safe
  | ask answered _ ih => exact ih (safe _ _ answered).2

/-- In every world that a safe program reaches, also cut short, the invariant holds. -/
theorem Safe.reaches {post : α → ω → Prop} {world last : ω}
    (safe : Safe answers inv post program world) (kept : inv world)
    (reached : Reaches answers program world last) : inv last := by
  induction reached with
  | cut => exact kept
  | ask answered _ ih => exact ih (safe _ _ answered).2 (safe _ _ answered).1

variable {μ : Type}

/-- The world, and the program that runs on it if one does. A program ends with the memory
to go round with, or without. -/
structure Host (ρ : Type) (answer : ρ → Type) (ω μ : Type) where
  world : ω
  running : Option (Program ρ answer (Option μ))

variable (answers) (first : ω → Program ρ answer (Option μ)) (body : μ → Program ρ answer (Option μ))

/-- The host starts the program from what the world holds, hands it an answer, sends it
round again, lets it end, or crashes. -/
inductive HostStep : Host ρ answer ω μ → Host ρ answer ω μ → Prop where
  | start {world} : HostStep ⟨world, none⟩ ⟨world, some (first world)⟩
  | answered {world after request next} (reply : answer request)
      (answered : answers request reply world after) :
      HostStep ⟨world, some (.ask request next)⟩ ⟨after, some (next reply)⟩
  | again {world memory} :
      HostStep ⟨world, some (.done (some memory))⟩ ⟨world, some (body memory)⟩
  | finish {world} : HostStep ⟨world, some (.done none)⟩ ⟨world, none⟩
  | crash {world program} : HostStep ⟨world, some program⟩ ⟨world, none⟩

inductive HostRun (initial : ω → Prop) : Host ρ answer ω μ → Prop where
  | initial {world} (fresh : initial world) : HostRun initial ⟨world, none⟩
  | step {host next} (reached : HostRun initial host)
      (step : HostStep answers first body host next) : HostRun initial next

/-- A host that never crashes, on a world that answers by a function. -/
def Host.advance (respond : (request : ρ) → ω → answer request × ω) :
    Host ρ answer ω μ → Host ρ answer ω μ
  | ⟨world, none⟩ => ⟨world, some (first world)⟩
  | ⟨world, some (.ask request next)⟩ =>
    ⟨(respond request world).2, some (next (respond request world).1)⟩
  | ⟨world, some (.done (some memory))⟩ => ⟨world, some (body memory)⟩
  | ⟨world, some (.done none)⟩ => ⟨world, none⟩

variable {answers first body} {host : Host ρ answer ω μ} {initial : ω → Prop}

theorem HostRun.advance (responds : ∀ request world,
      answers request (respond request world).1 world (respond request world).2)
    (reached : HostRun answers first body initial host) :
    HostRun answers first body initial (host.advance first body respond) := by
  obtain ⟨world, _ | _ | _⟩ := host
  · exact .step reached .start
  next result =>
    cases result with
    | none => exact .step reached .finish
    | some memory => exact .step reached .again
  · exact .step reached (.answered _ (responds _ _))

theorem HostRun.crashed (reached : HostRun answers first body initial host) :
    HostRun answers first body initial { host with running := none } := by
  obtain ⟨world, _ | program⟩ := host
  · exact reached
  · exact .step reached .crash

/-- What the start gives, each round keeps, and the world keeps throughout holds of the world
at every point of every run, whatever crashes. -/
theorem host_invariant (ready : μ → ω → Prop)
    (fresh : ∀ world, initial world → inv world)
    (firstSafe : ∀ world, inv world →
      Safe answers inv (fun m w => ∀ memory ∈ m, ready memory w) (first world) world)
    (bodySafe : ∀ world memory, ready memory world →
      Safe answers inv (fun m w => ∀ memory ∈ m, ready memory w) (body memory) world)
    (reached : HostRun answers first body initial host) :
    inv host.world := by
  suffices kept : inv host.world ∧ ∀ program ∈ host.running,
      Safe answers inv (fun m w => ∀ memory ∈ m, ready memory w) program host.world from kept.1
  induction reached with
  | initial start => exact ⟨fresh _ start, by simp⟩
  | step _ step ih =>
    obtain ⟨kept, safe⟩ := ih
    -- A running program stays safe, and a crash leaves the world that it kept.
    cases step with
    | start =>
      refine ⟨kept, fun program running => ?_⟩
      cases running
      exact firstSafe _ kept
    | answered reply answered =>
      obtain ⟨after, rest⟩ := safe _ rfl reply _ answered
      refine ⟨after, fun program running => ?_⟩
      cases running
      exact rest
    | again =>
      refine ⟨kept, fun program running => ?_⟩
      cases running
      exact bodySafe _ _ (safe _ rfl _ rfl)
    | finish => exact ⟨kept, by simp⟩
    | crash => exact ⟨kept, by simp⟩

abbrev Piece (ρ : Type) (answer : ρ → Type) (ε μ α : Type) := ExceptT ε (StateT μ (Program ρ answer)) α

section Piece

variable {ε : Type} {pre : μ → ω → Prop} {left : ε → μ → ω → Prop}

def Piece.ask (request : ρ) : Piece ρ answer ε μ (answer request) :=
  fun memory => (Program.request request).bind fun reply => .done (.ok reply, memory)

variable (answers inv)

/-- From one memory and world a piece comes to `post`, or leaves by an exception to `left`. -/
def Leads (post : α → μ → ω → Prop) (left : ε → μ → ω → Prop) (piece : Piece ρ answer ε μ α)
    (memory : μ) (world : ω) : Prop :=
  Safe answers inv
    (fun result world => match result.1 with
      | .ok value => post value result.2 world
      | .error stop => left stop result.2 world) (piece memory) world

/-- From memories and worlds of `pre` a piece comes to `post`, or leaves by an exception to
`left`. -/
def Meets (pre : μ → ω → Prop) (piece : Piece ρ answer ε μ α) (post : α → μ → ω → Prop)
    (left : ε → μ → ω → Prop) : Prop :=
  ∀ memory world, pre memory world → Leads answers inv post left piece memory world

variable {answers inv}

namespace Leads

variable {memory : μ} {world : ω} {post : α → μ → ω → Prop}

theorem pure {value : α} (holds : post value memory world) :
    Leads answers inv post left (Pure.pure value) memory world := holds

theorem throw {stop : ε} (holds : left stop memory world) :
    Leads answers inv post left (MonadExcept.throw stop) memory world := holds

theorem trivial (piece : Piece ρ answer ε μ α) (memory : μ) (world : ω) :
    Leads answers (fun _ => True) (fun _ _ _ => True) (fun _ _ _ => True) piece memory world := by
  refine Safe.mono ?_ (Safe.trivial (piece memory) world)
  rintro ⟨stop | value, after⟩ world' _
  · exact True.intro
  · exact True.intro

variable {piece : Piece ρ answer ε μ α}

theorem mono {post weaker : α → μ → ω → Prop} {less : ε → μ → ω → Prop}
    (leads : Leads answers inv post left piece memory world)
    (implies : ∀ value memory world, post value memory world → weaker value memory world)
    (leaves : ∀ stop memory world, left stop memory world → less stop memory world) :
    Leads answers inv weaker less piece memory world := by
  refine Safe.mono ?_ leads
  rintro ⟨stop | value, after⟩ world' holds
  · exact leaves stop after world' holds
  · exact implies value after world' holds

theorem bind {post : β → μ → ω → Prop}
    {f : α → Piece ρ answer ε μ β}
    (leads : Leads answers inv (fun value => Leads answers inv post left (f value)) left piece
      memory world) : Leads answers inv post left (piece >>= f) memory world := by
  refine Safe.bind (Safe.mono ?_ leads)
  rintro ⟨stop | value, after⟩ world' holds
  · exact holds
  · exact holds

theorem ite {p : Prop} [Decidable p] {piece other : Piece ρ answer ε μ α}
    (first : p → Leads answers inv post left piece memory world)
    (second : ¬p → Leads answers inv post left other memory world) :
    Leads answers inv post left (if p then piece else other) memory world := by
  split
  · exact first ‹_›
  · exact second ‹_›

theorem tryCatch {handle : ε → Piece ρ answer ε μ α}
    (leads : Leads answers inv post (fun stop => Leads answers inv post left (handle stop)) piece
      memory world) :
    Leads answers inv post left (MonadExcept.tryCatch piece handle) memory world := by
  refine Safe.bind (Safe.mono ?_ leads)
  rintro ⟨stop | value, after⟩ world' holds
  · exact holds
  · exact holds

theorem get {post : μ → μ → ω → Prop} (holds : post memory memory world) :
    Leads answers inv post left MonadState.get memory world := holds

theorem set {post : PUnit → μ → ω → Prop} {value : μ} (holds : post ⟨⟩ value world) :
    Leads answers inv post left (MonadStateOf.set value) memory world := holds

theorem change {post : PUnit → μ → ω → Prop} {change : μ → μ}
    (holds : post ⟨⟩ (change memory) world) :
    Leads answers inv post left (modify change) memory world := holds

theorem ask {request : ρ} {post : answer request → μ → ω → Prop}
    (holds : ∀ reply after, answers request reply world after →
      inv after ∧ post reply memory after) :
    Leads answers inv post left (Piece.ask request) memory world := holds

theorem forM {τ : Type} {body : τ → Piece ρ answer ε μ PUnit} (past : List τ → μ → ω → Prop)
    {items : List τ} (first : past [] memory world)
    (step : ∀ before item after, items = before ++ item :: after → ∀ memory world,
      past before memory world →
        Leads answers inv (fun _ => past (before ++ [item])) left (body item) memory world) :
    Leads answers inv (fun _ => past items) left (items.forM body) memory world := by
  suffices rest : ∀ before after, items = before ++ after → ∀ memory world,
      past before memory world →
        Leads answers inv (fun _ => past items) left (after.forM body) memory world from
    rest [] items rfl memory world first
  intro before after
  induction after generalizing before with
  | nil =>
    intro whole memory world held
    rw [List.append_nil] at whole
    exact .pure (whole ▸ held)
  | cons item after ih =>
    intro whole memory world held
    apply Leads.bind
    apply (step before item after whole memory world held).mono _ (fun _ _ _ stopped => stopped)
    intro _ memory world held
    exact ih (before ++ [item]) (by simp [whole]) memory world held

/-! Ends of a piece. -/

variable {after : μ} {last : ω}

theorem ends_ok {value : α}
    (leads : Leads answers inv post left piece memory world)
    (ended : Ends answers (piece memory) world (.ok value, after) last) : post value after last := by
  have holds := Safe.ends leads ended
  exact holds

theorem ends_error {stop : ε}
    (leads : Leads answers inv post left piece memory world)
    (ended : Ends answers (piece memory) world (.error stop, after) last) : left stop after last := by
  have holds := Safe.ends leads ended
  exact holds

theorem ends_kept {keep : μ → ω → Prop} {result : Except ε α}
    (leads : Leads answers inv (fun _ => keep) (fun _ => keep) piece memory world)
    (ended : Ends answers (piece memory) world (result, after) last) : keep after last := by
  cases result with
  | ok value => exact leads.ends_ok ended
  | error stop => exact leads.ends_error ended

end Leads

namespace Meets

theorem mono {weaker : μ → ω → Prop} {post stronger : α → μ → ω → Prop} {less : ε → μ → ω → Prop}
    {piece : Piece ρ answer ε μ α} (meets : Meets answers inv weaker piece stronger less)
    (before : ∀ memory world, pre memory world → weaker memory world)
    (after : ∀ value memory world, stronger value memory world → post value memory world)
    (leaves : ∀ stop memory world, less stop memory world → left stop memory world) :
    Meets answers inv pre piece post left :=
  fun memory world holds => (meets memory world (before memory world holds)).mono after leaves

theorem pure {post : α → μ → ω → Prop} {value : α}
    (holds : ∀ memory world, pre memory world → post value memory world) :
    Meets answers inv pre (Pure.pure value) post left :=
  fun memory world before => Leads.pure (holds memory world before)

theorem throw {post : α → μ → ω → Prop} {stop : ε}
    (holds : ∀ memory world, pre memory world → left stop memory world) :
    Meets answers inv pre (MonadExcept.throw stop) post left :=
  fun memory world before => Leads.throw (holds memory world before)

theorem bind {mid : α → μ → ω → Prop} {post : β → μ → ω → Prop} {piece : Piece ρ answer ε μ α}
    {f : α → Piece ρ answer ε μ β} (first : Meets answers inv pre piece mid left)
    (rest : ∀ value, Meets answers inv (mid value) (f value) post left) :
    Meets answers inv pre (piece >>= f) post left :=
  fun memory world before => Leads.bind
    ((first memory world before).mono (fun value => rest value) fun _ _ _ holds => holds)

theorem tryCatch {post : α → μ → ω → Prop} {caught : ε → μ → ω → Prop}
    {piece : Piece ρ answer ε μ α} {handle : ε → Piece ρ answer ε μ α}
    (tried : Meets answers inv pre piece post caught)
    (handled : ∀ stop, Meets answers inv (caught stop) (handle stop) post left) :
    Meets answers inv pre (MonadExcept.tryCatch piece handle) post left :=
  fun memory world before => Leads.tryCatch
    ((tried memory world before).mono (fun _ _ _ holds => holds) handled)

theorem change {post : PUnit → μ → ω → Prop} {change : μ → μ}
    (holds : ∀ memory world, pre memory world → post ⟨⟩ (change memory) world) :
    Meets answers inv pre (modify change) post left :=
  fun memory world before => Leads.change (holds memory world before)

theorem ask {request : ρ} {post : answer request → μ → ω → Prop}
    (holds : ∀ memory world reply after, pre memory world → answers request reply world after →
      inv after ∧ post reply memory after) : Meets answers inv pre (Piece.ask request) post left :=
  fun memory world before => Leads.ask fun reply after => holds memory world reply after before

end Meets

end Piece

end Programs
