import Mathlib.Algebra.Order.Archimedean.Basic
import Mathlib.Tactic.Positivity
import OpenUltraSast.Model.Portions

/-!
# Asking in portions ends

A turn asks for less than the turn before it, or it is stalled: the engine said nothing
about several requests, which are asked again at twice their predicted cost.
-/

namespace OpenUltraSast.Model

open List

variable {ρ σ : Type} (load : Workload) (requests : Requests ρ)

variable {pending : List (Requests ρ)}

namespace Sizer

variable (sizer : Sizer)

theorem takeFitting_append (carried : ℚ) (l : Requests ρ) :
    (sizer.takeFitting load carried l).1 ++ (sizer.takeFitting load carried l).2.1 = l := by
  induction l generalizing carried with
  | nil => rfl
  | cons entry rest ih =>
    rw [takeFitting]
    split
    · rfl
    · simp only [cons_append, ih]

variable {more : Requests ρ}

theorem takeFitting_head {carried : ℚ} {rid : String} {request : ρ} {rest : Requests ρ}
    {entry : String × ρ}
    (taken : (sizer.takeFitting load carried ((rid, request) :: rest)).1 = entry :: more) :
    entry = (rid, request) ∧ carried + sizer.cost load rid ≤ sizer.allowance := by
  rw [takeFitting] at taken
  split at taken
  · cases taken
  next fits =>
    simp only [List.cons.injEq] at taken
    exact ⟨taken.1.symm, not_lt.mp fits⟩

theorem grow_cons (kept : Requests ρ) (carried : ℚ) (head : Requests ρ)
    (pending : List (Requests ρ)) :
    sizer.grow load kept carried (head :: pending) =
      if (sizer.takeFitting load carried head).2.1 ≠ [] then
        (kept ++ (sizer.takeFitting load carried head).1,
          (sizer.takeFitting load carried head).2.1 :: pending)
      else sizer.grow load (kept ++ (sizer.takeFitting load carried head).1)
        (sizer.takeFitting load carried head).2.2 pending := rfl

theorem fit_cons (first : String × ρ) (others : Requests ρ) (pending : List (Requests ρ)) :
    sizer.fit load (first :: others) pending =
      if (sizer.takeFitting load (sizer.cost load first.1) others).2.1 ≠ [] then
        (first :: (sizer.takeFitting load (sizer.cost load first.1) others).1,
          (sizer.takeFitting load (sizer.cost load first.1) others).2.1 :: pending)
      else sizer.grow load (first :: (sizer.takeFitting load (sizer.cost load first.1) others).1)
        (sizer.takeFitting load (sizer.cost load first.1) others).2.2 pending := rfl

theorem grow_append (kept : Requests ρ) (carried : ℚ) (pending : List (Requests ρ)) :
    (sizer.grow load kept carried pending).1 ++ (sizer.grow load kept carried pending).2.flatten =
      kept ++ pending.flatten := by
  induction pending generalizing kept carried with
  | nil => simp [grow]
  | cons head rest ih =>
    have parts := sizer.takeFitting_append load carried head
    rw [grow_cons]
    split
    · rw [flatten_cons, append_assoc, ← append_assoc _ _ rest.flatten, parts,
        flatten_cons]
    next whole =>
      simp only [ne_eq, Decidable.not_not] at whole
      rw [ih, flatten_cons, append_assoc]
      rw [whole, append_nil] at parts
      rw [parts]

theorem fit_append (chunk : Requests ρ) (pending : List (Requests ρ)) :
    (sizer.fit load chunk pending).1 ++ (sizer.fit load chunk pending).2.flatten =
      chunk ++ pending.flatten := by
  cases chunk with
  | nil => exact sizer.grow_append load [] 0 pending
  | cons first others =>
    have parts := sizer.takeFitting_append load (sizer.cost load first.1) others
    rw [fit_cons]
    split
    · rw [flatten_cons, cons_append, ← append_assoc, parts, cons_append]
    next whole =>
      simp only [ne_eq, Decidable.not_not] at whole
      rw [whole, append_nil] at parts
      rw [sizer.grow_append, parts]

theorem grow_nonempty (kept : Requests ρ) (carried : ℚ) (nonempty : ∀ c ∈ pending, c ≠ []) :
    ∀ c ∈ (sizer.grow load kept carried pending).2, c ≠ [] := by
  induction pending generalizing kept carried with
  | nil => simp [grow]
  | cons head rest ih =>
    rw [forall_mem_cons] at nonempty
    rw [grow_cons]
    split
    next left =>
      rw [forall_mem_cons]
      exact ⟨left, nonempty.2⟩
    next => exact ih _ _ nonempty.2

private theorem fit_nonempty (chunk : Requests ρ) (nonempty : ∀ c ∈ pending, c ≠ []) :
    ∀ c ∈ (sizer.fit load chunk pending).2, c ≠ [] := by
  cases chunk with
  | nil => exact sizer.grow_nonempty load [] 0 nonempty
  | cons first others =>
    rw [fit_cons]
    split
    next left =>
      rw [forall_mem_cons]
      exact ⟨left, nonempty⟩
    next => exact sizer.grow_nonempty load _ _ nonempty

theorem grow_kept (kept : Requests ρ) (carried : ℚ) (pending : List (Requests ρ)) :
    ∃ more, (sizer.grow load kept carried pending).1 = kept ++ more := by
  induction pending generalizing kept carried with
  | nil => exact ⟨[], by simp [grow]⟩
  | cons head rest ih =>
    rw [grow_cons]
    split
    · exact ⟨_, rfl⟩
    next =>
      obtain ⟨more, grown⟩ := ih (kept ++ (sizer.takeFitting load carried head).1)
        (sizer.takeFitting load carried head).2.2
      exact ⟨_, by rw [grown, append_assoc]⟩

theorem fit_head (first : String × ρ) (others : Requests ρ) (pending : List (Requests ρ)) :
    ∃ more, (sizer.fit load (first :: others) pending).1 = first :: more := by
  rw [fit_cons]
  split
  · exact ⟨_, rfl⟩
  next =>
    obtain ⟨more, grown⟩ := sizer.grow_kept load
      (first :: (sizer.takeFitting load (sizer.cost load first.1) others).1)
      (sizer.takeFitting load (sizer.cost load first.1) others).2.2 pending
    exact ⟨_, grown⟩

theorem fit_pair {chunk : Requests ρ} (filled : chunk ≠ []) (nonempty : ∀ c ∈ pending, c ≠ [])
    {a b : String × ρ} (portion : (sizer.fit load chunk pending).1 = a :: b :: more) :
    sizer.cost load a.1 + sizer.cost load b.1 ≤ sizer.allowance := by
  match chunk, filled with
  | first :: (rid, request) :: others, _ =>
    -- The second request stands in the same chunk.
    rw [fit_cons] at portion
    cases taken : (sizer.takeFitting load (sizer.cost load first.1)
        ((rid, request) :: others)).1 with
    | nil =>
      have parts := sizer.takeFitting_append load (sizer.cost load first.1)
        ((rid, request) :: others)
      rw [taken, nil_append] at parts
      simp [taken, parts] at portion
    | cons entry rest =>
      obtain ⟨rfl, fits⟩ := sizer.takeFitting_head load taken
      split at portion
      · simp only [taken, List.cons.injEq] at portion
        rw [← portion.1, ← portion.2.1]
        exact fits
      next =>
        obtain ⟨grown, kept⟩ := sizer.grow_kept load (first :: (sizer.takeFitting load
          (sizer.cost load first.1) ((rid, request) :: others)).1) (sizer.takeFitting load
          (sizer.cost load first.1) ((rid, request) :: others)).2.2 pending
        rw [kept, taken] at portion
        simp only [cons_append, List.cons.injEq] at portion
        rw [← portion.1, ← portion.2.1]
        exact fits
  | [first], _ =>
    -- The portion was grown, and the second request leads the chunk behind.
    have portion : (sizer.grow load [first] (sizer.cost load first.1) pending).1 =
      a :: b :: more := portion
    match pending, nonempty with
    | [], _ => simp [grow] at portion
    | [] :: _, nonempty => exact absurd rfl (nonempty [] mem_cons_self)
    | ((rid, request) :: others) :: behind, _ =>
      rw [grow_cons] at portion
      cases taken : (sizer.takeFitting load (sizer.cost load first.1)
          ((rid, request) :: others)).1 with
      | nil =>
        have parts := sizer.takeFitting_append load (sizer.cost load first.1)
          ((rid, request) :: others)
        rw [taken, nil_append] at parts
        simp [taken, parts] at portion
      | cons entry rest =>
        obtain ⟨rfl, fits⟩ := sizer.takeFitting_head load taken
        split at portion
        · simp only [taken, cons_append, nil_append, List.cons.injEq] at portion
          rw [← portion.1, ← portion.2.1]
          exact fits
        next =>
          obtain ⟨grown, kept⟩ := sizer.grow_kept load ([first] ++ (sizer.takeFitting load
            (sizer.cost load first.1) ((rid, request) :: others)).1) (sizer.takeFitting load
            (sizer.cost load first.1) ((rid, request) :: others)).2.2 behind
          rw [kept, taken] at portion
          simp only [cons_append, nil_append, List.cons.injEq] at portion
          rw [← portion.1, ← portion.2.1]
          exact fits

/-- The engine said nothing about a portion: its families are twice as dear. -/
def doubled (chunk : List String) : Sizer :=
  { sizer with penalty := fun family =>
      if family ∈ chunk.map load.family then sizer.penalty family * 2 else sizer.penalty family }

theorem observe_silence (chunk : List String) (seconds : ℚ) (timing : String → Option ℚ)
    {answered : String → Bool} (silent : ∀ rid ∈ chunk, answered rid = false) :
    sizer.observe load chunk seconds answered timing none = sizer.doubled load chunk := by
  have done : chunk.filter answered = [] := by
    simpa [filter_eq_nil_iff] using silent
  simp [observe, done, observeDone, doubled]

theorem doubled_cost {chunk : List String} {rid : String} (asked : rid ∈ chunk) :
    (sizer.doubled load chunk).cost load rid = 2 * sizer.cost load rid := by
  have family : load.family rid ∈ chunk.map load.family := mem_map_of_mem asked
  have base : (sizer.doubled load chunk).base (load.family rid) = sizer.base (load.family rid) :=
    rfl
  have penalty : (sizer.doubled load chunk).penalty (load.family rid) =
      sizer.penalty (load.family rid) * 2 := if_pos family
  simp only [cost, rate]
  rw [base, penalty]
  ring

@[simp] theorem doubled_allowance (chunk : List String) :
    (sizer.doubled load chunk).allowance = sizer.allowance := rfl

end Sizer

private theorem sizedBatchesLoop_flatten (l current : Requests ρ) (carried : Nat) :
    (sizedBatchesLoop load l current carried).flatten = current ++ l := by
  fun_induction sizedBatchesLoop load l current carried <;> simp_all

private theorem sizedBatchesLoop_nonempty (l current : Requests ρ) (carried : Nat) :
    ∀ chunk ∈ sizedBatchesLoop load l current carried, chunk ≠ [] := by
  fun_induction sizedBatchesLoop load l current carried <;> simp_all

theorem sizedBatches_flatten : (sizedBatches load requests).flatten = requests := by
  simp [sizedBatches, sizedBatchesLoop_flatten]

namespace Batch

variable (batch : Batch ρ σ)

def Filled : Prop := ∀ chunk ∈ batch.queue, chunk ≠ []

/-- What is left to ask; a queued request may still be asked twice. -/
def outstanding : Nat := 2 * batch.queue.flatten.length + batch.isolated.length

/-- The next turn asks several requests and the engine says nothing. -/
def Stalled (reply : Reply σ) : Prop :=
  reply.answer = none ∧ ∃ a b more behind,
    batch.next load requests = some (a :: b :: more, false, behind)

variable {batch} {reply : Reply σ}

theorem next_cases (batch : Batch ρ σ) :
    (batch.next load requests = none ∧ batch.queue = [] ∧ batch.isolated = []) ∨
    (∃ rid others behind, batch.queue = [] ∧ batch.isolated = rid :: others ∧
      batch.next load requests = some (requests.filter (·.1 = rid), true, behind) ∧
      behind.queue = [] ∧ behind.isolated = others ∧ behind.sizer = batch.sizer ∧
      behind.merged = batch.merged) ∨
    (∃ chunk pending behind, batch.queue = chunk :: pending ∧
      batch.next load requests = some ((batch.sizer.fit load chunk pending).1, false, behind) ∧
      behind.queue = (batch.sizer.fit load chunk pending).2 ∧
      behind.isolated = batch.isolated ∧ behind.sizer = batch.sizer ∧
      behind.merged = batch.merged) := by
  match queue : batch.queue, isolated : batch.isolated with
  | [], [] => exact .inl ⟨by simp [next, queue, isolated], rfl, rfl⟩
  -- The queue is empty, and the isolated requests are asked alone.
  | [], rid :: others =>
    refine .inr (.inl ⟨rid, others, { batch with isolated := others }, rfl, rfl, ?_, queue, ?_⟩)
    · simp [next, queue, isolated]
    · exact ⟨rfl, rfl, rfl⟩
  | chunk :: pending, _ =>
    refine .inr (.inr ⟨chunk, pending,
      { batch with queue := (batch.sizer.fit load chunk pending).2 }, rfl, ?_, rfl, ?_⟩)
    · simp [next, queue]
    · exact ⟨isolated, rfl, rfl⟩

def remainder (chunk : Requests ρ) (reply : Reply σ) : Requests ρ :=
  chunk.filter fun entry => !reply.answers entry.1

/-- What a portion leaves to do: nothing more, all of it again, or the request it was
killed on alone and the rest again. -/
theorem settle_cases (batch : Batch ρ σ) (chunk : Requests ρ) (alone : Bool) (reply : Reply σ) :
    ((batch.settle load chunk alone reply).queue = batch.queue ∧
      (batch.settle load chunk alone reply).isolated = batch.isolated ∧
      (remainder chunk reply = [] ∨ alone = true ∨ chunk.length = 1)) ∨
    (alone = false ∧ chunk.length ≠ 1 ∧ remainder chunk reply ≠ [] ∧ reply.answer = none ∧
      (batch.settle load chunk alone reply).queue = remainder chunk reply :: batch.queue ∧
      (batch.settle load chunk alone reply).isolated = batch.isolated) ∨
    (∃ answer first others, alone = false ∧ chunk.length ≠ 1 ∧ reply.answer = some answer ∧
      remainder chunk reply = first :: others ∧
      (batch.settle load chunk alone reply).queue =
        (if others.filter (·.1 ≠ first.1) ≠ [] then others.filter (·.1 ≠ first.1) :: batch.queue
          else batch.queue) ∧
      (batch.settle load chunk alone reply).isolated = batch.isolated ++ [first.1]) := by
  cases unanswered : remainder chunk reply with
  | nil =>
    have none_ : chunk.filter (fun entry => !reply.answers entry.1) = [] := unanswered
    exact .inl ⟨by simp [settle, none_], by simp [settle, none_], .inl rfl⟩
  | cons first others =>
    have some_ : chunk.filter (fun entry => !reply.answers entry.1) = first :: others := unanswered
    -- Asked alone, what stays unanswered is given up.
    by_cases single : (alone || chunk.length = 1) = true
    · refine .inl ?_
      simp only [settle, some_, single, if_true]
      simp only [Bool.or_eq_true, decide_eq_true_eq] at single
      split <;> exact ⟨rfl, rfl, .inr single⟩
    · simp only [settle, some_, single, Bool.false_eq_true, if_false]
      simp only [Bool.or_eq_true, decide_eq_true_eq, not_or, Bool.not_eq_true] at single
      cases answered : reply.answer with
      | none => exact .inr (.inl ⟨single.1, single.2, by simp, rfl, by simp, by simp⟩)
      | some answer =>
        -- The engine was killed on the first request it left unanswered.
        have head : (ids (first :: others)).head? = some first.1 := rfl
        have rest : (first :: others).filter (fun entry => decide (entry.1 ≠ first.1)) =
            others.filter (fun entry => decide (entry.1 ≠ first.1)) :=
          filter_cons_of_neg (by simp)
        refine .inr (.inr ⟨answer, first, others, single.1, single.2, rfl, rfl, ?_, ?_⟩)
        · simp only [Option.isSome_some, if_true, head, rest]
        · simp only [Option.isSome_some, if_true, head, Option.toList]

private theorem settle_answered {chunk : Requests ρ} (filled : chunk ≠ []) {alone : Bool}
    (moves : alone = true ∨ chunk.length = 1 ∨ reply.answer ≠ none) :
    (batch.settle load chunk alone reply).outstanding <
      batch.outstanding + 2 * chunk.length := by
  have positive := length_pos_iff.mpr filled
  rcases settle_cases load batch chunk alone reply with ⟨queue, isolated, -⟩ |
    ⟨company, several, -, silent, -⟩ | ⟨answer, first, others, -, -, -, left, queue, isolated⟩
  · simp only [outstanding, queue, isolated]
    omega
  · simp [company, several, silent] at moves
  · -- One request is isolated, and those behind it are fewer than the portion.
    have members : (first :: others).length ≤ chunk.length := left ▸ length_filter_le _ _
    have kept := length_filter_le (fun entry : String × ρ => decide (entry.1 ≠ first.1)) others
    rw [length_cons] at members
    simp only [outstanding, queue, isolated, length_append, length_singleton]
    split
    · rw [flatten_cons, length_append]
      omega
    · omega

theorem settle_filled (filled : batch.Filled) (chunk : Requests ρ) (alone : Bool) :
    (batch.settle load chunk alone reply).Filled := by
  simp only [Filled]
  rcases settle_cases load batch chunk alone reply with ⟨queue, -⟩ | ⟨-, -, left, -, queue, -⟩ |
    ⟨_, _, _, -, -, -, -, queue, -⟩ <;> rw [queue]
  · exact filled
  · rw [forall_mem_cons]
    exact ⟨left, filled⟩
  · split
    next rest =>
      rw [forall_mem_cons]
      exact ⟨rest, filled⟩
    next => exact filled

private theorem turn_filled (filled : batch.Filled) (reply : Reply σ) :
    (batch.turn load requests reply).Filled := by
  rcases next_cases load requests batch with ⟨next, -⟩ | ⟨_, _, behind, -, -, next, queue, -⟩ |
    ⟨chunk, pending, behind, queue, next, queue', -⟩ <;> simp only [turn, next]
  · exact filled
  · apply settle_filled
    simp [Filled, queue]
  · apply settle_filled
    intro c member
    rw [queue'] at member
    exact batch.sizer.fit_nonempty load chunk (fun other behind =>
      filled other (queue ▸ mem_cons_of_mem chunk behind)) c member

theorem Stalled.portion (stalled : batch.Stalled load requests reply) :
    ∃ chunk pending a b more, batch.queue = chunk :: pending ∧
      (batch.sizer.fit load chunk pending).1 = a :: b :: more ∧ ∃ behind,
        batch.next load requests = some (a :: b :: more, false, behind) ∧
        behind.queue = (batch.sizer.fit load chunk pending).2 ∧
        behind.isolated = batch.isolated ∧ behind.sizer = batch.sizer := by
  obtain ⟨-, a, b, more, behind', asked⟩ := stalled
  rcases next_cases load requests batch with ⟨next, -⟩ | ⟨_, _, _, -, -, next, -⟩ |
    ⟨chunk, pending, behind, queue, next, queue', isolated', sizer', -⟩ <;> rw [next] at asked
  · cases asked
  · simp at asked
  · simp only [Option.some.injEq, Prod.mk.injEq] at asked
    exact ⟨chunk, pending, a, b, more, queue, asked.1, behind, by rw [next, asked.1], queue',
      isolated', sizer'⟩

theorem turn_stalled (stalled : batch.Stalled load requests reply) :
    (batch.turn load requests reply).queue.flatten = batch.queue.flatten ∧
      ∀ a b more behind, batch.next load requests = some (a :: b :: more, false, behind) →
        (batch.turn load requests reply).sizer = batch.sizer.doubled load (ids (a :: b :: more)) ∧
        (batch.turn load requests reply).isolated = batch.isolated := by
  obtain ⟨chunk, pending, a, b, more, queue, portion, behind, next, queue', isolated', sizer'⟩ :=
    stalled.portion
  have silent := stalled.1
  -- The engine said nothing, so all of the portion is left.
  have nothing : ∀ rid, reply.answers rid = false := by
    intro rid
    simp [Reply.answers, silent]
  have all : remainder (a :: b :: more) reply = a :: b :: more := by
    simp [remainder, nothing]
  have parts := batch.sizer.fit_append load chunk pending
  rw [portion] at parts
  -- Silence doubles what the families of the portion are taken to cost.
  have taught : (behind.settle load (a :: b :: more) false reply).sizer =
      batch.sizer.doubled load (ids (a :: b :: more)) := by
    have unanswered : (a :: b :: more).filter (fun entry => !reply.answers entry.1) =
      a :: b :: more := all
    simp only [settle, unanswered, silent, Option.isSome_none, Bool.false_eq_true, if_false,
      Bool.false_or, sizer']
    split
    · split <;> exact batch.sizer.observe_silence load _ _ _ fun rid _ => nothing rid
    · exact batch.sizer.observe_silence load _ _ _ fun rid _ => nothing rid
  rcases settle_cases load behind (a :: b :: more) false reply with ⟨-, -, exceeded⟩ |
    ⟨-, -, -, -, queue'', isolated''⟩ | ⟨_, _, _, -, -, answered, -⟩
  · simp [all] at exceeded
  · constructor
    · rw [turn, next]
      simp only [queue'']
      rw [flatten_cons, all, queue', parts, queue, flatten_cons]
    · intro a' b' more' behind' next'
      rw [next] at next'
      simp only [Option.some.injEq, Prod.mk.injEq, true_and] at next'
      obtain ⟨same, rfl⟩ := next'
      rw [turn, next, ← same]
      exact ⟨taught, isolated''.trans isolated'⟩
  · rw [silent] at answered
    cases answered

/-- A turn leaves less outstanding, or gets no answer to two requests or more. -/
theorem turn_progress (filled : batch.Filled) (busy : ¬ batch.drained = true) (reply : Reply σ) :
    (batch.turn load requests reply).outstanding < batch.outstanding ∨
      batch.Stalled load requests reply := by
  rcases next_cases load requests batch with ⟨-, queue, isolated⟩ |
    ⟨rid, others, behind, queue, isolated, next, queue', isolated', -⟩ |
    ⟨chunk, pending, behind, queue, next, queue', isolated', -⟩
  · simp [drained, queue, isolated] at busy
  · -- An isolated request is given up whatever the engine says.
    left
    rcases settle_cases load behind (requests.filter (·.1 = rid)) true reply with
      ⟨queue'', isolated'', -⟩ | ⟨absurd_, -⟩ | ⟨_, _, _, absurd_, -⟩
    · simp only [turn, next, outstanding, queue'', isolated'', queue', isolated', queue, isolated,
        length_cons]
      omega
    · cases absurd_
    · cases absurd_
  · match chunk, filled chunk (queue ▸ mem_cons_self) with
    | first :: chunk, _ =>
      obtain ⟨more, portion⟩ := batch.sizer.fit_head load first chunk pending
      have parts := congrArg List.length (batch.sizer.fit_append load (first :: chunk) pending)
      rw [portion] at next parts
      -- The portion is not empty, and taking it off leaves less.
      have before : batch.outstanding = behind.outstanding + 2 * (first :: more).length := by
        rw [length_append] at parts
        simp only [outstanding, queue, queue', isolated', flatten_cons, ← parts]
        omega
      by_cases moves : (first :: more).length = 1 ∨ reply.answer ≠ none
      · left
        rw [before, turn, next]
        exact settle_answered load (cons_ne_nil first more) (.inr moves)
      · right
        simp only [not_or, ne_eq, not_not] at moves
        match more, moves with
        | [], moves => exact absurd rfl moves.1
        | second :: more, moves => exact ⟨moves.2, first, second, more, behind, next⟩

/-- The engine's silence about several requests is about requests that cost something:
the first two of the portion have a positive predicted cost. -/
def Priced (batch : Batch ρ σ) (reply : Reply σ) : Prop :=
  reply.answer = none → ∀ a b more alone behind,
    batch.next load requests = some (a :: b :: more, alone, behind) →
      0 < batch.sizer.cost load a.1 + batch.sizer.cost load b.1

end Batch

section
variable (replies : Nat → Reply σ)

theorem stateAfter_succ (n : Nat) : stateAfter load requests replies (n + 1) =
    (stateAfter load requests replies n).turn load requests (replies n) := rfl

theorem stateAfter_filled (n : Nat) : (stateAfter load requests replies n).Filled := by
  induction n with
  | zero => exact sizedBatchesLoop_nonempty load requests [] 0
  | succ n ih => exact Batch.turn_filled load requests ih (replies n)

/-- From some turn on, every turn of a loop that never drains is stalled. -/
theorem eventually_stalled (busy : ∀ n, ¬ (stateAfter load requests replies n).drained = true) :
    ∃ start, ∀ n, start ≤ n → (stateAfter load requests replies n).Stalled load requests (replies n)
    := by
  by_contra never
  push Not at never
  -- Then what is left to ask falls below any bound.
  have falls : ∀ bound, ∃ n, (stateAfter load requests replies n).outstanding + bound ≤
      (stateAfter load requests replies 0).outstanding := by
    have steady : ∀ m k, (stateAfter load requests replies (m + k)).outstanding ≤
        (stateAfter load requests replies m).outstanding := by
      intro m k
      induction k with
      | zero => exact le_rfl
      | succ k ih =>
        refine le_trans ?_ ih
        rcases Batch.turn_progress load requests (stateAfter_filled load requests replies (m + k))
          (busy (m + k)) (replies (m + k)) with less | stalled
        · exact less.le
        · obtain ⟨-, a, b, more, behind, next⟩ := id stalled
          obtain ⟨queue, kept⟩ := Batch.turn_stalled load requests stalled
          obtain ⟨-, isolated⟩ := kept a b more behind next
          rw [← Nat.add_assoc, stateAfter_succ, Batch.outstanding, Batch.outstanding, queue, isolated]
    intro bound
    induction bound with
    | zero => exact ⟨0, by omega⟩
    | succ bound ih =>
      obtain ⟨m, enough⟩ := ih
      obtain ⟨n, later, moving⟩ := never m
      refine ⟨n + 1, ?_⟩
      have less := (Batch.turn_progress load requests (stateAfter_filled load requests replies n)
        (busy n) (replies n)).resolve_right moving
      have before := steady m (n - m)
      rw [Nat.add_sub_cancel' later] at before
      rw [stateAfter_succ]
      omega
  obtain ⟨n, impossible⟩ := falls ((stateAfter load requests replies 0).outstanding + 1)
  omega

private theorem stalled_cost {start : Nat}
    (stalled : ∀ n, start ≤ n →
      (stateAfter load requests replies n).Stalled load requests (replies n)) :
    ∃ a b : String × ρ, ∀ k,
      (∃ more behind, (stateAfter load requests replies (start + k)).next load requests =
        some (a :: b :: more, false, behind)) ∧
      (stateAfter load requests replies (start + k)).sizer.allowance =
        (stateAfter load requests replies start).sizer.allowance ∧
      (stateAfter load requests replies (start + k)).sizer.cost load a.1 +
        (stateAfter load requests replies (start + k)).sizer.cost load b.1 =
        2 ^ k * ((stateAfter load requests replies start).sizer.cost load a.1 +
          (stateAfter load requests replies start).sizer.cost load b.1) := by
  -- The portion is a prefix of the queue, which a stalled turn does not change.
  have leading : ∀ n, start ≤ n → ∃ a b more behind rest,
      (stateAfter load requests replies n).next load requests =
        some (a :: b :: more, false, behind) ∧
      (stateAfter load requests replies n).queue.flatten = a :: b :: rest := by
    intro n later
    obtain ⟨chunk, pending, a, b, more, queue, portion, behind, next, -⟩ :=
      (stalled n later).portion
    have parts := (stateAfter load requests replies n).sizer.fit_append load chunk pending
    rw [portion] at parts
    refine ⟨a, b, more, behind, more ++
      ((stateAfter load requests replies n).sizer.fit load chunk pending).2.flatten, next, ?_⟩
    rw [queue, flatten_cons, ← parts, cons_append, cons_append]
  obtain ⟨a, b, -, -, rest, -, queue⟩ := leading start le_rfl
  have constant : ∀ k, (stateAfter load requests replies (start + k)).queue.flatten =
      a :: b :: rest := by
    intro k
    induction k with
    | zero => exact queue
    | succ k ih =>
      have still := stalled (start + k) (Nat.le_add_right start k)
      rw [← Nat.add_assoc, stateAfter_succ, (Batch.turn_stalled load requests still).1, ih]
  have portions : ∀ k, ∃ more behind, (stateAfter load requests replies (start + k)).next load
      requests = some (a :: b :: more, false, behind) := by
    intro k
    obtain ⟨a', b', more, behind, rest', next, queue'⟩ :=
      leading (start + k) (Nat.le_add_right start k)
    rw [constant k] at queue'
    simp only [List.cons.injEq] at queue'
    rw [queue'.1, queue'.2.1]
    exact ⟨more, behind, next⟩
  refine ⟨a, b, fun k => ⟨portions k, ?_⟩⟩
  induction k with
  | zero => simp
  | succ k ih =>
    obtain ⟨more, behind, next⟩ := portions k
    obtain ⟨sizer, -⟩ := (Batch.turn_stalled load requests
      (stalled (start + k) (Nat.le_add_right start k))).2 a b more behind next
    obtain ⟨allowance, cost⟩ := ih
    rw [← Nat.add_assoc, stateAfter_succ, sizer]
    refine ⟨by rw [Sizer.doubled_allowance, allowance], ?_⟩
    rw [Sizer.doubled_cost _ _ (by simp [ids]), Sizer.doubled_cost _ _ (by simp [ids]),
      ← mul_add, cost, pow_succ]
    ring

/-- Asking in portions makes finitely many engine calls in every run in which the engine
is silent only about portions that cost something. -/
theorem portions_drain
    (priced : ∀ n, (stateAfter load requests replies n).Priced load requests (replies n)) :
    ∃ n, (stateAfter load requests replies n).drained = true := by
  by_contra busy
  push Not at busy
  obtain ⟨start, stalled⟩ := eventually_stalled load requests replies busy
  obtain ⟨a, b, run⟩ := stalled_cost load requests replies stalled
  -- At the start the two cost something, and doubling takes them over the allowance.
  have positive : 0 < (stateAfter load requests replies start).sizer.cost load a.1 +
      (stateAfter load requests replies start).sizer.cost load b.1 := by
    obtain ⟨⟨more, behind, next⟩, -⟩ := run 0
    exact priced start (stalled start le_rfl).1 a b more false behind next
  obtain ⟨k, exceeded⟩ := pow_unbounded_of_one_lt
    ((stateAfter load requests replies start).sizer.allowance /
      ((stateAfter load requests replies start).sizer.cost load a.1 +
        (stateAfter load requests replies start).sizer.cost load b.1)) (one_lt_two (α := ℚ))
  obtain ⟨⟨more, behind, next⟩, allowance, cost⟩ := run k
  have within : (stateAfter load requests replies (start + k)).sizer.cost load a.1 +
      (stateAfter load requests replies (start + k)).sizer.cost load b.1 ≤
        (stateAfter load requests replies (start + k)).sizer.allowance := by
    have filled := stateAfter_filled load requests replies (start + k)
    obtain ⟨chunk, pending, a', b', more', queue, portion, behind', next', -⟩ :=
      (stalled (start + k) (Nat.le_add_right start k)).portion
    rw [next] at next'
    simp only [Option.some.injEq, Prod.mk.injEq, List.cons.injEq] at next'
    rw [next'.1.1, next'.1.2.1]
    exact Sizer.fit_pair load _ (filled chunk (queue ▸ mem_cons_self))
      (fun c member => filled c (queue ▸ mem_cons_of_mem _ member)) portion
  rw [cost, allowance] at within
  rw [div_lt_iff₀ positive] at exceeded
  linarith

end

def plainLoad : Workload := ⟨fun _ => none, fun _ => none⟩

def failsOnce : Nat → Reply Unit
  | 0 => ⟨none, 5⟩
  | _ + 1 => ⟨some ⟨[("a", ()), ("b", ())], none, []⟩, 30⟩

theorem portions_drain_after_failure :
    ∃ n, (stateAfter plainLoad [("a", ()), ("b", ())] failsOnce n).drained = true := by
  apply portions_drain
  intro n
  cases n with
  | zero =>
    intro _ a b more alone behind next
    have first : (stateAfter plainLoad [("a", ()), ("b", ())] failsOnce 0).sizer = {} := rfl
    have load (rid : String) : ({} : Sizer).cost plainLoad rid = portionPrior := by
      simp [Sizer.cost, Sizer.rate, Sizer.base, Sizer.known, plainLoad, Workload.weight]
    simp only [first, load]
    norm_num [portionPrior, portionTarget, portionFixed, maxSinkVisits]
  | succ n =>
    intro silent
    cases silent

def dies : Nat → Reply Unit
  | 0 => ⟨some ⟨[("a", ())], some (), [("a", 0)]⟩, 1⟩
  | _ + 1 => ⟨none, 5⟩

def fourRequests : Requests Unit := [("a", ()), ("b", ()), ("c", ()), ("d", ())]

private theorem fit_free {sizer : Sizer} (learned : sizer.learned = [("", ⟨0, 2⟩)])
    (a b : String × ρ) :
    sizer.fit plainLoad [a, b] [] = ([a, b], []) := by
  have free (rid : String) : sizer.cost plainLoad rid = 0 := by
    simp [Sizer.cost, Sizer.rate, Sizer.base, learned, plainLoad, Workload.family]
  have allowed : 0 ≤ sizer.allowance := by
    simp [Sizer.allowance, portionMinWork]
  rw [Sizer.fit_cons]
  simp [Sizer.takeFitting, Sizer.grow, free, not_lt.mpr allowed]

private theorem dies_next (n : Nat) :
    (stateAfter plainLoad fourRequests dies (n + 1)).queue = [[("c", ()), ("d", ())]] ∧
      (stateAfter plainLoad fourRequests dies (n + 1)).sizer.learned = [("", ⟨0, 2⟩)] := by
  induction n with
  | zero => decide +kernel
  | succ n ih =>
    obtain ⟨queue, learned⟩ := ih
    rcases Batch.next_cases plainLoad fourRequests (stateAfter plainLoad fourRequests dies (n + 1))
      with ⟨-, empty, -⟩ | ⟨_, _, _, empty, -⟩ | ⟨chunk, pending, behind, queue', next, left, -⟩
    · simp [queue] at empty
    · simp [queue] at empty
    rw [queue, List.cons.injEq] at queue'
    rw [← queue'.1, ← queue'.2, fit_free learned] at next left
    -- Two requests and no answer: the turn stalls.
    have stalled : (stateAfter plainLoad fourRequests dies (n + 1)).Stalled plainLoad fourRequests
        (dies (n + 1)) := ⟨rfl, _, _, _, behind, next⟩
    obtain ⟨sizer, -⟩ := (Batch.turn_stalled plainLoad fourRequests stalled).2 _ _ _ _ next
    rw [stateAfter_succ, sizer]
    refine ⟨?_, learned⟩
    rcases Batch.settle_cases plainLoad behind [("c", ()), ("d", ())] false (dies (n + 1)) with
      ⟨-, -, exceeded⟩ | ⟨-, -, -, -, queue'', -⟩ | ⟨_, _, _, -, -, answered, -⟩
    · simp [Batch.remainder, Reply.answers, dies] at exceeded
    · rw [Batch.turn, next]
      simp only [queue'', left]
      rfl
    · cases answered

/-- The two requests behind the killed one are asked again for ever. -/
theorem dies_never_drains :
    ¬ ∃ n, (stateAfter plainLoad fourRequests dies n).drained = true := by
  rintro ⟨n, drained⟩
  cases n with
  | zero => exact absurd drained (by decide)
  | succ n => simp [Batch.drained, (dies_next n).1] at drained

end OpenUltraSast.Model
