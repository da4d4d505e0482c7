import Mathlib.Data.Rat.Floor
import OpenUltraSast.Library.Collections

/-!
# Asking the engine in portions

One kind of question is cut into portions the engine can afford.
-/

namespace OpenUltraSast.Model

open Collections

variable {ρ σ : Type}

abbrev Requests (ρ : Type) := List (String × ρ)

def ids (requests : Requests ρ) : List String := requests.map (·.1)

/-- What the portions are sized by: sink visits (one where none is given) and family. -/
structure Workload where
  weights : String → Option Nat
  families : String → Option String

/-- `weights.get(rid, 1)`. -/
def Workload.weight (load : Workload) (rid : String) : Nat := (load.weights rid).getD 1

/-- `families.get(rid, "")`. -/
def Workload.family (load : Workload) (rid : String) : String := (load.families rid).getD ""

/-- `MAX_SINK_VISITS_PER_BATCH`. -/
def maxSinkVisits : Nat := 600

/-- The loop of `_sized_batches`: the chunk being filled and the visits it carries. -/
def sizedBatchesLoop (load : Workload) : Requests ρ → Requests ρ → Nat → List (Requests ρ)
  | [], [], _ => []
  | [], current, _ => [current]
  | (rid, request) :: rest, current, carried =>
    let weight := load.weight rid
    if current ≠ [] && carried + weight > maxSinkVisits then
      current :: sizedBatchesLoop load rest [(rid, request)] weight
    else sizedBatchesLoop load rest (current ++ [(rid, request)]) (carried + weight)

def sizedBatches (load : Workload) (requests : Requests ρ) : List (Requests ρ) :=
  sizedBatchesLoop load requests [] 0

/-- `PORTION_TARGET_SECONDS`. -/
def portionTarget : ℚ := 120

/-- `PORTION_FIXED_SECONDS`. -/
def portionFixed : ℚ := 70

/-- `PORTION_PRIOR_SECONDS_PER_VISIT`. -/
def portionPrior : ℚ := (portionTarget - portionFixed) / maxSinkVisits

/-- `PORTION_MIN_WORK_SECONDS`. -/
def portionMinWork : ℚ := 10

structure Learned where
  spent : ℚ
  visited : Nat
deriving DecidableEq

structure Sizer where
  fixed : ℚ := portionFixed
  fixedSeen : List ℚ := []
  learned : List (String × Learned) := []
  penalty : String → ℚ := fun _ => 1

namespace Sizer

variable (sizer : Sizer) (load : Workload)

def known : List ℚ :=
  (sizer.learned.filter (0 < ·.2.visited)).map fun entry => entry.2.spent / entry.2.visited

/-- Seconds per sink visit of a family: its own, else the dearest known, else the prior. -/
def base (family : String) : ℚ :=
  match sizer.learned.lookup family with
  | some learned =>
    if learned.visited ≠ 0 then learned.spent / learned.visited
    else sizer.known.foldl max portionPrior
  | none => sizer.known.foldl max portionPrior

def rate (family : String) : ℚ := sizer.base family * sizer.penalty family

def cost (rid : String) : ℚ := sizer.rate (load.family rid) * load.weight rid

def allowance : ℚ := max portionMinWork (portionTarget - sizer.fixed)

def takeFitting (carried : ℚ) : Requests ρ → Requests ρ × Requests ρ × ℚ
  | [] => ([], [], carried)
  | (rid, request) :: rest =>
    if carried + sizer.cost load rid > sizer.allowance then ([], (rid, request) :: rest, carried)
    else
      let (taken, left, carried) := takeFitting (carried + sizer.cost load rid) rest
      ((rid, request) :: taken, left, carried)

/-- The portion grown id by id from the chunks behind it. -/
def grow (kept : Requests ρ) (carried : ℚ) :
    List (Requests ρ) → Requests ρ × List (Requests ρ)
  | [] => (kept, [])
  | head :: pending =>
    let (taken, left, carried) := sizer.takeFitting load carried head
    if left ≠ [] then (kept ++ taken, left :: pending) else grow (kept ++ taken) carried pending

/-- `fit`: the portion, at least one request, and the chunks left behind it. -/
def fit (chunk : Requests ρ) (pending : List (Requests ρ)) : Requests ρ × List (Requests ρ) :=
  match chunk with
  | [] => sizer.grow load [] 0 pending
  | first :: others =>
    let (taken, left, carried) := sizer.takeFitting load (sizer.cost load first.1) others
    if left ≠ [] then (first :: taken, left :: pending)
    else sizer.grow load (first :: taken) carried pending

/-- `_learn`: negative seconds count as none. -/
def learn (rid : String) (seconds : ℚ) : Sizer :=
  let family := load.family rid
  let before := (sizer.learned.lookup family).getD ⟨0, 0⟩
  let entry : Learned := ⟨before.spent + max 0 seconds, before.visited + load.weight rid⟩
  { sizer with learned := (family, entry) :: sizer.learned.filter (·.1 ≠ family) }

def learnAll (seconds : String → ℚ) (rids : List String) : Sizer :=
  rids.foldl (fun sizer rid => sizer.learn load rid (seconds rid)) sizer

def median (seen : List ℚ) : ℚ := ((seen.insertionSort (· ≤ ·))[seen.length / 2]?).getD 0

/-- What the answered requests of a portion teach, and the seconds they explain. -/
def observeDone (chunk done : List String) (seconds : ℚ) (timing : String → Option ℚ) : Sizer × ℚ :=
  let whole := done.length = chunk.length
  if done = [] then (sizer, 0)
  else if done.all fun rid => (timing rid).isSome then
    let explained := (done.map fun rid => (timing rid).getD 0).sum
    let taught := sizer.learnAll load (fun rid => (timing rid).getD 0) done
    if whole then
      let seen := taught.fixedSeen ++ [max 0 (seconds - explained)]
      ({ taught with fixedSeen := seen, fixed := median seen }, explained)
    else (taught, explained)
  else
    -- No cost for each answer: the portion's work is spread in proportion to prediction.
    let predicted := (done.map (sizer.cost load)).sum
    let total := if predicted = 0 then 1 else predicted
    let work := max 0 (seconds - sizer.fixed)
    let share := fun rid => work * sizer.cost load rid / total
    let start := if whole && seconds < sizer.fixed then seconds else sizer.fixed
    ((({ sizer with fixed := start } : Sizer).learnAll load share done), work)

def observe (chunk : List String) (seconds : ℚ) (answered : String → Bool)
    (timing : String → Option ℚ) (culprit : Option String) : Sizer :=
  let done := chunk.filter answered
  let (taught, explained) := sizer.observeDone load chunk done seconds timing
  match culprit with
  | some rid =>
    -- It ran at least as long as nothing else accounts for.
    let reported := done.all fun rid => (timing rid).isSome
    taught.learn load rid (seconds - taught.fixed - if reported then explained else 0)
  | none =>
    if done = [] then
      { taught with penalty := fun family =>
          if family ∈ chunk.map load.family then taught.penalty family * 2
          else taught.penalty family }
    else taught

end Sizer

/-- What one engine call returns: rows by request id, the graph census and the streamed
costs in milliseconds, which ride under reserved keys. -/
structure Answer (σ : Type) where
  rows : List (String × σ)
  census : Option σ := none
  costs : List (String × ℚ) := []

structure Reply (σ : Type) where
  answer : Option (Answer σ)
  seconds : ℚ

def Reply.answers (reply : Reply σ) (rid : String) : Bool :=
  match reply.answer with
  | some answer => (answer.rows.lookup rid).isSome
  | none => false

/-- `_answer_timing`: seconds by request id; several costs of one id add up. -/
def Reply.timing (reply : Reply σ) (rid : String) : Option ℚ :=
  match reply.answer with
  | none => none
  | some answer =>
    let costs := answer.costs.filter (·.1 = rid)
    if costs = [] then none else some (costs.map (·.2 / 1000)).sum

/-- The queue of portions, the requests to be asked alone, and what came of the others. -/
structure Batch (ρ σ : Type) where
  queue : List (Requests ρ)
  isolated : List String := []
  sizer : Sizer := {}
  merged : List (String × σ) := []
  census : Option σ := none
  answeredAny : Bool := false
  tooExpensive : List (String × ℚ) := []

def Batch.start (load : Workload) (requests : Requests ρ) : Batch ρ σ :=
  { queue := sizedBatches load requests }

def Batch.drained (batch : Batch ρ σ) : Bool := batch.queue = [] ∧ batch.isolated = []

section
variable (load : Workload) (requests : Requests ρ)

def Batch.next (batch : Batch ρ σ) : Option (Requests ρ × Bool × Batch ρ σ) :=
  match batch.queue, batch.isolated with
  | chunk :: pending, _ =>
    let (kept, pending) := batch.sizer.fit load chunk pending
    some (kept, false, { batch with queue := pending })
  | [], rid :: isolated =>
    some (requests.filter (·.1 = rid), true, { batch with isolated := isolated })
  | [], [] => none

def roundTenth (seconds : ℚ) : ℚ :=
  let tenths := seconds * 10
  let floor := ⌊tenths⌋
  let up : Bool := tenths - floor > 1 / 2 || (tenths - floor = 1 / 2 && floor % 2 = 1)
  ((if up then floor + 1 else floor : ℤ) : ℚ) / 10

def Batch.settle (batch : Batch ρ σ) (chunk : Requests ρ) (alone : Bool) (reply : Reply σ) :
    Batch ρ σ :=
  let remainder := chunk.filter fun entry => !reply.answers entry.1
  -- A portion was killed when an engine that loaded answered only a part of it.
  let culprit := if reply.answer.isSome then (ids remainder).head? else none
  let given := (reply.answer.map (·.rows)).getD []
  let batch := { batch with
    merged := (given.filter fun entry => entry.1 ∈ ids chunk) ++ batch.merged
    census := batch.census <|> reply.answer.bind (·.census)
    answeredAny := batch.answeredAny || reply.answer.isSome
    sizer := batch.sizer.observe load (ids chunk) reply.seconds reply.answers reply.timing culprit }
  match remainder with
  | [] => batch
  | (rid, _) :: _ =>
    if alone || chunk.length = 1 then
      -- A single request is never asked again.
      if reply.seconds ≥ portionTarget then
        { batch with tooExpensive := batch.tooExpensive ++ [(rid, roundTenth reply.seconds)] }
      else batch
    else
      let rest := match culprit with
        | some culprit => remainder.filter (·.1 ≠ culprit)
        | none => remainder
      { batch with
        isolated := batch.isolated ++ culprit.toList
        queue := if rest ≠ [] then rest :: batch.queue else batch.queue }

def Batch.turn (batch : Batch ρ σ) (reply : Reply σ) : Batch ρ σ :=
  match batch.next load requests with
  | none => batch
  | some (chunk, alone, batch) => batch.settle load chunk alone reply

def stateAfter (replies : Nat → Reply σ) : Nat → Batch ρ σ
  | 0 => .start load requests
  | n + 1 => (stateAfter replies n).turn load requests (replies n)

def askedAt (replies : Nat → Reply σ) (n : Nat) : List String :=
  match (stateAfter load requests replies n).next load requests with
  | none => []
  | some (chunk, _, _) => ids chunk

def Batch.left (batch : Batch ρ σ) : List String :=
  ids batch.queue.flatten ++ batch.isolated

/-- What `_batched` returns after some turns, with the ids it reports as unasked. -/
def result (replies : Nat → Reply σ) (turns : Nat) : Option (List (String × σ)) × List String :=
  let batch := stateAfter load requests replies turns
  (if batch.answeredAny then some batch.merged else none, batch.left)

end

end OpenUltraSast.Model
