import OpenUltraSast.Learn.Caller

/-!
# Running an experiment

Every unit in every arm, the repositories in the order of the looks and the arms of a unit in the
order of a coin.
-/

namespace OpenUltraSast.Learn.Experiments

open Collections Programs Floats

structure Arm where
  repeats : Nat := 1

structure Manifest (F : Type) where
  kind : String
  arms : List (String × Arm)
  seed : Int
  primary : Metric
  alpha : F
  looks : List (F × F)
  families : List String
  foldSeed : Int

/-- What a run reads and does not write: whether the registration check passes, the units file, the
folds of the memory and its examples, the program of an arm for a family, the candidate of an
example, and the callers. -/
structure Experiment (M C F : Type) where
  manifest : Manifest F
  registered : Bool
  units : List Folds.Unit
  folds : List Folds.Fold
  examples : List Examples.Example
  program : String → String → Option (Program M C)
  candidateOf : Examples.Example → Option C
  terms : String → Terms F

namespace Experiment

variable {M C F : Type} (e : Experiment M C F)

/-- `sorted(manifest.arms)`. -/
def armNames : List String := sortedSet (e.manifest.arms.map (·.1))

def repeats (arm : String) : Nat := ((e.manifest.arms.lookup arm).map (·.repeats)).getD 0

def checked : Bool :=
  e.registered && e.units.all (·.isUnder e.folds e.examples) &&
    e.armNames.all fun arm => e.manifest.families.all fun family => (e.program arm family).isSome

/-- `programs[name, family]`. -/
def programOf (arm family : String) : Option (Program M C) :=
  if family ∈ e.manifest.families then e.program arm family else none

def foldOf (unit : Folds.Unit) : Option Folds.Fold := e.folds.find? (·.name = unit.fold)

def candidate (unit : Folds.Unit) : Option C :=
  (Folds.indexed e.examples unit.unit).bind e.candidateOf

def order (random : Random) : List String := lookOrder random (e.units.map (·.group))

def walk (random : Random) : List Folds.Unit :=
  let rank := fun unit : Folds.Unit => (e.order random).idxOf unit.group
  e.units.insertionSort fun u v =>
    toLex (rank u, toLex (u.family, u.unit)) ≤ toLex (rank v, toLex (v.family, v.unit))

end Experiment

def salt (replicate : Nat) : String :=
  if replicate = 0 then "" else "r" ++ toString replicate ++ ":"

def count (counts : List (String × Nat)) (name : String) : List (String × Nat) :=
  Dicts.set counts name ((counts.lookup name).getD 0 + 1)

structure World (M F : Type) where
  responses : List (Key M × Entry) := []
  outcomes : List (OutcomeId × Outcome F) := []
  summary : Option (RunSummary F) := none

def World.rows {M F : Type} (world : World M F) : List (Outcome F) := world.outcomes.map (·.2)

def Outcome.id {F : Type} (o : Outcome F) : OutcomeId := ⟨o.arm, o.unit, o.replicate⟩

abbrev Clients (M : Type) := String → Call M → Reply → Prop

/-- The answers of a store and of some clients; the order of the rows is the store's. -/
def answers {M F : Type} [DecidableEq M] (clients : Clients M) :
    Answers (Request M F) Request.Answer (World M F)
  | .response key, reply, world, after => reply = world.responses.lookup key ∧ after = world
  | .complete caller call, reply, world, after => clients caller call reply ∧ after = world
  | .putResponse key entry, _, world, after =>
    after = { world with responses := Dicts.set world.responses key entry }
  | .outcomes, reply, world, after =>
    reply.Perm (world.outcomes.map (·.2)) ∧ after = world
  | .putOutcome outcome, _, world, after =>
    after = { world with outcomes := Dicts.set world.outcomes outcome.id outcome }
  | .putRun summary, _, world, after => after = { world with summary := some summary }

def respond {M F : Type} [DecidableEq M] (client : String → Call M → Reply) :
    (request : Request M F) → World M F → request.Answer × World M F
  | .response key, world => (world.responses.lookup key, world)
  | .complete caller call, world => (client caller call, world)
  | .putResponse key entry, world =>
    ((), { world with responses := Dicts.set world.responses key entry })
  | .outcomes, world => (world.outcomes.map (·.2), world)
  | .putOutcome outcome, world =>
    ((), { world with outcomes := Dicts.set world.outcomes outcome.id outcome })
  | .putRun summary, world => ((), { world with summary := some summary })

theorem answers_respond {M F : Type} [DecidableEq M] {clients : Clients M}
    {client : String → Call M → Reply} (may : ∀ caller call, clients caller call (client caller call))
    (request : Request M F) (world : World M F) :
    answers clients request (respond client request world).1 world
      (respond client request world).2 := by
  cases request with
  | complete caller call => exact ⟨may caller call, rfl⟩
  | response key => exact ⟨rfl, rfl⟩
  | outcomes => exact ⟨List.Perm.refl _, rfl⟩
  | putResponse key entry => rfl
  | putOutcome outcome => rfl
  | putRun summary => rfl

section Run
variable {M C F : Type} [DecidableEq M] [Floats F]
variable (round6 : F → F) (parse : String → List Nat → Option (Answer F))
variable (e : Experiment M C F)

def usd (name : String) (session : Session M) : Option F :=
  ((e.terms name).price (session.callers name).usage).map round6

def costOf (before after : Option F) : Option F :=
  after.map fun usd => round6 (usd - before.getD (ofNat 0))

def outcomeOf (unit : Folds.Unit) (arm : String) (replicate position : Nat) (decision : Decision F)
    (usd : Option F) : Outcome F :=
  { unit := unit.unit, group := unit.group, family := unit.family, label := unit.label
    pair := unit.pair, arm, replicate, s := some decision.s, verdict := some decision.verdict, usd
    parseFailed := decision.parseFailed, order := position }

def decideUnit (unit : Folds.Unit) (arm : String) (replicate : Nat) : Running M F (Decision F) :=
  match e.candidate unit, e.programOf arm unit.family, e.foldOf unit with
  | some candidate, some program, some fold =>
    program.decide e.terms round6 parse candidate fold arm (salt replicate) e.manifest.foldSeed
  | _, _, _ => throw .raised

def runReplicate (unit : Folds.Unit) (arm : String) (position replicate : Nat) :
    Running M F Unit := do
  let session ← get
  let id : OutcomeId := ⟨arm, unit.unit, replicate⟩
  if id ∈ session.have_ then
    modify fun session => { session with skipped := count session.skipped arm }
  else
    let before := usd round6 e arm session
    let decision ← decideUnit round6 parse e unit arm replicate
    let after ← get
    let cost := costOf round6 before (usd round6 e arm after)
    ask (.putOutcome (outcomeOf unit arm replicate position decision cost))
    modify fun session => { session with
      have_ := session.have_ ++ [id], decided := count session.decided arm }

def runArm (unit : Folds.Unit) (arm : String) (position : Nat) : Running M F Unit :=
  (List.range (e.repeats arm)).forM (runReplicate round6 parse e unit arm position)

def ordered (first : Bool) : List String :=
  if first then e.armNames else e.armNames.reverse

def runUnit (unit : Folds.Unit) (first : Bool) : Running M F Unit :=
  (ordered e first).zipIdx.forM fun (arm, position) => runArm round6 parse e unit arm position

variable (random : Random) (resamples : Nat) (fixed3 : F → String)

def estimate (pairs : List (ArmUnit F × ArmUnit F)) : Estimate F :=
  pairedBootstrap random pairs e.manifest.primary resamples e.manifest.alpha

def looksOver (outcomes : List (Outcome F)) : List (Look F) :=
  sequentialLooks random (estimate e random resamples) e.manifest.looks (pairedUnits outcomes)

/-- The reason of a stop, which a look without a `z` cannot be formatted in. -/
def stopReason (look : Look F) : Option String :=
  look.z.map fun z => "the first look crossed its boundary (z = " ++ fixed3 z ++ ")"

/-- The loop of `run` over the units with the number of their coin; `first` are the repositories of
the first look until it is taken, and the reason of a stop is returned. -/
def runUnits : List (Folds.Unit × Nat) → List String → Running M F (Option String)
  | [], _ => return none
  | (unit, i) :: rest, first => do
    if first ≠ [] ∧ unit.group ∉ first then
      let outcomes ← ask .outcomes
      match (looksOver e random resamples outcomes).head?.filter (·.crossed) with
      | some look =>
        match stopReason fixed3 look with
        | some reason => return some reason
        | none => throw .unformatted
      | none =>
        runUnit round6 parse e unit (random.coin i)
        runUnits rest []
    else
      runUnit round6 parse e unit (random.coin i)
      runUnits rest first

def firstGroups : List String :=
  match e.manifest.looks with
  | (fraction, _) :: _ :: _ => firstLook fraction (e.order random)
  | _ => []

def summaryOf (session : Session M) (status : Status) (stoppedAt : Option Nat) (reason : String) :
    RunSummary F :=
  { status, units := e.units.length, decided := session.decided, skipped := session.skipped
    spend := e.armNames.map fun name =>
      (name, ⟨usd round6 e name session, (session.callers name).calls,
        (session.callers name).replayed⟩)
    stoppedAtLook := stoppedAt, reason }

def walkUnits (stopEarly : Bool) : Running M F (Status × Option Nat × String) :=
  tryCatch
    (do
      let first := if stopEarly then firstGroups e random else []
      match ← runUnits round6 parse e random resamples fixed3 (e.walk random).zipIdx first with
      | some reason => return (.stopped, some 1, reason)
      | none => return (.done, none, ""))
    fun
      | .exhausted reason => return (.unfinished, none, reason)
      | stop => throw stop

def run (stopEarly : Bool) : Running M F (RunSummary F) := do
  if e.manifest.kind ≠ "program" ∨ !e.checked then throw .raised
  let outcomes ← ask .outcomes
  modify fun session => { session with
    have_ := outcomes.map (·.id)
    decided := e.manifest.arms.map fun arm => (arm.1, 0)
    skipped := e.manifest.arms.map fun arm => (arm.1, 0) }
  let (status, stoppedAt, reason) ← walkUnits round6 parse e random resamples fixed3 stopEarly
  let session ← get
  let summary := summaryOf round6 e session status stoppedAt reason
  ask (.putRun summary)
  return summary

def runProgram (stopEarly : Bool) :
    Programs.Program (Request M F) Request.Answer (Except Stop (RunSummary F)) :=
  (run round6 parse e random resamples fixed3 stopEarly {}).bind fun result => .done result.1

end Run

end OpenUltraSast.Learn.Experiments
