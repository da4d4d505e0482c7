import OpenUltraSast.Plane.Memory
import OpenUltraSast.Library.Runs

/-!
# The runner of a task

The boots of the runner over one durable volume, which holds the completion marker and the output
directory.
-/

namespace OpenUltraSast.Plane.Runner

open Values Memory

abbrev Summary := List (String × Json)

/-- The completion marker; its status is the text of a value. -/
structure Marker where
  exit : Option Int
  status : Json
  delivered : Bool
  summary : Summary
  reason : Option String := none

/-- The marker's file: a write cuts it first, and then fills it. -/
inductive MarkerFile where
  | absent
  | damaged
  | whole (marker : Marker)

/-- `_read_marker`. -/
def MarkerFile.read : MarkerFile → Option Marker
  | whole marker => some marker
  | _ => none

def exitByStatus : List (String × Int) := [("done", 0), ("failed", 2), ("unfinished", 3)]

def failed (reason : String) (base : Option Summary) : Summary :=
  setField (setField (base.getD []) "status" (.str "failed")) "reason" (.str reason)

/-- `summary_after` where the directory has the summary `written`: the summary that it returns and
leaves there, or a `TypeError`. -/
def summaryAfter (repr : Json → String) (code : Int) (written : Option Summary) (name : String)
    (stderrTail : List String) : Option Summary :=
  let status := (written.map fun fields => Json.field fields "status").getD .null
  let known := exitByStatus.any fun entry => status.isStr entry.1
  if status.unhashable then none
  else if known && (code = 0 || !status.isStr "done") then written
  else
    let why := if status.isStr "done" then "reported done"
      else "wrote no valid summary.json (status " ++ repr status ++ ")"
    let reason := "task " ++ name ++ " exited with " ++ toString code ++ " and " ++ why
    let tail := if stderrTail = [] then "" else "; stderr tail:\n" ++ "\n".intercalate stderrTail
    some (setField (failed (reason ++ tail) written) "exit" (.int code))

inductive Phase where
  | down
  | refusing
  | armed (done : Option Marker)
  | retrying (done : Marker)
  | preparing
  | running
  | exited (code : Int)
  | finishing (exit : Option Int) (summary : Summary)
  | marking (marker : Marker)
  | writing (marker : Marker)
  | serving

/-- What a log of all boots says: the command is started, it exits by itself, its summary is
taken, and a tar with a summary lies at the delivery target. -/
inductive Event where
  | started
  | exited (code : Int)
  | produced (summary : Summary)
  | delivered (summary : Option Summary)

/-- The volume, and the boot that there is. `output` is what `read_summary` finds. -/
structure State where
  marker : MarkerFile := .absent
  output : Option Summary := none
  stop : Bool := false
  phase : Phase := .down
  log : List Event := []

/-- How `_deliver_output` ends; a failed delivery may have landed. -/
inductive Delivery where
  | nowhere
  | delivered
  | failed (cause : String) (landed : Bool)

inductive Action where
  | boot (prepared : Bool)
  | signal
  | request
  | quit
  | launch
  | fail (cause : String)
  | write (summary : Option Summary)
  | exit (code : Int)
  | interrupt
  | collect (stderrTail : List String)
  | overtake
  | restore
  | deliver (outcome : Delivery)
  | truncate
  | fill
  | kill (torn : Bool)

def booted (prepared : Bool) (file : MarkerFile) : Phase :=
  match prepared, file.read with
  | false, _ => .refusing
  | true, some done => if done.delivered then .refusing else .armed (some done)
  | true, none => .armed none

def requested (stop : Bool) : Phase → Phase
  | .armed (some done) => .retrying done
  | .armed none => if stop then .down else .preparing
  | phase => phase

def Phase.waits : Phase → Bool
  | armed _ => true
  | refusing => true
  | serving => true
  | _ => false

section Step
variable (repr : Json → String) (name : String)

/-- `_finish` up to the marker that it writes. -/
def finish (s : State) (exit : Option Int) (summary : Summary) : Delivery → State
  | .nowhere =>
    { s with phase := .marking ⟨exit, Json.field summary "status", false, summary, none⟩ }
  | .delivered =>
    { s with
      phase := .marking ⟨exit, Json.field summary "status", true, summary, none⟩
      log := s.log ++ [.delivered s.output] }
  | .failed cause landed =>
    let reason := "artifact delivery failed: " ++ cause
    { s with
      output := some (Runner.failed reason (some summary))
      phase := .marking ⟨exit, .str "failed", false, summary, some reason⟩
      log := if landed then s.log ++ [.delivered s.output] else s.log }

def step (action : Action) (s : State) : Option State :=
  match action, s.phase with
  | .boot prepared, .down => some { s with stop := false, phase := booted prepared s.marker }
  | _, .down => none
  | .kill torn, _ =>
    some { s with output := if torn then none else s.output, phase := .down }
  | .signal, _ => some { s with stop := true }
  -- A request that is not the first of a boot is refused.
  | .request, phase => some { s with phase := requested s.stop phase }
  | .quit, phase => if s.stop && phase.waits then some { s with phase := .down } else none
  | .launch, .preparing => some { s with phase := .running, log := s.log ++ [.started] }
  | .fail cause, .preparing =>
    let summary := failed ("runner failed: " ++ cause) s.output
    some { s with output := some summary, phase := .finishing none summary }
  | .write summary, .running => some { s with output := summary }
  | .exit code, .running => some { s with phase := .exited code, log := s.log ++ [.exited code] }
  | .interrupt, .running => if s.stop then some { s with phase := .down } else none
  | .collect stderrTail, .exited code =>
    match summaryAfter repr code s.output name stderrTail with
    | none => some { s with phase := .down }
    | some summary =>
      some { s with
        output := some summary
        phase := .finishing (some code) summary
        log := s.log ++ [.produced summary] }
  -- The command exits after the last `poll` and before `wait` sees the stop.
  | .overtake, .exited _ => if s.stop then some { s with phase := .down } else none
  | .restore, .retrying done =>
    some { s with output := some done.summary, phase := .finishing done.exit done.summary }
  | .deliver outcome, .finishing exit summary => some (finish s exit summary outcome)
  | .truncate, .marking marker => some { s with marker := .damaged, phase := .writing marker }
  | .fill, .writing marker => some { s with marker := .whole marker, phase := .serving }
  | _, _ => none

end Step

end OpenUltraSast.Plane.Runner

/-!
## A command completes at most once

Where no boot ends between the exit of the command and a whole completion marker, the command is
not started again, and what later boots deliver is the summary that its run produced.
-/

namespace OpenUltraSast.Plane.Runner

open Values List

variable {repr : Json → String} {name : String} {s : State}

/-- Nothing starts after an exit, and what is delivered after a summary was produced is that
summary. -/
def Once (log : List Event) : Prop :=
  log.Pairwise fun earlier later =>
    (∀ code, earlier = .exited code → later ≠ .started) ∧
    ∀ summary tar, earlier = .produced summary → later = .delivered tar → tar = some summary

def State.HasExited (s : State) : Prop := ∃ code, .exited code ∈ s.log

def State.HasMarker (s : State) : Prop := ∃ marker, s.marker = .whole marker

/-- A boot that the action ends leaves a whole marker, if the command has exited by itself. -/
def EndsWhole (repr : Json → String) (name : String) (s : State) (action : Action) : Prop :=
  ∀ next, step repr name action s = some next → next.phase = .down → s.HasExited → s.HasMarker

def State.Produces (s : State) (summary : Summary) : Prop :=
  ∀ other, .produced other ∈ s.log → other = summary

/-- What a phase says about the volume. -/
def Placed (s : State) : Prop :=
  match s.phase with
  | .armed none | .preparing | .running => ¬ s.HasMarker
  | .exited code => .exited code ∈ s.log ∧ ¬ s.HasMarker
  | .armed (some done) | .retrying done => s.marker = .whole done
  | .finishing _ summary => s.output = some summary
  | _ => True

/-- What a phase says once the command has exited by itself. -/
def Settled (s : State) : Prop :=
  match s.phase with
  | .preparing | .running => False
  | .exited _ => ∀ summary, .produced summary ∉ s.log
  | .finishing _ summary => s.Produces summary
  | .marking marker | .writing marker => s.Produces marker.summary
  | _ => s.HasMarker

structure Kept (s : State) : Prop where
  once : Once s.log
  placed : Placed s
  exited : ∀ summary, .produced summary ∈ s.log → s.HasExited
  settled : s.HasExited → Settled s
  marked : s.HasExited → ∀ marker, s.marker = .whole marker → s.Produces marker.summary

theorem once_append {log : List Event} {event : Event} (once : Once log)
    (starts : event = .started → ∀ code, .exited code ∉ log)
    (delivers : ∀ tar, event = .delivered tar → ∀ summary, .produced summary ∈ log →
      tar = some summary) : Once (log ++ [event]) := by
  unfold Once
  rw [pairwise_append]
  refine ⟨once, pairwise_singleton _ _, ?_⟩
  intro earlier member later single
  rw [mem_singleton] at single
  subst single
  constructor
  · rintro code rfl started
    exact starts started code member
  · rintro summary tar rfl delivered
    exact delivers tar delivered summary member

variable {output : Option Summary}

theorem kept_move (kept : Kept s) {stop : Bool} {phase : Phase}
    (placed : Placed { s with output, stop, phase })
    (settled : s.HasExited → Settled { s with output, stop, phase }) :
    Kept { s with output, stop, phase } :=
  ⟨kept.once, placed, kept.exited, settled, kept.marked⟩

theorem kept_down (kept : Kept s) (output : Option Summary)
    (whole : s.HasExited → s.HasMarker) : Kept { s with output, phase := .down } :=
  kept_move kept trivial whole

theorem hasExited_append {phase : Phase} {event : Event}
    (other : ∀ code, event ≠ .exited code) :
    State.HasExited { s with output, phase, log := s.log ++ [event] } ↔ s.HasExited := by
  constructor
  · rintro ⟨code, member⟩
    rcases mem_append.mp member with old | new
    · exact ⟨code, old⟩
    · exact absurd (mem_singleton.mp new).symm (other code)
  · rintro ⟨code, member⟩
    exact ⟨code, mem_append_left _ member⟩

private theorem booted_cases (prepared : Bool) (file : MarkerFile) :
    booted prepared file = .refusing ∨
      (∃ done, booted prepared file = .armed (some done) ∧ file = .whole done) ∨
      booted prepared file = .armed none ∧ ∀ done, file ≠ .whole done := by
  cases prepared with
  | false => exact Or.inl rfl
  | true =>
    cases file with
    | whole done =>
      by_cases delivered : done.delivered = true
      · exact Or.inl (if_pos delivered)
      · exact Or.inr (Or.inl ⟨done, if_neg delivered, rfl⟩)
    | _ => exact Or.inr (Or.inr ⟨rfl, nofun⟩)

section
variable (kept : Kept s)
include kept

private theorem kept_boot (prepared : Bool) (down : s.phase = .down) :
    Kept { s with stop := false, phase := booted prepared s.marker } := by
  have settled : s.HasExited → s.HasMarker := by
    intro exited
    have settled := kept.settled exited
    rw [Settled, down] at settled
    exact settled
  rcases booted_cases prepared s.marker with same | ⟨done, same, whole⟩ | ⟨same, none⟩
  · rw [same]
    exact kept_move kept trivial settled
  · rw [same]
    exact kept_move kept whole settled
  · rw [same]
    exact kept_move kept (fun ⟨done, whole⟩ => none done whole) settled

private theorem kept_request (whole : requested s.stop s.phase = .down → s.HasExited →
    s.HasMarker) : Kept { s with phase := requested s.stop s.phase } := by
  have ⟨_, placed, _, settled, _⟩ := kept
  cases phase : s.phase with
  | armed done =>
    rw [Placed, phase] at placed
    rw [Settled, phase] at settled
    cases done with
    | some marker => exact kept_move kept placed settled
    | none =>
      by_cases stop : s.stop = true
      · rw [requested, if_pos stop]
        exact kept_down kept s.output (whole (by rw [phase, requested, if_pos stop]))
      · rw [requested, if_neg stop]
        exact kept_move kept placed fun exited => placed (settled exited)
  | _ =>
    rw [requested, ← phase]
    exact kept
    all_goals exact nofun

private theorem kept_launch (preparing : s.phase = .preparing) :
    Kept { s with phase := .running, log := s.log ++ [.started] } := by
  have fresh : ¬ s.HasExited := by
    intro exited
    have settled := kept.settled exited
    rw [Settled, preparing] at settled
    exact settled
  have same : State.HasExited { s with phase := .running, log := s.log ++ [.started] } ↔
      s.HasExited := hasExited_append nofun
  have placed := kept.placed
  rw [Placed, preparing] at placed
  refine ⟨once_append kept.once (fun _ code member => fresh ⟨code, member⟩) nofun, placed, ?_,
    fun exited => absurd (same.mp exited) fresh, fun exited => absurd (same.mp exited) fresh⟩
  intro summary member
  apply same.mpr
  apply kept.exited summary
  simpa using member

private theorem kept_exit (running : s.phase = .running) (code : Int) :
    Kept { s with phase := .exited code, log := s.log ++ [.exited code] } := by
  have placed := kept.placed
  rw [Placed, running] at placed
  have quiet : ∀ summary, .produced summary ∉ s.log := by
    intro summary member
    have settled := kept.settled (kept.exited summary member)
    rw [Settled, running] at settled
    exact settled
  refine ⟨once_append kept.once nofun nofun, ⟨by simp, placed⟩, fun _ _ => ⟨code, by simp⟩, ?_,
    fun _ marker whole => absurd ⟨marker, whole⟩ placed⟩
  intro _ summary member
  apply quiet summary
  simpa using member

private theorem kept_collect {code : Int} (exited : s.phase = .exited code)
    (summary : Summary) :
    Kept { s with
      output := some summary
      phase := .finishing (some code) summary
      log := s.log ++ [.produced summary] } := by
  have placed := kept.placed
  rw [Placed, exited] at placed
  have settled := kept.settled ⟨code, placed.1⟩
  rw [Settled, exited] at settled
  refine ⟨once_append kept.once nofun nofun, rfl, fun _ _ => ⟨code, by simp [placed.1]⟩, ?_,
    fun _ marker whole => absurd ⟨marker, whole⟩ placed.2⟩
  intro _ other member
  rcases mem_append.mp member with old | new
  · exact absurd old (settled other)
  · exact Event.produced.inj (mem_singleton.mp new)

/-- After `_finish` comes its marker, and the tar that landed has the summary. -/
theorem kept_finish {exit : Option Int} {summary : Summary}
    (finishing : s.phase = .finishing exit summary) (outcome : Delivery) :
    Kept (finish s exit summary outcome) := by
  have placed := kept.placed
  rw [Placed, finishing] at placed
  have produces : s.HasExited → s.Produces summary := by
    intro exited
    have settled := kept.settled exited
    rw [Settled, finishing] at settled
    exact settled
  have lands (output : Option Summary) (marker : Marker) (same : marker.summary = summary) :
      Kept { s with output, phase := .marking marker, log := s.log ++ [.delivered s.output] } := by
    have exited : State.HasExited
        { s with output, phase := .marking marker, log := s.log ++ [.delivered s.output] } ↔
        s.HasExited := hasExited_append nofun
    have old {other : Summary} (member : .produced other ∈ s.log ++ [.delivered s.output]) :
        .produced other ∈ s.log := by simpa using member
    refine ⟨once_append kept.once nofun ?_, trivial,
      fun other member => exited.mpr (kept.exited other (old member)),
      fun after other member => same ▸ produces (exited.mp after) other (old member),
      fun after other whole p member => kept.marked (exited.mp after) other whole p (old member)⟩
    rintro tar ⟨⟩ other member
    rw [placed, produces (kept.exited other member) other member]
  cases outcome with
  | nowhere => exact kept_move kept trivial produces
  | delivered => exact lands s.output _ rfl
  | failed cause landed =>
    unfold finish
    cases landed with
    | true => exact lands _ _ rfl
    | false => exact kept_move kept trivial produces

/-- Each step keeps the events of a task once, unless it goes down before the whole marker. -/
theorem kept_step {action : Action} (ends : EndsWhole repr name s action)
    {next : State} (taken : step repr name action s = some next) : Kept next := by
  have ended := ends next taken
  have ⟨once, placed, exited, settled, marked⟩ := kept
  unfold step at taken
  split at taken
  -- a boot reads the marker that is there
  next down =>
    cases taken
    exact kept_boot kept _ down
  next => cases taken
  next =>
    cases taken
    -- killed, perhaps while the output was written
    exact kept_down kept _ (ended rfl)
  next =>
    cases taken
    exact kept_move kept placed settled
  next =>
    cases taken
    exact kept_request kept ended
  next =>
    split at taken <;> cases taken
    exact kept_down kept _ (ended rfl)
  -- the command is started
  next preparing =>
    cases taken
    exact kept_launch kept preparing
  -- the preparation failed, so no command has ended since the boot
  next preparing =>
    cases taken
    refine kept_move kept rfl fun after => ?_
    have never := settled after
    rw [Settled, preparing] at never
    exact never.elim
  next running =>
    cases taken
    rw [Placed, running] at placed
    refine kept_move kept ?_ fun after => ?_
    · rw [Placed, running]
      exact placed
    · have never := settled after
      rw [Settled, running] at never
      exact never.elim
  -- the command ends
  next code running =>
    cases taken
    exact kept_exit kept running code
  next running =>
    split at taken <;> cases taken
    exact kept_down kept _ (ended rfl)
  -- its result is collected, or there is none and the runner raises
  next code exited =>
    split at taken
    next =>
      cases taken
      exact kept_down kept _ (ended rfl)
    next summary _ =>
      cases taken
      exact kept_collect kept exited summary
  next =>
    split at taken <;> cases taken
    exact kept_down kept _ (ended rfl)
  -- the marker has the result of an earlier boot
  next done retrying =>
    cases taken
    rw [Placed, retrying] at placed
    exact kept_move kept rfl fun after => marked after done placed
  -- the result is delivered
  next exit summary finishing =>
    cases taken
    exact kept_finish kept finishing _
  -- the marker is written in two steps, and is damaged between them
  next marker marking =>
    cases taken
    refine ⟨once, trivial, exited, fun after => ?_, nofun⟩
    have produces := settled after
    rw [Settled, marking] at produces
    exact produces
  next marker writing =>
    cases taken
    refine ⟨once, trivial, exited, fun _ => ⟨marker, rfl⟩, ?_⟩
    rintro after other ⟨⟩
    have produces := settled after
    rw [Settled, writing] at produces
    exact produces
  next => cases taken

end

/-- A new volume: nothing is marked, whatever the output directory has. -/
def volume (output : Option Summary) : State := { output }

/-- In every sequence of boots in which no boot ends between the command's own exit and a whole
completion marker, the command is not started again after it, and every summary delivered after
its run is the one that the run produced. -/
theorem completes_once {output : Option Summary} {actions : List Action}
    (whole : Runs.Meets (step repr name) (EndsWhole repr name) actions (volume output))
    (ran : Runs.run (step repr name) actions (volume output) = some s) : Once s.log := by
  have start : Kept (volume output) := by
    refine ⟨List.Pairwise.nil, trivial, nofun, ?_, ?_⟩
    · rintro ⟨code, ⟨⟩⟩
    · rintro ⟨code, ⟨⟩⟩
  have last : Kept s := by
    apply Runs.run_invariant _ start whole ran
    exact fun _ _ _ kept ends taken => kept_step kept ends taken
  exact last.once

theorem meets_up {action : Action} {rest : List Action} {next : State}
    (taken : step repr name action s = some next) (up : next.phase ≠ .down)
    (later : Runs.Meets (step repr name) (EndsWhole repr name) rest next) :
    Runs.Meets (step repr name) (EndsWhole repr name) (action :: rest) s := by
  refine ⟨fun other same down => ?_, fun other same => ?_⟩
  all_goals
    rw [taken] at same
    cases same
  · exact absurd down up
  · exact later

def doneSummary : Summary := [("status", .str "done")]

def markedBoot : List Action :=
  [.boot true, .request, .launch, .write doneSummary, .exit 0, .collect [],
    .deliver (.failed "HTTP 404" false), .truncate, .fill, .kill false]

/-- The next boot delivers what the first one produced. -/
theorem completes_once_retried :
    Once [.started, .exited 0, .produced doneSummary, .delivered (some doneSummary)] := by
  let actions := markedBoot ++ [.boot true, .request, .restore, .deliver .delivered]
  have whole : Runs.Meets (step (fun _ => "") "facts") (EndsWhole (fun _ => "") "facts") actions
      (volume none) := by
    refine meets_up rfl nofun <| meets_up rfl nofun <| meets_up rfl nofun <|
      meets_up rfl nofun <| meets_up rfl nofun <| meets_up rfl nofun <| meets_up rfl nofun <|
      meets_up rfl nofun <| meets_up rfl nofun ?_
    -- The kill finds the marker whole.
    refine ⟨fun _ _ _ _ => ⟨_, rfl⟩, ?_⟩
    rintro _ ⟨⟩
    exact meets_up rfl nofun <| meets_up rfl nofun <| meets_up rfl nofun <|
      meets_up rfl nofun trivial
  exact completes_once whole rfl

/-- A kill between the exit of the command and its marker: the next boot starts it again. -/
theorem killed_before_marker :
    ∃ s, Runs.run (step (fun _ => "") "facts")
        [.boot true, .request, .launch, .write doneSummary, .exit 0, .kill false,
          .boot true, .request, .launch] (volume none) = some s ∧
      s.log = [.started, .exited 0, .started] ∧ ¬ Once s.log := by
  refine ⟨_, rfl, rfl, fun once => ?_⟩
  have later := (pairwise_cons.mp (pairwise_cons.mp once).2).1
  exact (later .started mem_cons_self).1 0 rfl rfl

end OpenUltraSast.Plane.Runner
