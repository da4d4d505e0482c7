import Mathlib.Data.List.Basic

/-!
# Runs of a partial step function

A step takes an action in a state, or cannot. A run takes a list of actions, and a guard
says which actions are allowed in which states.
-/

namespace Runs

variable {σ α : Type} (step : α → σ → Option σ)

def run : List α → σ → Option σ
  | [], s => some s
  | action :: rest, s => (step action s).bind (run rest)

def Meets (guard : σ → α → Prop) : List α → σ → Prop
  | [], _ => True
  | action :: rest, s => guard s action ∧ ∀ next, step action s = some next → Meets guard rest next

def allowed (test : σ → α → Bool) : List α → σ → Bool
  | [], _ => true
  | action :: rest, s => test s action && (step action s).all (allowed test rest)

/-- A state some actions lead to from a state of a kind. -/
def Reachable (start : σ → Prop) (s : σ) : Prop :=
  ∃ first actions, start first ∧ run step actions first = some s

variable {step}

theorem run_append (l m : List α) (s : σ) : run step (l ++ m) s = (run step l s).bind (run step m) := by
  induction l generalizing s with
  | nil => rfl
  | cons action rest ih =>
    rw [List.cons_append, run, run, Option.bind_assoc]
    exact congrArg _ (funext ih)

variable {guard : σ → α → Prop} {actions : List α} {test : σ → α → Bool} {inv : σ → Prop}

/-- A test that passes at every step of a run is enough for a guard that follows from it and an
invariant. -/
theorem meets_of_tested
    (kept : ∀ s action next, inv s → test s action = true → step action s = some next → inv next)
    (enough : ∀ s action, inv s → test s action = true → guard s action) {s : σ}
    (holds : inv s) (tested : allowed step test actions s = true) : Meets step guard actions s := by
  induction actions generalizing s with
  | nil => trivial
  | cons action rest ih =>
    obtain ⟨first, later⟩ := Bool.and_eq_true_iff.mp tested
    refine ⟨enough s action holds first, fun next taken => ih (kept s action next holds first taken) ?_⟩
    rw [taken] at later
    exact later

theorem meets_of_allowed {s : σ}
    (enough : ∀ s action, test s action = true → guard s action)
    (tested : allowed step test actions s = true) : Meets step guard actions s :=
  meets_of_tested (fun _ _ _ _ _ _ => trivial) (fun s action _ => enough s action) trivial tested

/-- What each guarded step keeps, every run of guarded steps keeps. -/
theorem run_invariant
    (kept : ∀ s action next, inv s → guard s action → step action s = some next → inv next)
    {first last : σ} (holds : inv first) (meets : Meets step guard actions first)
    (ran : run step actions first = some last) : inv last := by
  induction actions generalizing first with
  | nil =>
    cases ran
    exact holds
  | cons action rest ih =>
    obtain ⟨next, taken, ran⟩ := Option.bind_eq_some_iff.mp ran
    exact ih (kept first action next holds meets.1 taken) (meets.2 next taken) ran

/-- What holds at the start and each step keeps, holds in every reachable state. -/
theorem reachable_invariant {start inv : σ → Prop} (first : ∀ s, start s → inv s)
    (kept : ∀ s action next, inv s → step action s = some next → inv next) {s : σ}
    (reached : Reachable step start s) : inv s := by
  obtain ⟨begin_, actions, starts, ran⟩ := reached
  have free : Meets step (fun _ _ => True) actions begin_ := by
    clear ran starts
    induction actions generalizing begin_ with
    | nil => trivial
    | cons action rest ih => exact ⟨trivial, fun next _ => ih next⟩
  exact run_invariant (fun s action next holds _ taken => kept s action next holds taken)
    (first begin_ starts) free ran

end Runs

/-!
## Passes until nothing changes

A step may change a state, and says whether it did. A pass takes a step for each item of a list, and
passes are repeated until one changes nothing.
-/

namespace Saturation

variable {σ α : Type}

def visits (step : α → σ → σ × Bool) : List α → σ → σ × Bool
  | [], s => (s, false)
  | item :: rest, s =>
    let (next, changed) := step item s
    let (last, more) := visits step rest next
    (last, changed || more)

def untilFixed (pass : σ → σ × Bool) : Nat → σ → Option σ
  | 0, _ => none
  | fuel + 1, s =>
    let (next, changed) := pass s
    if changed then untilFixed pass fuel next else some next

structure Shrinks (measure : σ → Nat) (step : σ → σ × Bool) : Prop where
  same : ∀ s, (step s).2 = false → (step s).1 = s
  less : ∀ s, (step s).2 = true → measure (step s).1 < measure s

section Visits
variable {step : α → σ → σ × Bool} {measure : σ → Nat} {items : List α}

theorem visits_keeps {inv : σ → Prop} (kept : ∀ item ∈ items, ∀ s, inv s → inv (step item s).1) {s : σ}
    (holds : inv s) : inv (visits step items s).1 := by
  induction items generalizing s with
  | nil => exact holds
  | cons item rest ih =>
    apply ih (fun other member => kept other (List.mem_cons_of_mem item member))
    exact kept item List.mem_cons_self s holds

/-- Visits shrink a measure where each of them does. -/
theorem visits_shrinks (shrinks : ∀ item ∈ items, Shrinks measure (step item)) :
    Shrinks measure (visits step items) := by
  induction items with
  | nil => exact ⟨fun _ _ => rfl, nofun⟩
  | cons item rest ih =>
    have first := shrinks item List.mem_cons_self
    have later := ih fun other member => shrinks other (List.mem_cons_of_mem item member)
    constructor
    · intro s still
      obtain ⟨here, after⟩ := Bool.or_eq_false_iff.mp still
      have kept : (step item s).1 = s := first.same s here
      have last := later.same _ after
      exact last.trans kept
    · intro s changed
      -- a part that changes nothing leaves the state, so the other part is measured from it
      cases here : (step item s).2 with
      | false =>
        have kept : (step item s).1 = s := first.same s here
        have more : (visits step rest (step item s).1).2 = true := by
          simpa [visits, here] using changed
        have less := later.less _ more
        rw [kept] at less
        simpa [visits, kept] using less
      | true =>
        have drop := first.less s here
        cases more : (visits step rest (step item s).1).2 with
        | false =>
          have kept := later.same _ more
          simpa [visits, kept] using drop
        | true => exact Nat.lt_trans (later.less _ more) drop

theorem visits_unchanged (shrinks : ∀ item ∈ items, Shrinks measure (step item)) {s : σ}
    (still : (visits step items s).2 = false) {item : α} (member : item ∈ items) :
    (step item s).2 = false := by
  induction items with
  | nil => cases member
  | cons first rest ih =>
    obtain ⟨here, after⟩ := Bool.or_eq_false_iff.mp still
    rcases List.mem_cons.mp member with rfl | later
    · exact here
    · have kept : (step first s).1 = s := (shrinks first List.mem_cons_self).same s here
      have rest_ : (visits step rest s).2 = false := by
        rw [← after, ← kept]
        simp only [kept]
      exact ih (fun other inside => shrinks other (List.mem_cons_of_mem first inside)) rest_ later

end Visits

/-- Passes that shrink a measure come to one that changes nothing. -/
theorem untilFixed_ends {pass : σ → σ × Bool} {measure : σ → Nat} (shrinks : Shrinks measure pass)
    (s : σ) : ∃ last, (∀ fuel, measure s < fuel → untilFixed pass fuel s = some last) ∧
      (pass last).2 = false ∧
        ∀ inv : σ → Prop, (∀ t, inv t → inv (pass t).1) → inv s → inv last := by
  induction bound : measure s using Nat.strongRecOn generalizing s with
  | ind n ih =>
    subst bound
    cases changed : (pass s).2 with
    | false =>
      have kept := shrinks.same s changed
      refine ⟨s, fun fuel enough => ?_, changed, fun _ _ holds => holds⟩
      cases fuel with
      | zero => omega
      | succ fuel => simp [untilFixed, changed, kept]
    | true =>
      have less := shrinks.less s changed
      obtain ⟨last, ran, fixed, keeps⟩ := ih _ less (pass s).1 rfl
      refine ⟨last, fun fuel enough => ?_, fixed, fun inv each holds => ?_⟩
      · cases fuel with
        | zero => omega
        | succ fuel =>
          simp only [untilFixed, changed, if_true]
          exact ran fuel (by omega)
      · exact keeps inv each (each s holds)

end Saturation
