import Mathlib.Algebra.BigOperators.Group.List.Basic
import Mathlib.Tactic.Linarith
import OpenUltraSast.Search.Board

/-!
# The spend budget

Callers share one budget. A caller reserves an upper bound before it spends, and settles the
reservation with what it spent, or releases it. Each call holds the lock of the budget, so the calls
of all callers happen one after the other.
-/

namespace OpenUltraSast.Plane.Budget

open List

/-- A number that a caller passes. A finite one is the decimal that its text names. -/
inductive Cost where
  | finite (value : ℚ)
  | infinite
  | notANumber
deriving DecidableEq

inductive Refusal where
  | notACost
  | spendExceedsCap
  /-- `BudgetExhausted`, with what is spent. -/
  | exhausted (usd : ℚ)
  | alreadyClosed
  | exceedsReservation
  /-- No caller holds such a reservation. -/
  | neverMade
deriving DecidableEq

/-- `SpendBudget._amount`. -/
def amountOf : Cost → Except Refusal ℚ
  | .finite value => if value < 0 then .error .notACost else .ok value
  | _ => .error .notACost

structure SpendReservation where
  amount : ℚ
  active : Bool := true
deriving DecidableEq

structure SpendBudget where
  cap : ℚ
  spent : ℚ
  reserved : ℚ := 0
  reservations : List SpendReservation := []
deriving DecidableEq

/-- `SpendBudget(cap, spent=spent)`. -/
def create (cap : Cost) (spent : Cost := .finite 0) : Except Refusal SpendBudget := do
  let cap ← amountOf cap
  let spent ← amountOf spent
  if spent > cap then throw .spendExceedsCap
  pure { cap, spent }

/-- A call under the lock. What it changed before it raises stays changed. -/
abbrev Action := ExceptT Refusal (StateM SpendBudget)

def Action.on (action : Action Unit) (budget : SpendBudget) : Except Refusal Unit × SpendBudget :=
  action.run.run budget

def reserve (maxCost : Cost) : Action Unit := do
  let amount ← MonadExcept.ofExcept (amountOf maxCost)
  let budget ← get
  if budget.spent + budget.reserved + amount > budget.cap then throw (.exhausted budget.spent)
  modify fun budget => { budget with reserved := budget.reserved + amount }
  modify fun budget => { budget with reservations := budget.reservations ++ [{ amount }] }

/-- `SpendReservation.settle` of the reservation that was made at a place. -/
def settle (index : Nat) (actual : Cost) : Action Unit := do
  let amount ← MonadExcept.ofExcept (amountOf actual)
  let budget ← get
  match budget.reservations[index]? with
  | none => throw .neverMade
  | some reservation =>
    if !reservation.active then throw .alreadyClosed
    if amount > reservation.amount then throw .exceedsReservation
    modify fun budget => { budget with reserved := budget.reserved - reservation.amount }
    modify fun budget => { budget with spent := budget.spent + amount }
    modify fun budget => { budget with
      reservations := budget.reservations.set index { reservation with active := false } }

def release (index : Nat) : Action Unit := settle index (.finite 0)

inductive Call where
  | reserve (maxCost : Cost)
  | settle (index : Nat) (actual : Cost)
  | release (index : Nat)
deriving DecidableEq

def Call.action : Call → Action Unit
  | reserve maxCost => Budget.reserve maxCost
  | settle index actual => Budget.settle index actual
  | release index => Budget.release index

def Call.perform (call : Call) (budget : SpendBudget) : Except Refusal Unit × SpendBudget :=
  call.action.on budget

/-- A call that was made, and how it ended. -/
structure Event where
  call : Call
  result : Except Refusal Unit

/-- The calls of all callers, in the order in which they get the lock. -/
def performAll : List Call → SpendBudget → List Event × SpendBudget
  | [], budget => ([], budget)
  | call :: rest, budget =>
    let (result, next) := call.perform budget
    let (events, last) := performAll rest next
    (⟨call, result⟩ :: events, last)

theorem perform_reserve (maxCost : Cost) (budget : SpendBudget) :
    (Call.reserve maxCost).perform budget =
      match amountOf maxCost with
      | .error refusal => (.error refusal, budget)
      | .ok amount =>
        if budget.spent + budget.reserved + amount > budget.cap then
          (.error (.exhausted budget.spent), budget)
        else
          (.ok (), { budget with
            reserved := budget.reserved + amount
            reservations := budget.reservations ++ [{ amount }] }) := by
  change (reserve maxCost).on budget = _
  unfold reserve
  cases amountOf maxCost with
  | error refusal => rfl
  | ok amount =>
    change Action.on (ite _ _ _) budget = ite _ _ _
    split <;> rfl

theorem perform_settle (index : Nat) (actual : Cost) (budget : SpendBudget) :
    (Call.settle index actual).perform budget =
      match amountOf actual, budget.reservations[index]? with
      | .error refusal, _ => (.error refusal, budget)
      | .ok _, none => (.error .neverMade, budget)
      | .ok amount, some reservation =>
        if !reservation.active then (.error .alreadyClosed, budget)
        else if amount > reservation.amount then (.error .exceedsReservation, budget)
        else
          (.ok (), { budget with
            reserved := budget.reserved - reservation.amount
            spent := budget.spent + amount
            reservations := budget.reservations.set index { reservation with active := false } }) := by
  change (settle index actual).on budget = _
  unfold settle
  cases amountOf actual with
  | error refusal => rfl
  | ok amount =>
    change Action.on (match budget.reservations[index]? with | none => _ | some _ => _) budget = _
    cases found : budget.reservations[index]? with
    | none => rfl
    | some reservation =>
      change Action.on (ite _ _ _) budget = ite _ _ _
      split
      next => rfl
      next =>
        change Action.on (ite _ _ _) budget = ite _ _ _
        split <;> rfl

theorem perform_release (index : Nat) (budget : SpendBudget) :
    (Call.release index).perform budget = (Call.settle index (.finite 0)).perform budget := rfl

inductive Effect (budget : SpendBudget) : Call → Except Refusal Unit × SpendBudget → Prop where
  | raises (call : Call) (refusal : Refusal) : Effect budget call (.error refusal, budget)
  | opens (amount : ℚ) (room : budget.spent + budget.reserved + amount ≤ budget.cap) :
      Effect budget (.reserve (.finite amount)) (.ok (), { budget with
        reserved := budget.reserved + amount
        reservations := budget.reservations ++ [{ amount }] })
  | closes (call : Call) (index : Nat) (amount : ℚ) (reservation : SpendReservation)
      (closing : call = .settle index (.finite amount) ∨ call = .release index ∧ amount = 0)
      (held : budget.reservations[index]? = some reservation) (active : reservation.active = true)
      (within : amount ≤ reservation.amount) :
      Effect budget call (.ok (), { budget with
        reserved := budget.reserved - reservation.amount
        spent := budget.spent + amount
        reservations := budget.reservations.set index { reservation with active := false } })

theorem amountOf_eq_ok {cost : Cost} {amount : ℚ} (valued : amountOf cost = .ok amount) :
    cost = .finite amount ∧ 0 ≤ amount := by
  cases cost with
  | finite value =>
    rw [amountOf] at valued
    split at valued
    next => cases valued
    next nonneg =>
      cases valued
      exact ⟨rfl, not_lt.mp nonneg⟩
  | infinite => cases valued
  | notANumber => cases valued

theorem effect_settle (index : Nat) (actual : Cost) (budget : SpendBudget) (call : Call)
    (same : call = .settle index actual ∨ call = .release index ∧ actual = .finite 0) :
    Effect budget call ((Call.settle index actual).perform budget) := by
  rw [perform_settle]
  cases valued : amountOf actual with
  | error refusal => exact .raises call refusal
  | ok amount =>
    obtain ⟨rfl, -⟩ := amountOf_eq_ok valued
    cases held : budget.reservations[index]? with
    | none => exact .raises call _
    | some reservation =>
      dsimp only
      split
      next => exact .raises call _
      next active =>
        split
        next => exact .raises call _
        next within =>
          refine .closes call index amount reservation ?_ held (by simpa using active)
            (not_lt.mp within)
          exact same.imp id fun ⟨released, nothing⟩ => ⟨released, Cost.finite.inj nothing⟩

/-- What one call does to a budget, refusals included. -/
theorem effect_perform (call : Call) (budget : SpendBudget) :
    Effect budget call (call.perform budget) := by
  cases call with
  | reserve maxCost =>
    rw [perform_reserve]
    cases valued : amountOf maxCost with
    | error refusal => exact .raises _ refusal
    | ok amount =>
      obtain ⟨rfl, -⟩ := amountOf_eq_ok valued
      dsimp only
      split
      next => exact .raises _ _
      next room => exact .opens amount (not_lt.mp room)
  | settle index actual => exact effect_settle index actual budget _ (.inl rfl)
  | release index =>
    rw [perform_release]
    exact effect_settle index _ budget _ (.inr ⟨rfl, rfl⟩)

def SpendBudget.meter (budget : SpendBudget) : Search.SpendBudget :=
  ⟨budget.cap, budget.spent, budget.reserved⟩

variable {budget : SpendBudget} {call : Call} {next : SpendBudget}

theorem Effect.meter (effect : Effect budget call (.ok (), next)) :
    (∃ amount, budget.meter.reserve amount = some next.meter) ∨
      ∃ reservation ∈ budget.reservations, ∃ amount,
        budget.meter.settle reservation.amount amount = some next.meter := by
  cases effect with
  | opens amount room => exact .inl ⟨amount, if_neg (not_lt.mpr room)⟩
  | closes _ index amount reservation closing held active within =>
    exact .inr ⟨reservation, mem_of_getElem? held, amount, if_neg (not_lt.mpr within)⟩

def activeTotal (reservations : List SpendReservation) : ℚ :=
  ((reservations.filter (·.active)).map (·.amount)).sum

structure Sound (budget : SpendBudget) : Prop where
  room : budget.spent + budget.reserved ≤ budget.cap
  reserved : budget.reserved = activeTotal budget.reservations

def Event.returned (event : Event) : Bool :=
  match event.result with
  | .ok _ => true
  | .error _ => false

def Event.settled (event : Event) : ℚ :=
  match event.call, event.result with
  | .settle _ (.finite amount), .ok _ => amount
  | _, _ => 0

/-- Whether a call closed the reservation that was made at a place. -/
def Event.closed (event : Event) (index : Nat) : Bool :=
  match event.call with
  | .reserve _ => false
  | .settle other _ => other = index && event.returned
  | .release other => other = index && event.returned

def SpendBudget.isClosed (budget : SpendBudget) (index : Nat) : Bool :=
  budget.reservations[index]?.any fun reservation => !reservation.active

private theorem activeTotal_set {reservations : List SpendReservation} {index : Nat}
    {reservation : SpendReservation} (held : reservations[index]? = some reservation)
    (active : reservation.active = true) :
    activeTotal (reservations.set index { reservation with active := false }) =
      activeTotal reservations - reservation.amount := by
  induction reservations generalizing index with
  | nil => cases held
  | cons first rest ih =>
    cases index with
    | zero =>
      cases held
      simp [activeTotal, active]
    | succ index =>
      have kept : rest[index]? = some reservation := held
      have later := ih kept
      unfold activeTotal at later ⊢
      rw [set_cons_succ, filter_cons, filter_cons]
      split
      · rw [map_cons, sum_cons, later, map_cons, sum_cons, add_sub_assoc]
      · exact later

variable {result : Except Refusal Unit}

/-- Each call keeps the budget sound. -/
theorem Effect.sound {budget next : SpendBudget}
    (effect : Effect budget call (result, next)) (sound : Sound budget) : Sound next := by
  cases effect with
  | raises => exact sound
  | opens amount room =>
    constructor
    · dsimp only
      linarith
    · simp [activeTotal, sound.reserved]
  | closes _ index amount reservation closing held active within =>
    constructor
    · have room := sound.room
      dsimp only
      linarith
    · dsimp only
      rw [activeTotal_set held active, sound.reserved]

theorem Effect.spent (effect : Effect budget call (result, next)) :
    next.spent = budget.spent + Event.settled ⟨call, result⟩ := by
  cases effect with
  | raises => cases call <;> simp [Event.settled]
  | opens => simp [Event.settled]
  | closes _ index amount reservation closing =>
    rcases closing with rfl | ⟨rfl, rfl⟩ <;> simp [Event.settled]

theorem Effect.cap (effect : Effect budget call (result, next)) : next.cap = budget.cap := by
  cases effect <;> rfl

theorem Effect.closed {budget next : SpendBudget}
    (effect : Effect budget call (result, next)) (index : Nat) :
    (budget.isClosed index = true → next.isClosed index = true) ∧
      (Event.closed ⟨call, result⟩ index = true →
        budget.isClosed index = false ∧ next.isClosed index = true) := by
  cases effect with
  | raises => cases call <;> simp [Event.closed, Event.returned]
  | opens amount =>
    refine ⟨fun closed => ?_, nofun⟩
    -- the new reservation stands behind those that were made before
    obtain ⟨reservation, held, inactive⟩ := (Option.any_eq_true _ _).mp closed
    have inside : index < budget.reservations.length := (List.getElem?_eq_some_iff.mp held).1
    rw [SpendBudget.isClosed, List.getElem?_append_left inside, held]
    exact inactive
  | closes _ place amount reservation closing held active =>
    have here : budget.isClosed place = false := by
      rw [SpendBudget.isClosed, held]
      simp [active]
    have after (index : Nat) : SpendBudget.isClosed { budget with
        reserved := budget.reserved - reservation.amount
        spent := budget.spent + amount
        reservations := budget.reservations.set place { reservation with active := false } } index =
          if place = index then true else budget.isClosed index := by
      rw [SpendBudget.isClosed, List.getElem?_set]
      split
      next =>
        rw [if_pos (List.getElem?_eq_some_iff.mp held).1]
        rfl
      next => rfl
    rw [after]
    constructor
    · intro closed
      rw [closed, ite_self]
    · intro closes
      have same : place = index := by
        rcases closing with rfl | ⟨rfl, rfl⟩ <;> simpa [Event.closed, Event.returned] using closes
      rw [if_pos same]
      exact ⟨same ▸ here, rfl⟩

/-- So do all calls in a row, and no reservation is closed twice. -/
theorem performAll_sound (calls : List Call) (sound : Sound budget) :
    Sound (performAll calls budget).2 ∧ (performAll calls budget).2.cap = budget.cap ∧
      (performAll calls budget).2.spent =
        budget.spent + ((performAll calls budget).1.map Event.settled).sum ∧
      ∀ index, (performAll calls budget).1.countP (·.closed index) ≤
        if budget.isClosed index then 0 else 1 := by
  induction calls generalizing budget with
  | nil => exact ⟨sound, rfl, by simp [performAll], fun index => by simp [performAll]⟩
  | cons call rest ih =>
    have effect := effect_perform call budget
    rw [performAll]
    generalize call.perform budget = performed at effect ⊢
    obtain ⟨result, next⟩ := performed
    obtain ⟨later, cap, spent, closings⟩ := ih (effect.sound sound)
    refine ⟨later, cap.trans effect.cap, ?_, fun index => ?_⟩
    · dsimp only
      rw [spent, effect.spent, map_cons, sum_cons, add_assoc]
    · have after := closings index
      obtain ⟨stays, closes⟩ := effect.closed index
      dsimp only
      rw [countP_cons]
      -- a reservation that this call closes is closed to the calls behind it
      by_cases closed : Event.closed ⟨call, result⟩ index = true
      · obtain ⟨wasOpen, isClosed⟩ := closes closed
        rw [if_pos isClosed] at after
        rw [if_pos closed, wasOpen, if_neg Bool.false_ne_true]
        omega
      · rw [if_neg closed, Nat.add_zero]
        by_cases before : budget.isClosed index = true
        · rw [if_pos (stays before)] at after
          rw [if_pos before]
          exact after
        · rw [if_neg before]
          split at after <;> omega

private theorem create_eq_ok {cap spent : Cost} (made : create cap spent = .ok budget) :
    cap = .finite budget.cap ∧ spent = .finite budget.spent ∧ Sound budget := by
  rw [create] at made
  cases capped : amountOf cap with
  | error => rw [capped] at made; cases made
  | ok bound =>
    cases begun : amountOf spent with
    | error => rw [capped, begun] at made; cases made
    | ok amount =>
      rw [capped, begun] at made
      change (if amount > bound then _ else _) = _ at made
      split at made
      next => cases made
      next within =>
        cases made
        refine ⟨(amountOf_eq_ok capped).1, (amountOf_eq_ok begun).1, ?_, rfl⟩
        exact (add_zero amount).trans_le (not_lt.mp within)

/-- In every run of calls on a budget the cap is kept to, what is reserved is the sum of the active
reservations, what is spent is the sum of what was settled, and no reservation is closed twice; and
a call that raises changes nothing. -/
theorem spending_stays_under_cap {cap spent : Cost} {budget : SpendBudget}
    (made : create cap spent = .ok budget) (calls : List Call) :
    ∃ events last, performAll calls budget = (events, last) ∧ cap = .finite last.cap ∧
      last.spent + last.reserved ≤ last.cap ∧ last.reserved = activeTotal last.reservations ∧
      spent = .finite budget.spent ∧ last.spent = budget.spent + (events.map Event.settled).sum ∧
      (∀ index, events.countP (·.closed index) ≤ 1) ∧
      ∀ (call : Call) (refusal : Refusal) (next : SpendBudget),
        call.perform last = (.error refusal, next) → next = last := by
  obtain ⟨capped, begun, sound⟩ := create_eq_ok made
  obtain ⟨after, same, spent, closings⟩ := performAll_sound calls sound
  refine ⟨_, _, rfl, by rw [same]; exact capped, after.room, after.reserved, begun, spent, ?_, ?_⟩
  · intro index
    have few := closings index
    split at few <;> omega
  · intro call refusal next raised
    have effect := effect_perform call (performAll calls budget).2
    rw [raised] at effect
    cases effect
    rfl

/-- A cap of one dollar: two reservations of half of it, one settled below it and one released. -/
theorem spending_stays_under_one :
    ∃ events last, performAll [.reserve (.finite (1 / 2)), .reserve (.finite (1 / 2)),
        .settle 0 (.finite (1 / 4)), .release 1, .release 1] ⟨1, 0, 0, []⟩ = (events, last) ∧
      last.spent = 1 / 4 ∧ last.spent + last.reserved ≤ last.cap := by
  have made : create (.finite 1) = .ok ⟨1, 0, 0, []⟩ := by decide
  obtain ⟨events, last, ran, -, room, -⟩ := spending_stays_under_cap made
    [.reserve (.finite (1 / 2)), .reserve (.finite (1 / 2)), .settle 0 (.finite (1 / 4)),
      .release 1, .release 1]
  refine ⟨events, last, ran, ?_, room⟩
  have spent := congrArg (·.2.spent) ran
  rw [← spent]
  norm_num [performAll, perform_reserve, perform_release, perform_settle, amountOf]

end OpenUltraSast.Plane.Budget
