import OpenUltraSast.Obligations.MonotoneSummaries

/-!
# The order in which merged sets are iterated

Where the sort keys tell apart what is merged, every order of the sets leads through the same tables,
with or without a budget.
-/

namespace OpenUltraSast.Obligations

open Collections Components Relation List Option

section
variable (edges : SymbolId → List SymbolId) (start : SummaryTable)

structure TellsApart (f : SymbolId) : Prop where
  operations : ∀ a b : Operation, Reached edges start f (.operation a) →
    Reached edges start f (.operation b) → a.sortKey = b.sortKey → a = b
  witnesses : ∀ a b : Discharge, Reached edges start f (.witness a) →
    Reached edges start f (.witness b) → a.sortKey = b.sortKey → a = b

def OnlyReached (f : SymbolId) (summary : FunctionSummary) : Prop :=
  (∀ operation ∈ summary.operations, Reached edges start f (.operation operation)) ∧
    ∀ witness ∈ summary.witnesses, Reached edges start f (.witness witness)

structure Within (table : SummaryTable) : Prop where
  domain : ∀ f, (table f).isSome = (start f).isSome
  keyed : ∀ f summary, table f = some summary → summary.symbol = f
  reached : ∀ f summary, table f = some summary → OnlyReached edges start f summary

end

variable {f : SymbolId}

section
variable {edges : SymbolId → List SymbolId} {start table : SummaryTable}

theorem Grown.within (grown : Grown edges start table) : Within edges start table where
  domain := grown.domain
  keyed := grown.keyed
  reached f summary found := by
    constructor
    · intro operation member
      exact grown.sound f _ (held_some found ▸ (mem_items_operation summary operation).mpr member)
    · intro witness member
      exact grown.sound f _ (held_some found ▸ (mem_items_witness summary witness).mpr member)

theorem OnlyReached.head {g : SymbolId} {summary : FunctionSummary} (call : Calls edges start f g)
    (reached : OnlyReached edges start g summary) : OnlyReached edges start f summary := by
  constructor
  · intro operation member
    obtain ⟨target, path, holds⟩ := reached.1 operation member
    exact ⟨target, .head call path, holds⟩
  · intro witness member
    obtain ⟨target, path, holds⟩ := reached.2 witness member
    exact ⟨target, .head call path, holds⟩

theorem OnlyReached.absorb {f : SymbolId} {summary callee : FunctionSummary}
    (own : OnlyReached edges start f summary) (theirs : OnlyReached edges start f callee)
    (order : MergeOrder) (n : Nat) :
    OnlyReached edges start f (absorb order n summary callee) := by
  constructor
  · intro operation member
    rcases (mem_mergeBy _ _ _ _ _ _).mp member with mine | other
    · exact own.1 operation mine
    · exact theirs.1 operation other
  · intro witness member
    rcases (mem_mergeBy _ _ _ _ _ _).mp member with mine | other
    · exact own.2 witness mine
    · exact theirs.2 witness other

theorem Within.callees (within : Within edges start table) {f : SymbolId} {fanOut : Option Nat} :
    ∀ callee ∈ (calleesFor f edges table fanOut).1,
      ∃ g, Calls edges start f g ∧ OnlyReached edges start f callee := by
  intro callee member
  have called : callee ∈ (edges f).filterMap table := by
    unfold calleesFor at member
    cases fanOut with
    | none => exact member
    | some bound => exact mem_of_mem_take member
  obtain ⟨g, edge, known⟩ := mem_filterMap.mp called
  have call : Calls edges start f g :=
    ⟨edge, (within.domain g).symm.trans (isSome_iff_exists.mpr ⟨callee, known⟩)⟩
  exact ⟨g, call, (within.reached g callee known).head call⟩

theorem OnlyReached.propagatedFrom {f : SymbolId} {callees : List FunctionSummary}
    (theirs : ∀ callee ∈ callees, OnlyReached edges start f callee) (order : MergeOrder) :
    ∀ (n : Nat) {summary : FunctionSummary}, OnlyReached edges start f summary →
      OnlyReached edges start f (propagatedFrom order n summary callees) := by
  induction callees with
  | nil => exact fun _ _ own => own
  | cons callee callees ih =>
    intro n summary own
    exact ih (fun other member => theirs other (mem_cons_of_mem _ member)) (n + 1)
      (own.absorb (theirs callee mem_cons_self) order n)

end

section
variable {edges : SymbolId → List SymbolId} {start table : SummaryTable} (order order' : MergeOrder)

theorem absorb_congr (apart : TellsApart edges start f) {summary callee : FunctionSummary}
    (own : OnlyReached edges start f summary) (theirs : OnlyReached edges start f callee) (n : Nat) :
    absorb order n summary callee = absorb order' n summary callee := by
  have operations : mergeOperations order.operations n summary.operations callee.operations =
      mergeOperations order'.operations n summary.operations callee.operations := by
    apply mergeBy_eq_mergeBy
    intro a ha b hb
    exact apart.operations a b ((mem_append.mp ha).elim (own.1 a) (theirs.1 a))
      ((mem_append.mp hb).elim (own.1 b) (theirs.1 b))
  have witnesses : mergeWitnesses order.witnesses n summary.witnesses callee.witnesses =
      mergeWitnesses order'.witnesses n summary.witnesses callee.witnesses := by
    apply mergeBy_eq_mergeBy
    intro a ha b hb
    exact apart.witnesses a b ((mem_append.mp ha).elim (own.2 a) (theirs.2 a))
      ((mem_append.mp hb).elim (own.2 b) (theirs.2 b))
  rw [absorb, absorb, operations, witnesses]

private theorem propagatedFrom_congr {callees : List FunctionSummary}
    (apart : callees ≠ [] → TellsApart edges start f)
    (theirs : ∀ callee ∈ callees, OnlyReached edges start f callee) :
    ∀ (n : Nat) {summary : FunctionSummary}, OnlyReached edges start f summary →
      propagatedFrom order n summary callees = propagatedFrom order' n summary callees := by
  induction callees with
  | nil => exact fun _ _ _ => rfl
  | cons callee callees ih =>
    intro n summary own
    have told := apart (cons_ne_nil _ _)
    have first := theirs callee mem_cons_self
    rw [propagatedFrom, propagatedFrom, absorb_congr order order' told own first n]
    exact ih (fun _ => told) (fun other member => theirs other (mem_cons_of_mem _ member))
      (n + 1) (own.absorb first order' n)

private theorem propagateMember_congr (within : Within edges start table)
    (apart : ∀ f, (∃ g, Calls edges start f g) → TellsApart edges start f) (budget : ExplorationBudget)
    {current : FunctionSummary} (found : table f = some current) :
    propagateMember order edges budget table current =
        propagateMember order' edges budget table current ∧
      OnlyReached edges start f (propagateMember order edges budget table current) ∧
      (propagateMember order edges budget table current).symbol = f := by
  have keyed := within.keyed f current found
  have own := within.reached f current found
  have callees := @Within.callees _ _ _ within f budget.fanOut
  have theirs : ∀ callee ∈ (calleesFor f edges table budget.fanOut).1,
      OnlyReached edges start f callee := fun callee member => (callees callee member).choose_spec.2
  have told : (calleesFor f edges table budget.fanOut).1 ≠ [] → TellsApart edges start f := by
    intro some_
    obtain ⟨callee, member⟩ := exists_mem_of_ne_nil _ some_
    obtain ⟨g, call, _⟩ := callees callee member
    exact apart f ⟨g, call⟩
  have same := propagatedFrom_congr order order' told theirs 0 own
  have reached := OnlyReached.propagatedFrom theirs order 0 own
  have symbol := (propagatedFrom_identity order 0 current
    (calleesFor f edges table budget.fanOut).1).1
  unfold propagateMember propagated
  rw [keyed]
  revert same reached symbol
  rcases calleesFor f edges table budget.fanOut with ⟨callees, truncated⟩
  rintro same reached symbol
  rw [keyed] at symbol
  cases truncated with
  | false => exact ⟨same, reached, symbol⟩
  | true => exact ⟨congrArg (·.cutOff "summaries:fan_out_cutoff") same, reached, symbol⟩

theorem Within.update (within : Within edges start table) {summary : FunctionSummary}
    (known : (table f).isSome = true) (keyed : summary.symbol = f)
    (reached : OnlyReached edges start f summary) :
    Within edges start (Function.update table f (some summary)) where
  domain g := by
    by_cases same : g = f
    · rw [same, Function.update_self, ← within.domain f, known]
      rfl
    · rw [Function.update_of_ne same, within.domain g]
  keyed g other found := by
    by_cases same : g = f
    · rw [same, Function.update_self, Option.some.injEq] at found
      rw [← found, same, keyed]
    · rw [Function.update_of_ne same] at found
      exact within.keyed g other found
  reached g other found := by
    by_cases same : g = f
    · rw [same, Function.update_self, Option.some.injEq] at found
      rw [same, ← found]
      exact reached
    · rw [Function.update_of_ne same] at found
      exact within.reached g other found

/-- A round does not depend on the merge order where no two items tie. -/
theorem propagateRound_congr (apart : ∀ f, (∃ g, Calls edges start f g) → TellsApart edges start f)
    (budget : ExplorationBudget) (members : List SymbolId) (within : Within edges start table) :
    propagateRound order edges budget members table =
        propagateRound order' edges budget members table ∧
      Within edges start (propagateRound order edges budget members table).1 := by
  induction members generalizing table with
  | nil => exact ⟨rfl, within⟩
  | cons member members ih =>
    unfold propagateRound
    cases found : table member with
    | none => exact ih within
    | some current =>
      obtain ⟨same, reached, keyed⟩ := propagateMember_congr order order' within apart budget found
      dsimp only
      rw [← same]
      split
      next =>
        obtain ⟨rest, kept⟩ := ih (within.update (found ▸ rfl) keyed reached)
        exact ⟨by rw [rest], kept⟩
      next => exact ih within

theorem Within.applyCutoffReason (within : Within edges start table) (members : List SymbolId)
    (reason : String) : Within edges start (applyCutoffReason members reason table) where
  domain f := by
    unfold Obligations.applyCutoffReason
    split
    · rw [isSome_map, within.domain]
    · exact within.domain f
  keyed f summary found := by
    unfold Obligations.applyCutoffReason at found
    split at found
    · obtain ⟨own, held, rfl⟩ := map_eq_some_iff.mp found
      exact within.keyed f own held
    · exact within.keyed f summary found
  reached f summary found := by
    unfold Obligations.applyCutoffReason at found
    split at found
    · obtain ⟨own, held, rfl⟩ := map_eq_some_iff.mp found
      exact within.reached f own held
    · exact within.reached f summary found

section
variable (apart : ∀ f, (∃ g, Calls edges start f g) → TellsApart edges start f)
include apart

private theorem stabiliseLoop_congr
    (budget : ExplorationBudget) (members : List SymbolId) (fuel rounds : Nat)
    (within : Within edges start table) :
    stabiliseLoop order edges budget members fuel rounds table =
        stabiliseLoop order' edges budget members fuel rounds table ∧
      ∀ result, stabiliseLoop order edges budget members fuel rounds table = some result →
        Within edges start result := by
  induction fuel generalizing rounds table with
  | zero => exact ⟨rfl, nofun⟩
  | succ fuel ih =>
    obtain ⟨same, kept⟩ := propagateRound_congr order order' apart budget members within
    unfold stabiliseLoop
    rw [← same]
    split
    next =>
      refine ⟨rfl, fun result is => ?_⟩
      cases is
      exact within.applyCutoffReason members _
    next =>
      revert kept
      rcases propagateRound order edges budget members table with ⟨next, changed⟩
      intro kept
      dsimp only
      split
      next =>
        refine ⟨rfl, fun result is => ?_⟩
        cases is
        exact kept
      next =>
        split
        next =>
          refine ⟨rfl, fun result is => ?_⟩
          cases is
          exact kept.applyCutoffReason members _
        next => exact ih (rounds + 1) kept

theorem stabiliseComponent_congr (budget : ExplorationBudget) (fuel : Nat) (members : List SymbolId)
    (within : Within edges start table) :
    stabiliseComponent order edges budget fuel members table =
        stabiliseComponent order' edges budget fuel members table ∧
      ∀ result, stabiliseComponent order edges budget fuel members table = some result →
        Within edges start result := by
  unfold stabiliseComponent
  split
  next =>
    refine ⟨rfl, fun result is => ?_⟩
    cases is
    exact within
  next => exact stabiliseLoop_congr order order' apart budget members fuel 0 within

private theorem stabiliseAll_congr
    (budget : ExplorationBudget) (fuel : Nat) (components : List (List SymbolId))
    (within : Within edges start table) :
    stabiliseAll order edges budget fuel components table =
      stabiliseAll order' edges budget fuel components table := by
  induction components generalizing table with
  | nil => rfl
  | cons component components ih =>
    obtain ⟨same, kept⟩ := stabiliseComponent_congr order order' apart budget fuel component within
    rw [stabiliseAll, stabiliseAll, ← same]
    cases first : stabiliseComponent order edges budget fuel component table with
    | none => rfl
    | some middle => exact ih (kept middle first)

end

end

namespace Program

variable {program : Program}

/-- The sort keys leave no ties in what is merged: at a function that calls another. -/
def NoTies (program : Program) : Prop :=
  ∀ f, (∃ g, Calls program.edges program.table f g) →
    TellsApart program.edges program.table f

/-- A run returns the same summaries in every order of the merged sets, with all fuel from some on. -/
def Unordered (program : Program) : Prop :=
  ∃ results, ∀ order, ∃ fuel, ∀ more, fuel ≤ more → program.summaries order more = some results

private theorem monotoneSummaries_congr (apart : program.NoTies) (order order' : MergeOrder)
    (budget : ExplorationBudget) (fuel : Nat) :
    monotoneSummaries order fuel program.functionsByModule program.index
        program.operationsBySymbol program.witnessesBySymbol budget =
      monotoneSummaries order' fuel program.functionsByModule program.index
        program.operationsBySymbol program.witnessesBySymbol budget :=
  have grown : Grown program.edges program.table program.table := grown_table
  congrArg (Option.map _)
    (stabiliseAll_congr order order' apart budget fuel program.components grown.within)

theorem TellsApart.mergesSettle (apart : TellsApart program.edges program.table f) (order : MergeOrder) :
    MergesSettle order program.edges program.table f where
  operations _ _ _ arranged sound subset := mergeBy_eq_left arranged
    (fun a ha b hb => apart.operations a b (sound a ha) (sound b hb)) subset
  witnesses _ _ _ arranged sound subset := mergeBy_eq_left arranged
    (fun a ha b hb => apart.witnesses a b (sound a ha) (sound b hb)) subset

theorem summaries_mono {order : MergeOrder} {fuel more : Nat} {results : List FunctionSummary}
    (enough : fuel ≤ more) (run : program.summaries order fuel = some results) :
    program.summaries order more = some results := by
  obtain ⟨table, stable, rfl⟩ := map_eq_some_iff.mp run
  exact map_eq_some_iff.mpr ⟨table, stabiliseAll_mono enough stable, rfl⟩

private theorem unordered_of_noTies (apart : program.NoTies) : program.Unordered := by
  obtain ⟨fuel, results, run⟩ := summaries_returns fun f call =>
    TellsApart.mergesSettle (apart f call) ⟨.insertion, .insertion⟩
  refine ⟨results, fun order => ⟨fuel, fun more enough => summaries_mono enough ?_⟩⟩
  exact (monotoneSummaries_congr apart order ⟨.insertion, .insertion⟩ .unbounded fuel).trans run

/-- Where the propagation returns for every order, no two items tie. -/
theorem noTies_of_returns
    (returns : ∀ order, ∃ fuel results, program.summaries order fuel = some results) :
    program.NoTies := by
  rintro f ⟨g, call⟩
  have known : (program.table f).isSome = true := by
    obtain ⟨summary, found, -⟩ := (mem_exactCallerEdges _ _ _).mp call.1
    exact isSome_iff_exists.mpr ⟨summary, found⟩
  constructor
  · intro a b ha hb tie
    by_contra ne
    obtain ⟨fuel, results, run⟩ := returns ⟨.alternating a b ne, .insertion⟩
    rw [summaries_eq_none ⟨.alternating a b ne, .insertion⟩ ne tie (fun _ _ _ => rfl) .operation
      mem_items_operation known call ha hb fuel] at run
    cases run
  · intro a b ha hb tie
    by_contra ne
    obtain ⟨fuel, results, run⟩ := returns ⟨.insertion, .alternating a b ne⟩
    rw [summaries_eq_none ⟨.insertion, .alternating a b ne⟩ ne tie (fun _ _ _ => rfl) .witness
      mem_items_witness known call ha hb fuel] at run
    cases run

/-- The summaries are the same in every order of the merged sets exactly when the sort keys leave no
ties in the evidence that is merged. -/
theorem summaries_unordered_iff (program : Program) : program.Unordered ↔ program.NoTies := by
  refine ⟨fun ⟨results, same⟩ => noTies_of_returns fun order => ?_, unordered_of_noTies⟩
  obtain ⟨fuel, run⟩ := same order
  exact ⟨fuel, results, run fuel le_rfl⟩

/-- The helper's two checks on one line are tied, and the handler merges them. -/
theorem twoChecks_not_unordered : ¬ twoChecks.Unordered := by
  rintro ⟨results, same⟩
  have apart : twoChecks.NoTies := noTies_of_returns fun order =>
    have ⟨fuel, run⟩ := same order
    ⟨fuel, results, run fuel le_rfl⟩
  have call : Calls twoChecks.edges twoChecks.table ⟨"a.py", none, "view", none⟩
      ⟨"a.py", none, "allowed", none⟩ := by
    constructor <;> decide
  have reached : ∀ detail ∈ ["owns", "may_edit"],
      Reached twoChecks.edges twoChecks.table ⟨"a.py", none, "view", none⟩
        (.witness (lineCheck detail)) := fun detail member =>
    ⟨⟨"a.py", none, "allowed", none⟩, .single call, by
      revert detail
      decide⟩
  have tied := (apart _ ⟨_, call⟩).witnesses _ _ (reached "owns" (by decide))
    (reached "may_edit" (by decide)) rfl
  exact absurd tied (by decide)

end Program

end OpenUltraSast.Obligations
