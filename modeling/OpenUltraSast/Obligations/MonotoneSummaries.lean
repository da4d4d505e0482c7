import OpenUltraSast.Obligations.SummaryClosure

/-!
# What `monotone_summaries` returns

The summaries of a program are the closure of its call graph, for every order in
which sets are iterated, exactly when the sort keys leave no ties in the evidence
that is merged; and no function's own evidence is lost exactly when functions that
share a symbol share their calls.
-/

namespace OpenUltraSast.Obligations

open Collections Components Relation List

theorem summaryTable_eq (summaries : List FunctionSummary) (table : SummaryTable) (f : SymbolId) :
    summaries.foldl (fun (table : SummaryTable) summary =>
        Function.update table summary.symbol (some summary)) table f =
      ((summaries.reverse.find? fun summary => summary.symbol = f).or (table f)) := by
  induction summaries generalizing table with
  | nil => simp
  | cons summary summaries ih =>
    rw [foldl_cons, ih, reverse_cons, List.find?_append]
    by_cases same : summary.symbol = f
    · subst same
      cases summaries.reverse.find? _ <;> simp
    · cases summaries.reverse.find? _ <;> simp [same, Function.update_of_ne (Ne.symm same)]

theorem summaryTable_apply (summaries : List FunctionSummary) (f : SymbolId) :
    summaryTable summaries f = summaries.reverse.find? fun summary => summary.symbol = f := by
  rw [summaryTable, summaryTable_eq]
  simp

variable {summary : FunctionSummary}

theorem of_summaryTable {summaries : List FunctionSummary} {f : SymbolId}
    (h : summaryTable summaries f = some summary) : summary ∈ summaries ∧ summary.symbol = f := by
  rw [summaryTable_apply] at h
  exact ⟨by simpa using mem_of_find?_eq_some h, by simpa using List.find?_some h⟩

theorem summaryTable_isSome (summaries : List FunctionSummary) (f : SymbolId) :
    (summaryTable summaries f).isSome = true ↔ ∃ summary ∈ summaries, summary.symbol = f := by
  rw [summaryTable_apply, List.find?_isSome]
  simp

theorem mem_summarySymbols (summaries : List FunctionSummary) (f : SymbolId) :
    f ∈ summarySymbols summaries ↔ (summaryTable summaries f).isSome = true := by
  rw [summaryTable_isSome, summarySymbols, mem_eraseDups, mem_map]

theorem summaryTable_of_nodup {summaries : List FunctionSummary}
    (distinct : (summaries.map (·.symbol)).Nodup) (member : summary ∈ summaries) :
    summaryTable summaries summary.symbol = some summary := by
  obtain ⟨found, known⟩ := Option.isSome_iff_exists.mp
    ((summaryTable_isSome summaries summary.symbol).mpr ⟨summary, member, rfl⟩)
  obtain ⟨member', same⟩ := of_summaryTable known
  rw [known, inj_on_of_nodup_map distinct member' member same]

theorem mem_exactCallerEdges (table : SummaryTable) (f g : SymbolId) :
    g ∈ exactCallerEdges table f ↔
      ∃ summary, table f = some summary ∧ ∃ call ∈ summary.calls, call.exactTarget = some g := by
  unfold exactCallerEdges
  cases table f with
  | none => simp
  | some summary => simp [mem_eraseDups, mem_filterMap]

/-- The arguments of `monotone_summaries`. -/
structure Program where
  functionsByModule : FunctionsByModule
  index : SymbolIndex
  operationsBySymbol : SymbolId → List Operation := fun _ => []
  witnessesBySymbol : SymbolId → List Discharge := fun _ => []

variable {order : MergeOrder}

namespace Program

variable (program : Program)

def locals : List FunctionSummary :=
  localSummaries program.functionsByModule program.index program.operationsBySymbol
    program.witnessesBySymbol

def summaries (order : MergeOrder) (fuel : Nat) : Option (List FunctionSummary) :=
  monotoneSummaries order fuel program.functionsByModule program.index
    program.operationsBySymbol program.witnessesBySymbol

def table : SummaryTable := summaryTable program.locals

def edges : SymbolId → List SymbolId := exactCallerEdges program.table

def components : List (List SymbolId) :=
  Components.components program.edges sortedSymbols (summarySymbols program.locals)

variable {program}

theorem grown_table : Grown program.edges program.table program.table :=
  .refl fun _ _ h => (of_summaryTable h).2

private theorem components_inside : ∀ component ∈ program.components, ∀ f ∈ component,
    f ∈ summarySymbols program.locals := fun component mem f member =>
  (mem_components program.edges mem_sortedSymbols _ f).mp ⟨component, mem, member⟩

/-- What a run that returns has computed: a table that holds every closure, reached through
components that were settled with their closures. -/
theorem summaries_spec {fuel : Nat} {results : List FunctionSummary}
    (h : program.summaries order fuel = some results) :
    ∃ table, Grown program.edges program.table table ∧
      (∀ f, (program.table f).isSome = true → ∀ x,
        x ∈ held table f ↔ Reached program.edges program.table f x) ∧
      results = program.locals.filterMap (fun summary => table summary.symbol) ∧
      ∀ f, (program.table f).isSome = true → ∃ members middle,
        f ∈ members ∧ Grown program.edges program.table middle ∧
          Settled order program.edges members middle ∧
          ∀ x, Reached program.edges program.table f x → x ∈ held middle f := by
  obtain ⟨table, stable, rfl⟩ := Option.map_eq_some_iff.mp h
  have domain := mem_summarySymbols program.locals
  obtain ⟨grown, all, each⟩ := stabiliseAll_spec domain []
    (components_calleeFirst program.edges mem_sortedSymbols (summarySymbols program.locals))
    components_inside (by simp) grown_table stable
  have cover : ∀ f, (program.table f).isSome = true →
      ∃ component ∈ program.components, f ∈ component := fun f known =>
    (mem_components program.edges mem_sortedSymbols _ f).mpr ((domain f).mpr known)
  refine ⟨table, grown, fun f known x => ⟨grown.sound f x, fun reached => ?_⟩, rfl,
    fun f known => ?_⟩
  · obtain ⟨component, mem, member⟩ := cover f known
    exact all component mem f member x reached
  · obtain ⟨component, mem, member⟩ := cover f known
    obtain ⟨middle, grown, settled, own⟩ := each component mem
    exact ⟨component, middle, member, grown, settled, own f member⟩

theorem summaries_returns (settle : ∀ f, (∃ callee, Calls program.edges program.table f callee) →
      MergesSettle order program.edges program.table f) :
    ∃ fuel results, program.summaries order fuel = some results := by
  obtain ⟨fuel, ends⟩ := stabiliseAll_returns (mem_summarySymbols program.locals) settle
    program.components grown_table
  obtain ⟨table, stable⟩ := Option.isSome_iff_exists.mp ends
  exact ⟨fuel, _, Option.map_eq_some_iff.mpr ⟨table, stable, rfl⟩⟩

theorem forall₂_results {table : SummaryTable} (grown : Grown program.edges program.table table) :
    List.Forall₂ (fun summary result => table summary.symbol = some result) program.locals
      (program.locals.filterMap fun summary => table summary.symbol) := by
  have known : ∀ summary ∈ program.locals, (table summary.symbol).isSome = true :=
    fun summary member => by
      rw [grown.domain]
      exact (summaryTable_isSome _ _).mpr ⟨summary, member, rfl⟩
  revert known
  generalize program.locals = locals
  intro known
  induction locals with
  | nil => exact .nil
  | cons summary locals ih =>
    obtain ⟨result, found⟩ := Option.isSome_iff_exists.mp (known summary mem_cons_self)
    simp only [filterMap_cons, found]
    exact .cons found (ih fun s member => known s (mem_cons_of_mem _ member))

end Program

/-- One function's complete single-target call of another. -/
def CallsExactly (locals : List FunctionSummary) (caller callee : FunctionSummary) : Prop :=
  callee ∈ locals ∧ ∃ call ∈ caller.calls, call.exactTarget = some callee.symbol

def Reaches (locals : List FunctionSummary) : FunctionSummary → FunctionSummary → Prop :=
  ReflTransGen (CallsExactly locals)

structure IsClosure (locals : List FunctionSummary) (summary result : FunctionSummary) : Prop where
  symbol : result.symbol = summary.symbol
  calls : result.calls = summary.calls
  operations : ∀ operation, operation ∈ result.operations ↔
    ∃ callee, Reaches locals summary callee ∧ operation ∈ callee.operations
  witnesses : ∀ witness, witness ∈ result.witnesses ↔
    ∃ callee, Reaches locals summary callee ∧ witness ∈ callee.witnesses
  reasons : ∀ reason, reason ∈ result.completeness.reasons ↔
    ∃ callee, Reaches locals summary callee ∧ reason ∈ callee.completeness.reasons
  complete : result.completeness.isComplete = true ↔
    ∀ callee, Reaches locals summary callee → callee.completeness.isComplete = true

namespace Program

variable {program : Program}

section
variable (distinct : (program.locals.map (·.symbol)).Nodup)
include distinct

section
variable (member : summary ∈ program.locals)
include member

theorem table_of_nodup : program.table summary.symbol = some summary :=
  summaryTable_of_nodup distinct member

theorem reaches_iff (g : SymbolId) :
    ReflTransGen (Calls program.edges program.table) summary.symbol g ↔
      ∃ callee ∈ program.locals, Reaches program.locals summary callee ∧ callee.symbol = g := by
  constructor
  · intro path
    induction path with
    | refl => exact ⟨summary, member, .refl, rfl⟩
    | tail _ call ih =>
      obtain ⟨caller, mem, path, rfl⟩ := ih
      obtain ⟨edge, known⟩ := call
      obtain ⟨callee, mem', rfl⟩ := (summaryTable_isSome _ _).mp known
      obtain ⟨summary', found, called⟩ := (mem_exactCallerEdges _ _ _).mp edge
      rw [table_of_nodup distinct mem, Option.some.injEq] at found
      exact ⟨callee, mem', .tail path ⟨mem', found ▸ called⟩, rfl⟩
  · rintro ⟨callee, -, path, rfl⟩
    have reached : ReflTransGen (Calls program.edges program.table) summary.symbol callee.symbol ∧
        callee ∈ program.locals := by
      induction path with
      | refl => exact ⟨.refl, member⟩
      | tail _ call ih =>
        obtain ⟨mem, called⟩ := call
        refine ⟨.tail ih.1 ⟨?_, ?_⟩, mem⟩
        · exact (mem_exactCallerEdges _ _ _).mpr ⟨_, table_of_nodup distinct ih.2, called⟩
        · exact (summaryTable_isSome _ _).mpr ⟨_, mem, rfl⟩
    exact reached.1

theorem reached_iff (x : EvidenceItem) :
    Reached program.edges program.table summary.symbol x ↔
      ∃ callee, Reaches program.locals summary callee ∧ x ∈ callee.items := by
  constructor
  · rintro ⟨g, path, holds⟩
    obtain ⟨callee, mem, reaches, rfl⟩ := (reaches_iff distinct member g).mp path
    exact ⟨callee, reaches, by rwa [held_some (table_of_nodup distinct mem)] at holds⟩
  · rintro ⟨callee, reaches, holds⟩
    have mem : callee ∈ program.locals := by
      cases reaches with
      | refl => exact member
      | tail _ call => exact call.1
    refine ⟨callee.symbol, (reaches_iff distinct member _).mpr ⟨callee, mem, reaches, rfl⟩, ?_⟩
    rwa [held_some (table_of_nodup distinct mem)]

end

private theorem closure_of_summaries {fuel : Nat}
    {results : List FunctionSummary} (h : program.summaries order fuel = some results) :
    List.Forall₂ (IsClosure program.locals) program.locals results := by
  obtain ⟨table, grown, closure, rfl, -⟩ := summaries_spec h
  have related := forall₂_results grown
  refine (forall₂_and_left _ _ |>.mpr ⟨fun summary member => member, related⟩).imp ?_
  rintro summary result ⟨member, found⟩
  have start := table_of_nodup distinct member
  have items : ∀ x, x ∈ result.items ↔
      ∃ callee, Reaches program.locals summary callee ∧ x ∈ callee.items := fun x => by
    rw [← reached_iff distinct member, ← held_some found]
    exact closure _ ((summaryTable_isSome _ _).mpr ⟨summary, member, rfl⟩) x
  refine ⟨grown.keyed _ _ found, grown.calls _ _ _ found start, fun o => ?_, fun w => ?_,
    fun r => ?_, ?_⟩
  · simpa using items (.operation o)
  · simpa using items (.witness w)
  · simpa using items (.reason r)
  · have incomplete := items .incomplete
    simp only [mem_items_incomplete] at incomplete
    rw [← not_iff_not, Bool.not_eq_true, incomplete]
    simp

end

end Program

structure KeysDecide (locals : List FunctionSummary) (caller : FunctionSummary) : Prop where
  operations : ∀ a b : Operation,
    (∃ callee, Reaches locals caller callee ∧ a ∈ callee.operations) →
    (∃ callee, Reaches locals caller callee ∧ b ∈ callee.operations) →
    a.sortKey = b.sortKey → a = b
  witnesses : ∀ a b : Discharge,
    (∃ callee, Reaches locals caller callee ∧ a ∈ callee.witnesses) →
    (∃ callee, Reaches locals caller callee ∧ b ∈ callee.witnesses) →
    a.sortKey = b.sortKey → a = b

theorem sublist_propagatedFrom {α κ : Type} [LinearOrder κ] [DecidableEq α] {key : α → κ}
    {get : FunctionSummary → List α} {a b : α} (ne : a ≠ b) (tie : key a = key b)
    (merges : ∀ n summary callee, get (absorb order n summary callee) =
      mergeBy key (.alternating a b ne) n (get summary) (get callee)) (n : Nat)
    (summary : FunctionSummary) (callees : List FunctionSummary) (ha : a ∈ get summary)
    (hb : b ∈ get summary) :
    [a, b].Sublist (get (propagatedFrom order n summary callees)) ↔
      if n = 0 ∧ callees ≠ [] then ¬ [a, b].Sublist (get summary)
      else [a, b].Sublist (get summary) := by
  induction callees generalizing n summary with
  | nil => simp [propagatedFrom]
  | cons callee callees ih =>
    have merged := sublist_mergeBy_alternating ne tie n (get callee) ha hb
    rw [← merges] at merged
    rw [propagatedFrom, ih (n + 1) (absorb order n summary callee)
      (by rw [merges, mem_mergeBy]; exact .inl ha) (by rw [merges, mem_mergeBy]; exact .inl hb)]
    simp [merged]

namespace Program

variable {program : Program}

theorem summaries_eq_none {α κ : Type} [LinearOrder κ] [DecidableEq α] {key : α → κ}
    (order : MergeOrder) {get : FunctionSummary → List α} {a b : α} (ne : a ≠ b)
    (tie : key a = key b)
    (merges : ∀ n summary callee, get (absorb order n summary callee) =
      mergeBy key (.alternating a b ne) n (get summary) (get callee))
    (item : α → EvidenceItem) (items : ∀ summary x, item x ∈ summary.items ↔ x ∈ get summary)
    {f g : SymbolId} (known : (program.table f).isSome = true)
    (call : Calls program.edges program.table f g)
    (ha : Reached program.edges program.table f (item a))
    (hb : Reached program.edges program.table f (item b)) (fuel : Nat) :
    program.summaries order fuel = none := by
  cases run : program.summaries order fuel with
  | none => rfl
  | some results =>
    exfalso
    obtain ⟨-, -, -, -, each⟩ := summaries_spec run
    obtain ⟨members, middle, member, grown, settled, closure⟩ := each f known
    have present := known
    rw [← grown.domain] at present
    obtain ⟨current, found⟩ := Option.isSome_iff_exists.mp present
    have here : ∀ x, Reached program.edges program.table f (item x) → x ∈ get current :=
      fun x reached => (items current x).mp (held_some found ▸ closure _ reached)
    -- had the run returned, the last round would have found the summary settled
    have fixed := settled f member current found
    rw [propagateMember_unbounded, grown.keyed f current found, propagated] at fixed
    have callees : (program.edges f).filterMap middle ≠ [] := by
      intro none
      rw [filterMap_eq_nil_iff] at none
      have := grown.domain g
      rw [none g call.1, call.2] at this
      simp at this
    -- but the alternating order puts the two tied elements the other way round
    have flipped := sublist_propagatedFrom ne tie merges 0 current
      ((program.edges f).filterMap middle) (here a ha) (here b hb)
    rw [fixed, if_pos ⟨rfl, callees⟩] at flipped
    tauto

variable {caller : FunctionSummary}

private theorem mergesSettle_of_keysDecide (distinct : (program.locals.map (·.symbol)).Nodup)
    (member : caller ∈ program.locals)
    (keys : KeysDecide program.locals caller) (order : MergeOrder) :
    MergesSettle order program.edges program.table caller.symbol where
  operations n left right arranged sound subset := by
    refine mergeBy_eq_left arranged (fun a ha b hb => keys.operations a b ?_ ?_) subset
    · simpa using (reached_iff distinct member _).mp (sound a ha)
    · simpa using (reached_iff distinct member _).mp (sound b hb)
  witnesses n left right arranged sound subset := by
    refine mergeBy_eq_left arranged (fun a ha b hb => keys.witnesses a b ?_ ?_) subset
    · simpa using (reached_iff distinct member _).mp (sound a ha)
    · simpa using (reached_iff distinct member _).mp (sound b hb)

/-- The summaries are the closure of the call graph in every order of set iteration. -/
def SummariesAreClosure (program : Program) : Prop :=
  ∀ order, ∃ fuel results, program.summaries order fuel = some results ∧
    List.Forall₂ (IsClosure program.locals) program.locals results

section
variable (distinct : (program.locals.map (·.symbol)).Nodup)
include distinct

theorem calls_iff (member : caller ∈ program.locals) (g : SymbolId) :
    Calls program.edges program.table caller.symbol g ↔
      ∃ callee, CallsExactly program.locals caller callee ∧ callee.symbol = g := by
  unfold Calls
  rw [edges, mem_exactCallerEdges, table, summaryTable_isSome]
  constructor
  · rintro ⟨⟨summary, found, called⟩, callee, mem, rfl⟩
    rw [summaryTable_of_nodup distinct member, Option.some.injEq] at found
    exact ⟨callee, ⟨mem, found ▸ called⟩, rfl⟩
  · rintro ⟨callee, ⟨mem, called⟩, rfl⟩
    exact ⟨⟨caller, summaryTable_of_nodup distinct member, called⟩, callee, mem, rfl⟩

private theorem summariesAreClosure_of_keysDecide
    (keys : ∀ caller ∈ program.locals, (∃ callee, CallsExactly program.locals caller callee) →
      KeysDecide program.locals caller) :
    program.SummariesAreClosure := by
  intro order
  have settle : ∀ f, (∃ g, Calls program.edges program.table f g) →
      MergesSettle order program.edges program.table f := by
    rintro f ⟨g, call⟩
    -- a function with a call edge has a local summary
    obtain ⟨caller, found, -⟩ := (mem_exactCallerEdges _ _ _).mp call.1
    obtain ⟨member, rfl⟩ := of_summaryTable found
    obtain ⟨callee, called, -⟩ := (calls_iff distinct member g).mp call
    exact mergesSettle_of_keysDecide distinct member (keys caller member ⟨callee, called⟩) order
  obtain ⟨fuel, results, run⟩ := summaries_returns settle
  exact ⟨fuel, results, run, closure_of_summaries distinct run⟩

theorem keysDecide_of_summariesAreClosure
    (closure : program.SummariesAreClosure) {caller callee : FunctionSummary}
    (member : caller ∈ program.locals) (call : CallsExactly program.locals caller callee) :
    KeysDecide program.locals caller := by
  have known : (program.table caller.symbol).isSome = true := by
    rw [table_of_nodup distinct member]
    rfl
  have called := (calls_iff distinct member callee.symbol).mpr ⟨callee, call, rfl⟩
  constructor
  · intro a b ha hb tie
    by_contra ne
    obtain ⟨fuel, results, run, -⟩ := closure ⟨.alternating a b ne, .insertion⟩
    have stuck := summaries_eq_none ⟨.alternating a b ne, .insertion⟩ ne tie
      (fun _ _ _ => rfl) .operation mem_items_operation known called
      ((reached_iff distinct member _).mpr (by simpa using ha))
      ((reached_iff distinct member _).mpr (by simpa using hb)) fuel
    rw [stuck] at run
    contradiction
  · intro a b ha hb tie
    by_contra ne
    obtain ⟨fuel, results, run, -⟩ := closure ⟨.insertion, .alternating a b ne⟩
    have stuck := summaries_eq_none ⟨.insertion, .alternating a b ne⟩ ne tie
      (fun _ _ _ => rfl) .witness mem_items_witness known called
      ((reached_iff distinct member _).mpr (by simpa using ha))
      ((reached_iff distinct member _).mpr (by simpa using hb)) fuel
    rw [stuck] at run
    contradiction

end

/-- For functions with distinct symbols, the summaries are the closure exactly when the sort
keys leave no ties in the evidence merged at a function that calls another. -/
theorem summaries_are_closure_iff_keys_decide
    (program : Program) (distinct : (program.locals.map (·.symbol)).Nodup) :
    program.SummariesAreClosure ↔
      ∀ caller ∈ program.locals, (∃ callee, CallsExactly program.locals caller callee) →
        KeysDecide program.locals caller :=
  ⟨fun closure _ member ⟨_, call⟩ => keysDecide_of_summariesAreClosure distinct closure member call,
    summariesAreClosure_of_keysDecide distinct⟩

def lineCheck (detail : String) : Discharge where
  path := "a.py"
  line := some 5
  function := "allowed"
  kind := .ownershipCheck
  factId := "ownership"
  provenance := .unknown
  scope := .statement
  detail := detail

def handlerCheck (function : String) (line : Nat) : Discharge :=
  { lineCheck "owns" with line := some line, function }

/-- `a.py` with a handler and its retry, which check ownership and call one another. -/
def recursiveHandler : Program where
  functionsByModule := [("a.py", [⟨"view", [], 1, 4, [{ name := "retry", line := 3 }], []⟩,
    ⟨"retry", [], 5, 8, [{ name := "view", line := 7 }], []⟩])]
  index := ⟨fun name => if name = "view" ∨ name = "retry" then [⟨"a.py", none, name, none⟩] else []⟩
  witnessesBySymbol := fun symbol =>
    if symbol.name = "view" then [handlerCheck "view" 2] else [handlerCheck "retry" 6]

theorem recursiveHandler_closure :
    (∀ caller ∈ recursiveHandler.locals, ∀ callee ∈ recursiveHandler.locals, caller ≠ callee →
      ∃ call ∈ caller.calls, call.exactTarget = some callee.symbol) ∧
      recursiveHandler.SummariesAreClosure := by
  refine ⟨by decide, (summaries_are_closure_iff_keys_decide recursiveHandler (by decide)).mpr ?_⟩
  have apart : ∀ f ∈ recursiveHandler.locals, f.operations = [] ∧
      ∀ g ∈ recursiveHandler.locals, ∀ a ∈ f.witnesses, ∀ b ∈ g.witnesses,
        a.sortKey = b.sortKey → a = b := by decide
  intro caller member _
  have inside : ∀ callee, Reaches recursiveHandler.locals caller callee →
      callee ∈ recursiveHandler.locals := by
    intro callee path
    cases path with
    | refl => exact member
    | tail _ call => exact call.1
  constructor
  · rintro a b ⟨callee, path, holds⟩
    rw [(apart callee (inside callee path)).1] at holds
    cases holds
  · rintro a b ⟨callee, path, holds⟩ ⟨callee', path', holds'⟩
    exact (apart callee (inside callee path)).2 callee' (inside callee' path') a holds b holds'

/-- `a.py` whose handler calls a helper with two checks of one fact on one line. -/
def twoChecks : Program where
  functionsByModule := [("a.py", [⟨"view", [], 1, 3, [{ name := "allowed", line := 2 }], []⟩,
    ⟨"allowed", [], 4, 6, [], []⟩])]
  index := ⟨fun name => if name = "view" ∨ name = "allowed" then [⟨"a.py", none, name, none⟩] else []⟩
  witnessesBySymbol := fun symbol =>
    if symbol.name = "allowed" then [lineCheck "owns", lineCheck "may_edit"] else []

/-- The two checks differ in their detail only, which the sort key leaves out. -/
theorem twoChecks_not_closure :
    (twoChecks.locals.map (·.symbol)).Nodup ∧ ¬ twoChecks.SummariesAreClosure := by
  refine ⟨by decide, fun closure => ?_⟩
  obtain ⟨caller, member, callee, member', called, owns, mayEdit⟩ :
      ∃ caller ∈ twoChecks.locals, ∃ callee ∈ twoChecks.locals,
        (∃ call ∈ caller.calls, call.exactTarget = some callee.symbol) ∧
          lineCheck "owns" ∈ callee.witnesses ∧ lineCheck "may_edit" ∈ callee.witnesses := by
    decide
  have call : CallsExactly twoChecks.locals caller callee := ⟨member', called⟩
  have keys := keysDecide_of_summariesAreClosure (by decide) closure member call
  have same := keys.witnesses (lineCheck "owns") (lineCheck "may_edit")
    ⟨callee, .single call, owns⟩ ⟨callee, .single call, mayEdit⟩ rfl
  exact absurd same (by decide)

end Program

end OpenUltraSast.Obligations
