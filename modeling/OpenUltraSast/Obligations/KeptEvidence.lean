import OpenUltraSast.Obligations.MonotoneSummaries

/-!
# Evidence kept by `monotone_summaries`

The dictionary keeps one summary for each symbol, and calls to functions without a summary are passed
over.
-/

namespace OpenUltraSast.Obligations

open Collections Relation

section
variable (calls : List CallTargetSet)
include calls

private theorem foldl_join_isComplete (first : Completeness) :
    (calls.foldl (fun joined call => joinCompleteness joined call.completeness) first).isComplete =
      (first.isComplete && calls.all (·.completeness.isComplete)) := by
  induction calls generalizing first with
  | nil => simp
  | cons call calls ih => rw [List.foldl_cons, ih]; simp [Bool.and_assoc]

private theorem mem_foldl_join (first : Completeness) (reason : String) :
    reason ∈ (calls.foldl (fun joined call => joinCompleteness joined call.completeness)
        first).reasons ↔
      reason ∈ first.reasons ∨ ∃ call ∈ calls, reason ∈ call.completeness.reasons := by
  induction calls generalizing first with
  | nil => simp
  | cons call calls ih => rw [List.foldl_cons, ih]; simp [or_assoc]

private theorem joinedCallCompleteness_isComplete :
    (joinedCallCompleteness calls).isComplete = calls.all (·.completeness.isComplete) := by
  rw [joinedCallCompleteness, foldl_join_isComplete]
  simp

theorem mem_joinedCallCompleteness (reason : String) :
    reason ∈ (joinedCallCompleteness calls).reasons ↔
      ∃ call ∈ calls, reason ∈ call.completeness.reasons := by
  rw [joinedCallCompleteness, mem_foldl_join]
  simp

end

/-- The local summary's evidence, calls and reasons are in the result, and the result is
incomplete when a complete single call target has no summary. -/
structure NothingLost (locals : List FunctionSummary) (summary result : FunctionSummary) :
    Prop where
  reasons : summary.completeness.reasons ⊆ result.completeness.reasons
  calls : summary.calls ⊆ result.calls
  operations : summary.operations ⊆ result.operations
  witnesses : summary.witnesses ⊆ result.witnesses
  marked : ∀ call ∈ summary.calls, ∀ target, call.exactTarget = some target →
    (∀ other ∈ locals, other.symbol ≠ target) → result.completeness.isComplete = false

namespace Program

variable {program : Program} {summary : FunctionSummary}

theorem local_fields (member : summary ∈ program.locals) :
    summary.operations = program.operationsBySymbol summary.symbol ∧
      summary.witnesses = program.witnessesBySymbol summary.symbol ∧
      summary.completeness = joinedCallCompleteness summary.calls := by
  simp only [locals, localSummaries, List.mem_flatMap, List.mem_map] at member
  obtain ⟨entry, -, functionIr, -, rfl⟩ := member
  exact ⟨rfl, rfl, rfl⟩

private theorem insertion_returns (program : Program) :
    ∃ fuel results, program.summaries ⟨.insertion, .insertion⟩ fuel = some results :=
  summaries_returns fun _ _ =>
    ⟨fun _ _ _ arranged _ subset => insertion_eq_left arranged subset,
      fun _ _ _ arranged _ subset => insertion_eq_left arranged subset⟩

/-- No run of the fixpoint loses evidence of any function. -/
def EvidenceKept (program : Program) : Prop :=
  ∀ order fuel results, program.summaries order fuel = some results →
    List.Forall₂ (NothingLost program.locals) program.locals results

/-- The function's calls are among those of the last function with its symbol. -/
def SharesCalls (program : Program) (summary : FunctionSummary) : Prop :=
  ∀ last, program.table summary.symbol = some last → summary.calls ⊆ last.calls

/-- Some function reachable from the symbol through complete single-target calls, itself
included, has an incomplete call. -/
def ReachesIncompleteCall (program : Program) (f : SymbolId) : Prop :=
  ∃ g last, ReflTransGen (Calls program.edges program.table) f g ∧
    program.table g = some last ∧ ∃ call ∈ last.calls, call.completeness.isComplete = false

def CallsOutside (program : Program) (summary : FunctionSummary) : Prop :=
  ∃ call ∈ summary.calls, ∃ target, call.exactTarget = some target ∧
    ∀ other ∈ program.locals, other.symbol ≠ target

theorem reached_incomplete_iff (f : SymbolId) :
    Reached program.edges program.table f .incomplete ↔ program.ReachesIncompleteCall f := by
  have here : ∀ g last, program.table g = some last →
      (EvidenceItem.incomplete ∈ held program.table g ↔
        ∃ call ∈ last.calls, call.completeness.isComplete = false) := by
    intro g last found
    rw [held_some found, mem_items_incomplete, (local_fields (of_summaryTable found).1).2.2,
      joinedCallCompleteness_isComplete]
    simp
  constructor
  · rintro ⟨g, path, holds⟩
    obtain ⟨last, found⟩ := Option.isSome_iff_exists.mp (isSome_of_mem_held holds)
    exact ⟨g, last, path, found, (here g last found).mp holds⟩
  · rintro ⟨g, last, path, found, holds⟩
    exact ⟨g, path, (here g last found).mpr holds⟩

private theorem nothingLost_of_condition {table : SummaryTable}
    (grown : Grown program.edges program.table table)
    (closure : ∀ f, (program.table f).isSome = true → ∀ x,
      x ∈ held table f ↔ Reached program.edges program.table f x)
    {summary result : FunctionSummary} (member : summary ∈ program.locals)
    (found : table summary.symbol = some result) (shares : program.SharesCalls summary)
    (reaches : program.CallsOutside summary → program.ReachesIncompleteCall summary.symbol) :
    NothingLost program.locals summary result := by
  have known : (program.table summary.symbol).isSome = true :=
    (summaryTable_isSome _ _).mpr ⟨summary, member, rfl⟩
  -- where a symbol is summarised twice the table starts from the last one
  obtain ⟨last, start⟩ := Option.isSome_iff_exists.mp known
  obtain ⟨lastMember, sameSymbol⟩ := of_summaryTable start
  obtain ⟨ownOperations, ownWitnesses, ownCompleteness⟩ := local_fields member
  obtain ⟨lastOperations, lastWitnesses, lastCompleteness⟩ := local_fields lastMember
  -- a fixpoint run only adds items
  have kept : ∀ x, x ∈ last.items → x ∈ result.items := fun x holds =>
    held_some found ▸ grown.keeps _ x (held_some start ▸ holds)
  have calls := shares last start
  constructor
  · intro reason holds
    rw [ownCompleteness, mem_joinedCallCompleteness] at holds
    obtain ⟨call, called, holds⟩ := holds
    rw [← mem_items_reason]
    refine kept _ ((mem_items_reason _ _).mpr ?_)
    rw [lastCompleteness, mem_joinedCallCompleteness]
    exact ⟨call, calls called, holds⟩
  · rw [grown.calls _ _ _ found start]
    exact calls
  · intro operation holds
    rw [ownOperations, ← sameSymbol, ← lastOperations] at holds
    exact (mem_items_operation _ _).mp (kept _ ((mem_items_operation _ _).mpr holds))
  · intro witness holds
    rw [ownWitnesses, ← sameSymbol, ← lastWitnesses] at holds
    exact (mem_items_witness _ _).mp (kept _ ((mem_items_witness _ _).mpr holds))
  · intro call called target exactly outside
    -- a call out of the program is recorded as a reason, by the closure
    have reached := reached_incomplete_iff _ |>.mpr (reaches ⟨call, called, target, exactly, outside⟩)
    rw [← mem_items_incomplete, ← held_some found]
    exact (closure _ known _).mpr reached

theorem condition_of_evidenceKept (kept : program.EvidenceKept)
    (member : summary ∈ program.locals) :
    program.SharesCalls summary ∧
      (program.CallsOutside summary → program.ReachesIncompleteCall summary.symbol) := by
  obtain ⟨fuel, results, run⟩ := insertion_returns program
  have lost := kept _ fuel results run
  obtain ⟨table, grown, -, rfl, -⟩ := summaries_spec run
  obtain ⟨result, -, found, nothing⟩ := exists_right_of_forall₂
    (List.Forall₂.mp (S := fun summary result => table summary.symbol = some result ∧
      NothingLost program.locals summary result) (fun _ _ => And.intro)
      (forall₂_results grown) lost) member
  refine ⟨fun last start => ?_, ?_⟩
  · rw [← grown.calls _ _ _ found start]
    exact nothing.calls
  · rintro ⟨call, called, target, exactly, outside⟩
    rw [← reached_incomplete_iff]
    refine grown.sound _ _ (held_some found ▸ ?_)
    exact (mem_items_incomplete _).mpr (nothing.marked call called target exactly outside)

/-- No evidence is lost exactly when functions with one symbol leave their calls to the last
of them, and every function that calls one without a summary reaches an incomplete call. -/
theorem evidence_kept_iff (program : Program) :
    program.EvidenceKept ↔
      ∀ summary ∈ program.locals, program.SharesCalls summary ∧
        (program.CallsOutside summary → program.ReachesIncompleteCall summary.symbol) := by
  constructor
  · intro kept summary member
    exact condition_of_evidenceKept kept member
  · intro condition order fuel results run
    obtain ⟨table, grown, closure, rfl, -⟩ := summaries_spec run
    refine ((List.forall₂_and_left _ _).mpr ⟨fun summary member => member,
      forall₂_results grown⟩).imp ?_
    rintro summary result ⟨member, found⟩
    exact nothingLost_of_condition grown closure member found (condition summary member).1
      (condition summary member).2

/-- `a.py` with methods `save` of two classes: only the first makes a call, which does not
resolve. -/
def collidingMethods : Program where
  functionsByModule := [("a.py", [⟨"save", ["self"], 2, 4, [{ name := "write", line := 3 }], []⟩,
    ⟨"save", ["self"], 7, 8, [], []⟩])]
  index := ⟨fun name =>
    if name = "save" then
      [⟨"a.py", some "Draft", "save", some ["self"]⟩, ⟨"a.py", some "Page", "save", some ["self"]⟩]
    else []⟩

/-- Both methods get the symbol of the first, and the second's summary replaces the first's. -/
theorem collidingMethods_loses_evidence : ¬ collidingMethods.EvidenceKept := by
  intro kept
  obtain ⟨first, member, last, found, lost⟩ : ∃ first ∈ collidingMethods.locals,
      ∃ last ∈ (collidingMethods.table first.symbol).toList, first.calls ≠ [] ∧ last.calls = [] := by
    decide
  have shared := (condition_of_evidenceKept kept member).1 last (by simpa using found)
  rw [lost.2] at shared
  exact lost.1 (List.subset_nil.mp shared)

end Program

end OpenUltraSast.Obligations
