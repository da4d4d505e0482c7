import OpenUltraSast.Library.StrongComponents
import OpenUltraSast.Obligations.MonotoneSummaries

/-!
# Components of the call graph

The components over which summaries are propagated are the strongly connected components of the
calls: functions that call each other, callee components first.
-/

namespace OpenUltraSast.Obligations

open Components

/-- `_tarjan_components`; a symbol that is no key of the edges has none. -/
def tarjanComponents (edges : SymbolId → List SymbolId) (known : List SymbolId) :
    List (List SymbolId) :=
  Components.components edges sortedSymbols known

theorem sortedSymbols_perm (symbols : List SymbolId) : (sortedSymbols symbols).Perm symbols :=
  List.perm_insertionSort _ symbols

private theorem sortedSymbols_sorted (symbols : List SymbolId) :
    (sortedSymbols symbols).Pairwise fun a b => a.sortKey ≤ b.sortKey := by
  have : Std.Total fun a b : SymbolId => a.sortKey ≤ b.sortKey :=
    ⟨fun a b => le_total a.sortKey b.sortKey⟩
  have : IsTrans SymbolId fun a b => a.sortKey ≤ b.sortKey := ⟨fun _ _ _ => le_trans⟩
  exact List.pairwise_insertionSort _ symbols

/-- The components part the known symbols into those that reach each other; each is sorted, and stands
after all that it reaches. -/
theorem tarjanComponents_spec (edges : SymbolId → List SymbolId) (known : List SymbolId) :
    Condensation edges known (tarjanComponents edges known) ∧
      ∀ component ∈ tarjanComponents edges known,
        component.Pairwise fun a b => a.sortKey ≤ b.sortKey := by
  obtain ⟨condensation, sorts⟩ := components_condensation edges sortedSymbols_perm known
  refine ⟨condensation, fun component listed => ?_⟩
  obtain ⟨members, rfl⟩ := sorts component listed
  exact sortedSymbols_sorted members

/-- The summaries are propagated over functions that call each other, directly or not. -/
theorem Program.components_condensation (program : Program) :
    Condensation program.edges (summarySymbols program.locals) program.components :=
  (Components.components_condensation program.edges sortedSymbols_perm _).1

end OpenUltraSast.Obligations
