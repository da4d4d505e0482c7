import OpenUltraSast.Hunt.Prover

/-!
# What a discharged judgment covers

The enumeration of caller chains is cut at a depth, at a fan-out and at unreadable
files, and every path judgment is built as if nothing had been cut.
-/

namespace OpenUltraSast.Hunt

open Obligations Semantic List

variable {operation : Operation}

namespace Change

variable (change : Change)

def callersOf (node : String) : List (String × Nat) :=
  change.callers (rpartition node).1 (rpartition node).2

/-- A witness on the files of the chain governs the kind: it matches and dominates on
every path. -/
def Governed (operation : Operation) (hops : Hops) (kind : DischargerKind) : Prop :=
  ∃ w ∈ change.discharges hops, w.kind = kind ∧
    (∃ found, matchWitness w operation (change.factOf operation) = .ok found ∧
      found.relation = .must) ∧
    (change.graphs.evidence w operation).relation = .must

def Settled (operation : Operation) (hops : Hops) (kind : DischargerKind) : Prop :=
  (∀ w ∈ change.discharges hops, w.kind = kind →
    ∃ found, matchWitness w operation (change.factOf operation) = .ok found) ∧
  change.Governed operation hops kind

variable {pairs : List (WitnessMatch × DominanceEvidence)}

section
variable (key : String × String)
include key

end

end Change

end OpenUltraSast.Hunt
