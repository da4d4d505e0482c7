import OpenUltraSast.Obligations.Dominance

/-!
# The strict surface against the boolean checker

A MUST of both strict answers against what the boolean checker accepts.
-/

namespace OpenUltraSast.Obligations

open Cfg

/-- The witness binds the operation's resource: the fact declares its kind
request-global, or both name the same token. -/
def BindsResource (witness : Discharge) (operation : Operation) (fact : Option OperationFact) :
    Prop :=
  ∃ bound, witness.resource = some bound ∧
    ((bound.kind = .requestGlobal ∧ ∃ f, fact = some f ∧ witness.kind ∈ f.requestGlobalKinds) ∨
      (bound.kind = .exact ∧ ∃ token, operation.resource = some token ∧ token ≠ "" ∧
        bound.values = [token]))

def HoldsAuthority (witness : Discharge) (required : Option AuthorityRef)
    (implications : List AuthorityImplication) : Prop :=
  ∀ needed, required = some needed → needed.isUnknown = false ∧
    ∃ held, witness.authority = some held ∧ held.isUnknown = false ∧
      ∀ name ∈ held.values, ∀ need ∈ needed.values,
        (implicationPath name need implications).isSome = true

theorem aliasRelation_ne_must (witnessResource operationResource : ResourceRef) :
    aliasRelation witnessResource operationResource ≠ .must := by
  unfold aliasRelation
  split_ifs <;> simp

private theorem exactRelation_eq_must (witnessResource operationResource : ResourceRef) :
    exactRelation witnessResource operationResource = .must ↔
      operationResource.kind = .exact ∧ witnessResource.values = operationResource.values := by
  unfold exactRelation
  split
  next exact' => split <;> simp_all
  next => simp_all [aliasRelation_ne_must]

theorem parseResource_exact {token : Option String} {parsed : ResourceRef}
    (h : parseResource token = .ok parsed) (exact' : parsed.kind = .exact) :
    ∃ name, token = some name ∧ name ≠ "" ∧ parsed.values = [name] := by
  cases token with
  | none =>
    simp only [parseResource, Except.ok.injEq] at h
    subst h
    simp [ResourceRef.unknownResource] at exact'
  | some name =>
    simp only [parseResource] at h
    split at h
    · simp at h
    next named =>
      simp only [Except.ok.injEq] at h
      subst h
      exact ⟨name, rfl, named, rfl⟩

private theorem resourceRelation_eq_must (witness : Discharge) (operation : Operation)
    (fact : Option OperationFact) :
    resourceRelation witness operation fact = .ok .must ↔ BindsResource witness operation fact := by
  unfold resourceRelation BindsResource
  cases bound : witness.resource with
  | none => simp
  | some resource =>
    simp only [Option.some.injEq, exists_eq_left']
    -- request-global evidence is judged by the fact alone
    by_cases wide : resource.kind = .requestGlobal
    · cases fact <;> simp [wide]
    · simp only [wide, if_false, false_and, false_or]
      cases parsed : parseResource operation.resource with
      | error e =>
        simp only [reduceCtorEq, false_iff, not_and, not_exists]
        rintro - token named notEmpty
        simp [parseResource, named, notEmpty] at parsed
      | ok operationResource =>
        -- of the four branches only two equal exact resources give must
        have binds : (if operationResource.kind = .unknown then EvidenceRelation.unknown
            else if resource.kind = .unknown then .unknown
            else if resource.kind = .exact then exactRelation resource operationResource
            else aliasRelation resource operationResource) = .must ↔
            resource.kind = .exact ∧ operationResource.kind = .exact ∧
              resource.values = operationResource.values := by
          by_cases exact' : resource.kind = .exact
          · by_cases unknown : operationResource.kind = .unknown <;>
              simp [exact', unknown, exactRelation_eq_must]
          · simp only [exact', if_false, false_and, iff_false]
            split_ifs <;> simp [aliasRelation_ne_must]
        simp only [Except.ok.injEq, binds]
        constructor
        · rintro ⟨exact', operationExact, same⟩
          obtain ⟨token, named, notEmpty, values⟩ := parseResource_exact parsed operationExact
          exact ⟨exact', token, named, notEmpty, same.trans values⟩
        · rintro ⟨exact', token, named, notEmpty, values⟩
          simp only [parseResource, named, notEmpty, if_false, Except.ok.injEq] at parsed
          subst parsed
          exact ⟨exact', rfl, values⟩

private theorem joinAlternatives_eq_must (left right : EvidenceRelation) :
    joinAlternatives left right = .must ↔ left = .must ∧ right = .must := by
  cases left <;> cases right <;> decide

theorem foldl_joinAlternatives_eq_must (rest : List EvidenceRelation) (first : EvidenceRelation) :
    rest.foldl joinAlternatives first = .must ↔ ∀ relation ∈ first :: rest, relation = .must := by
  induction rest generalizing first with
  | nil => simp
  | cons next rest ih =>
    rw [List.foldl_cons, ih]
    simp [joinAlternatives_eq_must, and_assoc]

theorem authoritySatisfies_eq_must (held required : AuthorityRef)
    (implications : List AuthorityImplication) :
    authoritySatisfies held required implications = .must ↔
      held.isUnknown = false ∧ required.isUnknown = false ∧
        ∀ name ∈ held.values, ∀ need ∈ required.values,
          (implicationPath name need implications).isSome = true := by
  unfold authoritySatisfies
  cases heldUnknown : held.isUnknown with
  | true => simp
  | false =>
    cases requiredUnknown : required.isUnknown with
    | true => simp
    | false =>
      have heldNames : held.values ≠ [] := fun empty => by
        simp [held.shaped.mpr empty] at heldUnknown
      have requiredNames : required.values ≠ [] := fun empty => by
        simp [required.shaped.mpr empty] at requiredUnknown
      simp only [Bool.or_self, Bool.false_eq_true, if_false, true_and]
      split
      next none =>
        simp only [List.flatMap_eq_nil_iff, List.map_eq_nil_iff] at none
        obtain ⟨name, member⟩ := List.exists_mem_of_ne_nil _ heldNames
        exact absurd (none name member) requiredNames
      next first rest pairs =>
        rw [foldl_joinAlternatives_eq_must, ← pairs]
        simp only [List.mem_flatMap, List.mem_map, forall_exists_index, and_imp]
        constructor
        · intro all name heldName need requiredName
          by_contra unreached
          simpa [unreached] using all _ name heldName need requiredName rfl
        · rintro all _ name heldName need requiredName rfl
          simp [all name heldName need requiredName]

private theorem authorityRelation_eq_must (witness : Discharge) (required : Option AuthorityRef)
    (implications : List AuthorityImplication) :
    (authorityRelation witness required implications).1 = .must ↔
      HoldsAuthority witness required implications := by
  unfold authorityRelation HoldsAuthority
  cases required with
  | none => simp
  | some needed =>
    cases holding : witness.authority with
    | none => simp
    | some held =>
      by_cases unknown : held.isUnknown || needed.isUnknown
      · simp only [unknown, if_true, reduceCtorEq, false_iff]
        intro holds
        obtain ⟨known, held', same, heldKnown, -⟩ := holds needed rfl
        cases same
        simp [known, heldKnown] at unknown
      · simp only [unknown, if_false, Bool.false_eq_true]
        rw [authoritySatisfies_eq_must]
        constructor
        · rintro ⟨heldKnown, known, all⟩ _ ⟨⟩
          exact ⟨known, held, rfl, heldKnown, all⟩
        · intro holds
          obtain ⟨known, held', same, heldKnown, all⟩ := holds needed rfl
          cases same
          exact ⟨heldKnown, known, all⟩

private theorem conjoinDimensions_eq_must (dimensions : List EvidenceRelation) :
    conjoinDimensions dimensions = .must ↔ ∀ relation ∈ dimensions, relation = .must := by
  unfold conjoinDimensions
  split_ifs with no unknown may
  · simpa using ⟨_, no, by simp⟩
  · simpa using ⟨_, unknown, by simp⟩
  · simpa using ⟨_, may, by simp⟩
  · simp only [true_iff]
    intro relation member
    cases relation <;> first | rfl | contradiction

/-- A witness matches for certain where its kind, scope, resource and authority all do. -/
theorem matchWitness_eq_must (witness : Discharge) (operation : Operation)
    (fact : Option OperationFact) (required : Option AuthorityRef)
    (implications : List AuthorityImplication) :
    (∃ found, matchWitness witness operation fact required implications = .ok found ∧
        found.relation = .must) ↔
      witness.kind ∈ operation.requires ∧ scopeRelation witness operation = .must ∧
        BindsResource witness operation fact ∧ HoldsAuthority witness required implications := by
  rw [← resourceRelation_eq_must, ← authorityRelation_eq_must]
  unfold matchWitness
  split
  next unasked => simp [unasked, makeMatch]
  next asked =>
    simp only [not_not] at asked
    simp only [asked, true_and]
    split
    next foreign => simp [foreign, makeMatch]
    next own =>
      simp only [not_not] at own
      simp only [own, true_and]
      split
      next e failed => simp [failed]
      next resource found =>
        simp [found, makeMatch, conjoinDimensions_eq_must]

namespace CfgDominance

variable (graphs : CfgDominance) {witness : Discharge} {operation : Operation}

theorem preGraphEvidence_constraint (constraint : witness.kind = .identityConstraint)
    (here : sameFunction witness operation = true) :
    (graphs.evidence witness operation).relation = .must ↔
      witness.scope.wholeHandler = true ∨
        (witness.scope ≠ .hop ∧ witness.line = some operation.line) := by
  unfold evidence preGraphEvidence
  by_cases whole : witness.scope.wholeHandler
  · simp [whole]
  · by_cases hop : witness.scope = .hop
    · simp [hop, Scope.wholeHandler]
    · by_cases atLine : witness.line = some operation.line
      · simp [whole, hop, here, constraint, DischargerKind.inOperation, atLine]
      · simp [whole, hop, here, constraint, DischargerKind.inOperation, atLine]

theorem statement_agrees (hop : witness.scope ≠ .hop) (whole : witness.scope.wholeHandler = false)
    (here : sameFunction witness operation = true) :
    ((graphs.evidence witness operation).relation = .must →
        graphs.dominates witness operation none = true) ∧
      ((graphs.evidence witness operation).relation = .no →
        graphs.dominates witness operation none = false) := by
  unfold evidence preGraphEvidence dominates
  simp only [hop, whole, here, decide_false, Option.isSome_none, Bool.not_true, Bool.and_false,
    Bool.or_self, Bool.false_eq_true, if_false]
  cases atLine : witness.line with
  | none => cases inside : witness.kind.inOperation <;> simp
  | some line =>
    cases inside : witness.kind.inOperation with
    | true => by_cases same : line = operation.line <;> simp [same]
    | false =>
      by_cases late : line ≥ operation.line
      · simp [late]
      · simp only [late, Bool.false_eq_true, if_false]
        cases graphs.graph operation.path operation.function operation.line with
        | error e => simp
        | ok cfg =>
          -- the relation of the two lines decides both, and a value nobody consumes is NO
          cases relation : cfg.relation line operation.line with
          | none => simp [relation]
          | some found =>
            cases found with
            | allPaths =>
              by_cases valueOnly :
                cfg.effect line operation.line witness.kind.throwing = some .valueOnly <;>
                simp [relation, valueOnly]
            | somePaths => simp [relation]
            | none => simp [relation]
            | after => simp [relation]

theorem scope_ne_hop_of_evidence_must
    (must : (graphs.evidence witness operation).relation = .must) : witness.scope ≠ .hop := by
  intro hop
  simp [evidence, preGraphEvidence, hop, Scope.wholeHandler] at must

theorem sameFunction_of_evidence_must (own : scopeRelation witness operation = .must)
    (must : (graphs.evidence witness operation).relation = .must) :
    sameFunction witness operation = true := by
  by_contra elsewhere
  unfold scopeRelation at own
  split at own
  next near => simp [elsewhere, graphs.scope_ne_hop_of_evidence_must must] at near
  next => split at own <;> simp at own

private theorem dominates_of_evidence_must (own : scopeRelation witness operation = .must)
    (must : (graphs.evidence witness operation).relation = .must) :
    graphs.dominates witness operation none = true := by
  have hop := graphs.scope_ne_hop_of_evidence_must must
  have here := graphs.sameFunction_of_evidence_must own must
  cases whole : witness.scope.wholeHandler with
  | true => simp [dominates, hop, here, whole]
  | false => exact (graphs.statement_agrees hop whole here).1 must

theorem not_dominates_of_evidence_no (no : (graphs.evidence witness operation).relation = .no) :
    graphs.dominates witness operation none = false := by
  have local' : witness.scope.wholeHandler = false ∧ witness.scope ≠ .hop ∧
      sameFunction witness operation = true := by
    unfold evidence preGraphEvidence at no
    by_contra foreign
    cases whole : witness.scope.wholeHandler with
    | true => simp [whole] at no
    | false =>
      have elsewhere : (decide (witness.scope = .hop) || !sameFunction witness operation) = true := by
        simp only [whole, true_and, not_and, Bool.not_eq_true] at foreign
        by_cases hop : witness.scope = .hop
        · simp [hop]
        · simp [foreign hop]
      simp [whole, elsewhere] at no
  obtain ⟨whole, hop, here⟩ := local'
  exact (graphs.statement_agrees hop whole here).2 no

end CfgDominance

/-- The strict answers refine the boolean ones for this pair: MUST on both sides is an
accepted witness, and NO is not dominance where the function has a graph. -/
def StrictRefines (graphs : CfgDominance) (witness : Discharge) (operation : Operation)
    (fact : Option OperationFact) (required : Option AuthorityRef)
    (implications : List AuthorityImplication) : Prop :=
  (∀ found, matchWitness witness operation fact required implications = .ok found →
      found.relation = .must → (graphs.evidence witness operation).relation = .must →
      validWitness witness = true ∧ graphs.dominates witness operation none = true) ∧
    ((graphs.evidence witness operation).relation = .no →
      (∃ cfg, graphs.graph operation.path operation.function operation.line = .ok cfg) →
      graphs.dominates witness operation none = false)

/-- An identity constraint on the operation whose value is not the caller's own
identity, and that binds the resource and holds the authority all the same. -/
structure UnauthenticatedConstraint (witness : Discharge) (operation : Operation)
    (fact : Option OperationFact) (required : Option AuthorityRef)
    (implications : List AuthorityImplication) : Prop where
  constraint : witness.kind = .identityConstraint
  provenance : witness.provenance ≠ .authenticatedContext
  asked : witness.kind ∈ operation.requires
  here : sameFunction witness operation = true
  governs : witness.scope.wholeHandler = true ∨
    (witness.scope ≠ .hop ∧ witness.line = some operation.line)
  bound : BindsResource witness operation fact
  held : HoldsAuthority witness required implications

theorem validWitness_eq_false (witness : Discharge) :
    validWitness witness = false ↔
      witness.kind = .identityConstraint ∧ witness.provenance ≠ .authenticatedContext := by
  simp [validWitness]

/-- The strict answers refine the boolean checker except on identity constraints that
do not come from the authenticated context. -/
theorem strict_refines_iff_authenticated (graphs : CfgDominance) (witness : Discharge)
    (operation : Operation) (fact : Option OperationFact) (required : Option AuthorityRef)
    (implications : List AuthorityImplication) :
    StrictRefines graphs witness operation fact required implications ↔
      ¬ UnauthenticatedConstraint witness operation fact required implications := by
  constructor
  · intro refines ⟨constraint, provenance, asked, here, governs, bound, held⟩
    obtain ⟨found, matched, must⟩ :=
      (matchWitness_eq_must witness operation fact required implications).mpr
        ⟨asked, by simp [scopeRelation, here], bound, held⟩
    have dominance := (graphs.preGraphEvidence_constraint constraint here).mpr governs
    have invalid := (validWitness_eq_false witness).mpr ⟨constraint, provenance⟩
    simp [(refines.1 found matched must dominance).1] at invalid
  · intro authenticated
    refine ⟨fun found matched must dominance => ?_, fun no _ => ?_⟩
    · obtain ⟨asked, own, bound, held⟩ :=
        (matchWitness_eq_must witness operation fact required implications).mp
          ⟨found, matched, must⟩
      refine ⟨?_, graphs.dominates_of_evidence_must own dominance⟩
      by_contra invalid
      obtain ⟨constraint, provenance⟩ :=
        (validWitness_eq_false witness).mp (by simpa using invalid)
      have here : sameFunction witness operation = true :=
        graphs.sameFunction_of_evidence_must own dominance
      exact authenticated ⟨constraint, provenance, asked, here,
        (graphs.preGraphEvidence_constraint constraint here).mp dominance, bound, held⟩
    · exact graphs.not_dominates_of_evidence_no no

/-- A constraint on line 7 that takes its value from the request: strict MUST on both
sides, and no valid witness. -/
theorem request_constraint_not_refined :
    let witness : Discharge :=
      { path := "a.py", line := some 7, function := "view", kind := .identityConstraint,
        factId := "orm-filter", provenance := .requestInput, scope := .statement,
        resource := some (.exactly "book") }
    let operation : Operation :=
      ⟨"a.py", 7, "view", .protectedRead, "orm-read", some "book", [.identityConstraint]⟩
    let graphs : CfgDominance := ⟨fun _ => [], fun _ _ => []⟩
    witness.path = operation.path ∧ ¬ StrictRefines graphs witness operation none none [] := by
  intro witness operation graphs
  refine ⟨rfl, fun refines => ?_⟩
  have accepted := refines.1 _ rfl (by decide) (by decide)
  exact absurd accepted.1 (by decide)

end OpenUltraSast.Obligations
