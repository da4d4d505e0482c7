import OpenUltraSast.Obligations.Operations

/-! # Witness kind, scope, resource and authority matching -/

namespace OpenUltraSast.Obligations

/-- `_WHOLE_HANDLER_SCOPES`, also `_SCOPED` of the dominance modules. -/
def Scope.wholeHandler : Scope → Bool
  | .decorator | .router => true
  | _ => false

/-- Whole-handler scopes on another handler are definitely unrelated; a statement in
another function is undecidable here. -/
def scopeRelation (witness : Discharge) (operation : Operation) : EvidenceRelation :=
  if sameFunction witness operation || witness.scope = .hop then .must
  else if witness.scope.wholeHandler then .no
  else .unknown

/-- A shared token makes two bindings possible aliases. -/
def aliasRelation (witnessResource operationResource : ResourceRef) : EvidenceRelation :=
  if witnessResource.values.any (· ∈ operationResource.values) then .may
  else if witnessResource.kind = .exact && operationResource.kind = .exact then .no
  else .unknown

def exactRelation (witnessResource operationResource : ResourceRef) : EvidenceRelation :=
  if operationResource.kind = .exact then
    if witnessResource.values = operationResource.values then .must else .no
  else aliasRelation witnessResource operationResource

/-- `_resource_relation`; an empty resource token on the operation raises. -/
def resourceRelation (witness : Discharge) (operation : Operation)
    (fact : Option OperationFact) : Except String EvidenceRelation :=
  match witness.resource with
  | none => .ok .unknown
  | some witnessResource =>
    if witnessResource.kind = .requestGlobal then
      .ok (if fact.any (fun f => witness.kind ∈ f.requestGlobalKinds) then .must else .unknown)
    else
      match parseResource operation.resource with
      | .error e => .error e
      | .ok operationResource =>
        .ok (if operationResource.kind = .unknown then .unknown
          else if witnessResource.kind = .unknown then .unknown
          else if witnessResource.kind = .exact then
            exactRelation witnessResource operationResource
          else aliasRelation witnessResource operationResource)

/-- `_authority_relation`: the relation and the identifiers of the implications used. -/
def authorityRelation (witness : Discharge) (requiredAuthority : Option AuthorityRef)
    (implications : List AuthorityImplication) : EvidenceRelation × List String :=
  match requiredAuthority with
  | none => (.must, [])
  | some required =>
    match witness.authority with
    | none => (.unknown, [])
    | some held =>
      if held.isUnknown || required.isUnknown then (.unknown, [])
      else
        (authoritySatisfies held required implications,
          (supportingImplications held required implications).map ("implication:" ++ ·.id))

/-- `_match`. -/
def makeMatch (relation resource authority : EvidenceRelation) (witness : Discharge)
    (operation : Operation) (implicationIds : List String) : WitnessMatch where
  relation := relation
  resourceRelation := resource
  authorityRelation := authority
  evidence := ["witness:" ++ witness.factId, "operation:" ++ operation.factId,
    "resource:" ++ (match operation.resource with
      | some token => if token = "" then "unknown" else token
      | none => "unknown")] ++ implicationIds

def matchWitness (witness : Discharge) (operation : Operation)
    (fact : Option OperationFact := none) (requiredAuthority : Option AuthorityRef := none)
    (implications : List AuthorityImplication := []) : Except String WitnessMatch :=
  if witness.kind ∉ operation.requires then
    .ok (makeMatch .no .no .unknown witness operation [])
  else if scopeRelation witness operation ≠ .must then
    .ok (makeMatch (scopeRelation witness operation) .no .unknown witness operation [])
  else
    match resourceRelation witness operation fact with
    | .error e => .error e
    | .ok resource =>
      let (authority, implicationIds) :=
        authorityRelation witness requiredAuthority implications
      .ok (makeMatch (conjoinDimensions [.must, resource, authority]) resource authority
        witness operation implicationIds)

end OpenUltraSast.Obligations
