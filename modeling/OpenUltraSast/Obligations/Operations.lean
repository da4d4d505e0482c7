import OpenUltraSast.Obligations.AbstractDomain

/-! # Obligated operations and discharge witnesses -/

namespace OpenUltraSast.Obligations

/-- `OPERATION_KINDS`. -/
inductive OperationKind where
  | protectedRead
  | protectedWrite
  | privilegedAction
  | securitySetting
deriving DecidableEq, Repr

def OperationKind.name : OperationKind → String
  | .protectedRead => "protected_read"
  | .protectedWrite => "protected_write"
  | .privilegedAction => "privileged_action"
  | .securitySetting => "security_setting"

/-- `DISCHARGER_KINDS`. -/
inductive DischargerKind where
  | pathGuard
  | identityConstraint
  | ownershipCheck
  | nonPermissiveValue
  | validatedInput
deriving DecidableEq, Repr

def DischargerKind.name : DischargerKind → String
  | .pathGuard => "path_guard"
  | .identityConstraint => "identity_constraint"
  | .ownershipCheck => "ownership_check"
  | .nonPermissiveValue => "non_permissive_value"
  | .validatedInput => "validated_input"

/-- `PROVENANCE_KINDS`. -/
inductive Provenance where
  | authenticatedContext
  | requestInput
  | constant
  | unknown
deriving DecidableEq, Repr

def Provenance.name : Provenance → String
  | .authenticatedContext => "authenticated_context"
  | .requestInput => "request_input"
  | .constant => "constant"
  | .unknown => "unknown"

/-- `SCOPES`. -/
inductive Scope where
  | decorator
  | router
  | statement
  | hop
deriving DecidableEq, Repr

def Scope.name : Scope → String
  | .decorator => "decorator"
  | .router => "router"
  | .statement => "statement"
  | .hop => "hop"

structure Operation where
  path : String
  line : Nat
  function : String
  kind : OperationKind
  factId : String
  resource : Option String
  requires : List DischargerKind
deriving DecidableEq, Repr

structure Discharge where
  path : String
  line : Option Nat
  function : String
  kind : DischargerKind
  factId : String
  provenance : Provenance
  scope : Scope
  detail : String := ""
  resource : Option ResourceRef := none
  authority : Option AuthorityRef := none
deriving DecidableEq

/-- The sensitivities a fact declares, as the loader's closed set orders them. -/
inductive Sensitivity where
  | low
  | medium
  | high
deriving DecidableEq, Repr

def Sensitivity.name : Sensitivity → String
  | .low => "low"
  | .medium => "medium"
  | .high => "high"

/-- One operation fact: the calls or handlers that carry an obligation, and the
discharger kinds it accepts. -/
structure OperationFact where
  id : String
  kind : OperationKind
  language : String
  calls : List String
  resourceArg : Option Nat
  requires : List DischargerKind
  sensitivity : Sensitivity
  handlers : List String := []
  framework : Option String := none
  requestGlobalKinds : List DischargerKind := []
deriving DecidableEq, Repr

/-- Whether the witness is in the operation's function, as the code identifies
functions: by path and name. -/
def sameFunction (witness : Discharge) (operation : Operation) : Bool :=
  witness.path = operation.path && witness.function = operation.function

/-- An identity constraint witnesses a discharge only when its value comes from the
authenticated context. -/
def validWitness (witness : Discharge) : Bool :=
  witness.kind ≠ .identityConstraint || witness.provenance = .authenticatedContext

/-- `path::function`, the name of a node of a path record. -/
def nodeName (path function : String) : String := path ++ "::" ++ function

end OpenUltraSast.Obligations
