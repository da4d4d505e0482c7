import Mathlib.Data.String.Basic
import OpenUltraSast.Library.Collections

/-!
# The abstract evidence domain

Evidence relations, the completeness value, and the resource and authority abstract values of the
access-control prover.
-/

namespace OpenUltraSast.Obligations

open Collections

/-- Definite presence, possibility, definite absence, and unknown. -/
inductive EvidenceRelation where
  | must
  | may
  | no
  | unknown
deriving DecidableEq, Repr

inductive PairJudgment where
  | unguarded
  | discharged
  | indeterminate
deriving DecidableEq, Repr

/-- What the analysis could not decide; reasons are deduplicated in order. -/
structure Completeness where
  isComplete : Bool
  reasons : List String
  nodup : reasons.Nodup
deriving DecidableEq

namespace Completeness

/-- The dataclass constructor: `dict.fromkeys` keeps the first occurrence of a reason. -/
def ofReasons (isComplete : Bool) (reasons : List String) : Completeness :=
  ⟨isComplete, reasons.eraseDups, nodup_eraseDups reasons⟩

/-- `Completeness(is_complete=True)`. -/
def complete : Completeness := ofReasons true []

@[simp] theorem ofReasons_isComplete (b : Bool) (reasons : List String) :
    (ofReasons b reasons).isComplete = b := rfl

@[simp] theorem mem_ofReasons (b : Bool) (reasons : List String) (r : String) :
    r ∈ (ofReasons b reasons).reasons ↔ r ∈ reasons := by
  simp [ofReasons, List.mem_eraseDups]

@[simp] theorem complete_isComplete : complete.isComplete = true := rfl

@[simp] theorem complete_reasons : complete.reasons = [] := rfl

end Completeness

def joinCompleteness (left right : Completeness) : Completeness :=
  .ofReasons (left.isComplete && right.isComplete) (left.reasons ++ right.reasons)

@[simp] theorem joinCompleteness_isComplete (left right : Completeness) :
    (joinCompleteness left right).isComplete = (left.isComplete && right.isComplete) := rfl

@[simp] theorem mem_joinCompleteness (left right : Completeness) (r : String) :
    r ∈ (joinCompleteness left right).reasons ↔ r ∈ left.reasons ∨ r ∈ right.reasons := by
  simp [joinCompleteness]

inductive ResourceKind where
  | exact
  | aliases
  | requestGlobal
  | unknown
deriving DecidableEq, Repr

def ResourceKind.Admits : ResourceKind → List String → Prop
  | .exact, tokens => tokens.length = 1
  | .aliases, tokens => tokens ≠ []
  | .requestGlobal, tokens => tokens = []
  | .unknown, tokens => tokens = []

instance : (kind : ResourceKind) → (tokens : List String) → Decidable (kind.Admits tokens)
  | .exact, tokens => inferInstanceAs (Decidable (tokens.length = 1))
  | .aliases, tokens => inferInstanceAs (Decidable (tokens ≠ []))
  | .requestGlobal, tokens => inferInstanceAs (Decidable (tokens = []))
  | .unknown, tokens => inferInstanceAs (Decidable (tokens = []))

/-- The abstract value of one resource binding; its tokens are sorted and distinct. -/
structure ResourceRef where
  kind : ResourceKind
  values : List String
  sorted : values.Pairwise (· < ·)
  admits : kind.Admits values
deriving DecidableEq

namespace ResourceRef

/-- The dataclass constructor: a misshapen kind or arity raises. -/
def build (kind : ResourceKind) (values : List String) : Except String ResourceRef :=
  if h : kind.Admits (sortedSet values) then
    .ok ⟨kind, sortedSet values, sortedSet_pairwise values, h⟩
  else
    .error (match kind with
      | .exact => "exact resource needs exactly one token"
      | .aliases => "alias set needs at least one token"
      | .requestGlobal => "request_global resource binds no tokens"
      | .unknown => "unknown resource binds no tokens")

def unknownResource : ResourceRef := ⟨.unknown, [], List.Pairwise.nil, rfl⟩

def requestGlobalResource : ResourceRef := ⟨.requestGlobal, [], List.Pairwise.nil, rfl⟩

def exactly (token : String) : ResourceRef :=
  ⟨.exact, [token], List.pairwise_singleton _ _, rfl⟩

end ResourceRef

/-- `parse_resource` on an optional identifier token: no binding is unknown, an
empty token is misshapen, any other token is exact. -/
def parseResource : Option String → Except String ResourceRef
  | none => .ok .unknownResource
  | some token =>
    if token = "" then .error "misshapen resource binding" else .ok (.exactly token)

/-- The abstract value of one authority holding: an unknown holding binds no
names, any other binds at least one, and no name is empty. -/
structure AuthorityRef where
  values : List String
  isUnknown : Bool
  sorted : values.Pairwise (· < ·)
  named : "" ∉ values
  shaped : isUnknown = true ↔ values = []
deriving DecidableEq

namespace AuthorityRef

def unknownAuthority : AuthorityRef :=
  ⟨[], true, List.Pairwise.nil, List.not_mem_nil, by simp⟩

def exactly (name : String) (h : name ≠ "") : AuthorityRef :=
  ⟨[name], false, List.pairwise_singleton _ _, by simpa using h.symm, by simp⟩

end AuthorityRef

/-- One promoted implication fact: `authority` also covers `implies`. -/
structure AuthorityImplication where
  id : String
  authority : String
  implies : String
deriving DecidableEq, Repr

def implicationIndex (implications : List AuthorityImplication) (authority : String) :
    List AuthorityImplication :=
  implications.filter fun implication => implication.authority = authority

abbrev Parents := List (String × Option (String × AuthorityImplication))

/-- Follow the parent pointers from `node` back to the source. The fuel is the
number of parent entries, each of which is passed at most once. -/
def implicationChain (parents : Parents) : Nat → String → List AuthorityImplication →
    List AuthorityImplication
  | 0, _, chain => chain
  | fuel + 1, node, chain =>
    match parents.lookup node with
    | some (some (previous, edge)) => implicationChain parents fuel previous (edge :: chain)
    | _ => chain

/-- The inner loop of the search: the edges of `current`, until one reaches the target. -/
def scanImplications (target current : String) :
    List AuthorityImplication → Parents → List String →
      Except (List AuthorityImplication) (Parents × List String)
  | [], parents, frontier => .ok (parents, frontier)
  | implication :: rest, parents, frontier =>
    if (parents.lookup implication.implies).isSome then
      scanImplications target current rest parents frontier
    else
      let parents := (implication.implies, some (current, implication)) :: parents
      if implication.implies = target then
        .error (implicationChain parents parents.length target [])
      else
        scanImplications target current rest parents (frontier ++ [implication.implies])

/-- Breadth-first search over the promoted implications. The fuel bounds the
number of names taken from the frontier. -/
def searchImplications (implications : List AuthorityImplication) (target : String) :
    Nat → Parents → List String → Option (List AuthorityImplication)
  | 0, _, _ => none
  | _ + 1, _, [] => none
  | fuel + 1, parents, current :: frontier =>
    match scanImplications target current (implicationIndex implications current)
        parents frontier with
    | .error chain => some chain
    | .ok (parents, frontier) => searchImplications implications target fuel parents frontier

/-- The implications leading from `source` to `target`, or none. Every name but the
source enters the frontier through an implication of its own, which bounds the fuel. -/
def implicationPath (source target : String) (implications : List AuthorityImplication) :
    Option (List AuthorityImplication) :=
  if source = target then some []
  else searchImplications implications target (implications.length + 2)
    [(source, none)] [source]

def joinAlternatives : EvidenceRelation → EvidenceRelation → EvidenceRelation
  | .unknown, _ => .unknown
  | _, .unknown => .unknown
  | .must, .must => .must
  | .no, .no => .no
  | _, _ => .may

/-- The precision order: `must ≤ may ≤ unknown` and `no ≤ may ≤ unknown`. -/
def atLeastAsPrecise : EvidenceRelation → EvidenceRelation → Bool
  | _, .unknown => true
  | .unknown, _ => false
  | _, .may => true
  | left, right => left = right

/-- Combine one witness's dimensions: any NO wins, then any UNKNOWN, then any MAY. -/
def conjoinDimensions (dimensions : List EvidenceRelation) : EvidenceRelation :=
  if .no ∈ dimensions then .no
  else if .unknown ∈ dimensions then .unknown
  else if .may ∈ dimensions then .may
  else .must

/-- Ask whether any witness definitely governs one obligation. -/
def aggregateWitnesses (relations : List EvidenceRelation) (discoveryComplete : Bool) :
    EvidenceRelation :=
  if relations = [] then
    if discoveryComplete then .no else .unknown
  else if .must ∈ relations then .must
  else if .unknown ∈ relations then .unknown
  else if .may ∈ relations then .may
  else .no

/-- Whether one held authority satisfies one required authority: the fold of
`joinAlternatives` over every held-by-required pair of names. -/
def authoritySatisfies (held required : AuthorityRef)
    (implications : List AuthorityImplication) : EvidenceRelation :=
  if held.isUnknown || required.isUnknown then .unknown
  else
    let pairs := held.values.flatMap fun heldName => required.values.map fun requiredName =>
      if (implicationPath heldName requiredName implications).isSome
      then EvidenceRelation.must else .no
    match pairs with
    | [] => .unknown
    | first :: rest => rest.foldl joinAlternatives first

/-- The implications used on satisfying paths, deduplicated in order. -/
def supportingImplications (held required : AuthorityRef)
    (implications : List AuthorityImplication) : List AuthorityImplication :=
  if held.isUnknown || required.isUnknown then []
  else
    (held.values.flatMap fun heldName => required.values.flatMap fun requiredName =>
      (implicationPath heldName requiredName implications).getD []).eraseDups

structure WitnessMatch where
  relation : EvidenceRelation
  resourceRelation : EvidenceRelation
  authorityRelation : EvidenceRelation
  evidence : List String
deriving DecidableEq, Repr

structure PathJudgment (Kind : Type) where
  judgment : PairJudgment
  missing : List Kind
  completeness : Completeness
  found : List WitnessMatch
deriving DecidableEq

end OpenUltraSast.Obligations
