import Mathlib.Data.Prod.Lex
import OpenUltraSast.Obligations.AbstractDomain
import OpenUltraSast.Semantic.Taint

/-!
# Declaration identities and call resolution

A call resolves to one complete target, to a finite candidate set with the reason it is incomplete,
or to nothing.
-/

namespace OpenUltraSast.Obligations

open Semantic

/-- The stable identity of one declaration. -/
structure SymbolId where
  module : String
  enclosingType : Option String
  name : String
  signature : Option (List String)
deriving DecidableEq, Repr

/-- `sort_key`; a missing type or signature compares as an empty one. -/
abbrev SymbolKey := String ×ₗ String ×ₗ String ×ₗ List String

def SymbolId.sortKey (symbol : SymbolId) : SymbolKey :=
  toLex (symbol.module, toLex (symbol.enclosingType.getD "",
    toLex (symbol.name, symbol.signature.getD [])))

/-- `sorted` on symbols. -/
def sortedSymbols (symbols : List SymbolId) : List SymbolId :=
  symbols.insertionSort (fun a b => a.sortKey ≤ b.sortKey)

@[simp] theorem mem_sortedSymbols (symbols : List SymbolId) (symbol : SymbolId) :
    symbol ∈ sortedSymbols symbols ↔ symbol ∈ symbols :=
  (List.perm_insertionSort _ symbols).mem_iff

structure SymbolIndex where
  byName : String → List SymbolId

structure CallTargetSet where
  targets : List SymbolId
  completeness : Completeness
deriving DecidableEq

def selfReceivers : List String := ["self", "$this", "this", "cls", "static"]

def CallTargetSet.complete (targets : List SymbolId) : CallTargetSet := ⟨targets, .complete⟩

def CallTargetSet.incomplete (targets : List SymbolId) (reason : String) : CallTargetSet :=
  ⟨targets, .ofReasons false [reason]⟩

/-- `_arity_narrow`: the symbols with that many parameters, or all when there are none. -/
def arityNarrow (symbols : List SymbolId) : Option Nat → List SymbolId
  | none => symbols
  | some arity =>
    let narrowed := symbols.filter fun symbol => (symbol.signature.getD []).length = arity
    if narrowed = [] then symbols else narrowed

/-- `_finish`. -/
def finishTargets (targets : List SymbolId) (sharedReason : String) : CallTargetSet :=
  match targets with
  | [] => .incomplete [] "resolution:no_candidate"
  | [target] => .complete [target]
  | targets => .incomplete targets ("resolution:" ++ sharedReason)

def narrowedOrUnresolved (methods : List SymbolId) (arity : Option Nat) (sharedReason : String) :
    CallTargetSet :=
  let narrowed := arityNarrow methods arity
  if methods ≠ [] && narrowed = [] then .incomplete [] "resolution:arity_mismatch"
  else finishTargets narrowed sharedReason

/-- `_module_scope_targets`: functions and methods of the calling module alike. -/
def moduleScopeTargets (sameName : List SymbolId) (module : String) (arity : Option Nat) :
    CallTargetSet :=
  narrowedOrUnresolved (sameName.filter fun symbol => symbol.module = module) arity
    "name_shared_across_module_scopes"

def methodTargets (sameName : List SymbolId) (module : String) (arity : Option Nat)
    (sharedReason : String) : CallTargetSet :=
  narrowedOrUnresolved
    (sameName.filter fun symbol => symbol.enclosingType.isSome && symbol.module = module)
    arity sharedReason

def typeReceiverTargets (sameName : List SymbolId) (typeName : String) (arity : Option Nat) :
    CallTargetSet :=
  let methods := sameName.filter fun symbol => symbol.enclosingType = some typeName
  narrowedOrUnresolved methods arity
    (if (methods.map (·.module)).eraseDups.length > 1 then "class_shared_across_modules" else "")

/-- `_variable_receiver_targets`: only a method name declared once binds. -/
def variableReceiverTargets (sameName : List SymbolId) (arity : Option Nat) : CallTargetSet :=
  let methods := sameName.filter fun symbol => symbol.enclosingType.isSome
  if methods.length = 1 then .complete methods
  else
    let narrowed := arityNarrow methods arity
    if narrowed = [] then .incomplete [] "resolution:no_candidate"
    else .incomplete narrowed "resolution:receiver_type_unknown"

def resolveCall (call : CallSite) (module : String) (index : SymbolIndex) : CallTargetSet :=
  let sameName := index.byName call.name
  let receiver := strip (call.receiver.getD "")
  if receiver = "" then moduleScopeTargets sameName module call.arity
  else if receiver ∈ selfReceivers then
    methodTargets sameName module call.arity "receiver_self_shared_across_classes"
  else if sameName.any (·.enclosingType = some receiver) then
    typeReceiverTargets sameName receiver call.arity
  else variableReceiverTargets sameName call.arity

def CallTargetSet.exactTarget (call : CallTargetSet) : Option SymbolId :=
  match call.targets with
  | [target] => if call.completeness.isComplete then some target else none
  | _ => none

end OpenUltraSast.Obligations
