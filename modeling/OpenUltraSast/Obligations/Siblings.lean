import Mathlib.Data.Prod.Lex
import OpenUltraSast.Obligations.Discharges
import OpenUltraSast.Obligations.Dominance

/-!
# Sibling handlers and consistency anomalies

Entry-point handlers that operate on the same resource in the same module are siblings.
-/

namespace OpenUltraSast.Obligations

open Collections List

/-- The last value recorded for a key, as a dictionary filled in order keeps it. -/
def lastValue {α β : Type} [DecidableEq α] (entries : List (α × β)) (key : α) : Option β :=
  entries.reverse.lookup key

/-- `Path(path).with_suffix("").as_posix()`. -/
def moduleOf (path : String) : String :=
  let parts := (path.toList.splitOnP (· = '/')).filter fun part => part ≠ [] && part ≠ ['.']
  let folders := parts.dropLast.map String.ofList
  (if path.toList.head? = some '/' then "/" else "") ++
    String.intercalate "/" (folders ++ [stem path])

/-- The path of a node: what precedes its first `::`. -/
def pathOfNode : List Char → List Char
  | ':' :: ':' :: _ => []
  | c :: rest => c :: pathOfNode rest
  | [] => []

def Operation.handler (operation : Operation) : String :=
  nodeName operation.path operation.function

def Discharge.handler (witness : Discharge) : String := nodeName witness.path witness.function

/-- `DISCHARGER_KINDS`, in their declared order. -/
def dischargerKinds : List DischargerKind :=
  [.pathGuard, .identityConstraint, .ownershipCheck, .nonPermissiveValue, .validatedInput]

def sortKinds (kinds : List DischargerKind) : List DischargerKind :=
  kinds.eraseDups.insertionSort fun a b => a.name ≤ b.name

structure SiblingSet where
  key : String × String
  handlers : List String
  discharging : List (DischargerKind × List String)
  operationKinds : List String
  accessLevels : List (String × AccessLevel)

structure Anomaly where
  handler : String
  missing : DischargerKind
  operationKind : String
  siblings : List String
  key : String × String
  accessLevel : String
  evidence : List String
deriving DecidableEq

section
variable (entries : List EntryPoint) (operations : List Operation) (discharges : List Discharge)

/-- The access levels of the entry handlers; the last entry of a handler counts. -/
def accessLevels : List (String × AccessLevel) :=
  entries.filterMap fun entry =>
    match entry.functionName with
    | none => none
    | some name =>
      if name = "" || entry.path = "" then none
      else some (nodeName entry.path name, entry.accessLevel)

def validKinds (handler : String) : List DischargerKind :=
  (discharges.filter fun w => validWitness w && w.handler = handler).map (·.kind)

/-- The sibling group of an operation: its module and resource, when an entry handler
performs it. -/
def groupKey (operation : Operation) : Option (String × String) :=
  if operation.handler ∈ (accessLevels entries).map (·.1) then
    operation.resource.map fun resource =>
      (moduleOf (String.ofList (pathOfNode operation.handler.toList)), resource)
  else none

def groupMembers (key : String × String) : List Operation :=
  operations.filter fun operation => groupKey entries operation = some key

def groupHandlers (key : String × String) : List String :=
  sortedSet ((groupMembers entries operations key).map (·.handler))

def dischargers (key : String × String) (kind : DischargerKind) : List String :=
  (groupHandlers entries operations key).filter fun handler =>
    kind ∈ validKinds discharges handler

def siblingGroup (key : String × String) : SiblingSet where
  key := key
  handlers := groupHandlers entries operations key
  discharging := (dischargerKinds.map fun kind =>
    (kind, dischargers entries operations discharges key kind)).filter (·.2 ≠ [])
  operationKinds := sortedSet ((groupMembers entries operations key).map (·.kind.name))
  accessLevels := (groupHandlers entries operations key).map fun handler =>
    (handler, (lastValue (accessLevels entries) handler).getD .unknown)

/-- `sibling_sets`, sorted by module and resource. -/
def siblingSets : List SiblingSet :=
  (sortedSet ((operations.filterMap (groupKey entries)).map toLex)).map fun key =>
    siblingGroup entries operations discharges (ofLex key)

end

def SiblingSet.accessName (group : SiblingSet) (handler : String) : String :=
  ((group.accessLevels.lookup handler).getD .unknown).name

/-- What the siblings' practice says against a handler that lacks a kind. -/
def anomalyEvidence (group : SiblingSet) (kind : DischargerKind) (siblings : List String)
    (access : String) : List String :=
  siblings.map (fun sibling => sibling ++ " discharges " ++ kind.name) ++
    if kind = .pathGuard then
      ["route access: " ++ access ++ "; siblings: " ++
        String.intercalate ", " (sortedSet (siblings.map group.accessName))]
    else []

def groupAnomalies (group : SiblingSet) (minSiblings : Nat) : List Anomaly :=
  (group.discharging.insertionSort fun a b => a.1.name ≤ b.1.name).flatMap
    fun (kind, siblings) =>
      -- One sibling does not set a norm.
      if siblings.length < minSiblings then []
      else
        (group.handlers.filter (· ∉ siblings)).flatMap fun handler =>
          let access := group.accessName handler
          group.operationKinds.map fun operationKind =>
            ⟨handler, kind, operationKind, siblings, group.key, access,
              anomalyEvidence group kind siblings access⟩

/-- `consistency_anomalies`: the anomalies and the under-populated groups. -/
def consistencyAnomalies (groups : List SiblingSet) (minSiblings : Nat) :
    List Anomaly × List (String × String) :=
  let populated := fun group : SiblingSet => minSiblings ≤ group.handlers.length
  ((groups.filter (populated ·)).flatMap (groupAnomalies · minSiblings),
    (groups.filter (!populated ·)).map (·.key))

theorem mem_validKinds (discharges : List Discharge) (handler : String) (kind : DischargerKind) :
    kind ∈ validKinds discharges handler ↔
      ∃ w ∈ discharges, validWitness w ∧ w.handler = handler ∧ w.kind = kind := by
  simp only [validKinds, mem_map, mem_filter, Bool.and_eq_true, decide_eq_true_eq,
    and_assoc]

/-- A handler is anomalous for a kind: enough of its siblings discharge the kind in a
group that is large enough, and it does not. -/
def Anomalous (entries : List EntryPoint) (operations : List Operation)
    (discharges : List Discharge) (minSiblings : Nat) (handler : String)
    (kind : DischargerKind) : Prop :=
  kind ∉ validKinds discharges handler ∧ ∃ key ∈ operations.filterMap (groupKey entries),
    handler ∈ groupHandlers entries operations key ∧
    minSiblings ≤ (groupHandlers entries operations key).length ∧
    dischargers entries operations discharges key kind ≠ [] ∧
    minSiblings ≤ (dischargers entries operations discharges key kind).length

private theorem mem_dischargerKinds (kind : DischargerKind) : kind ∈ dischargerKinds := by
  cases kind <;> decide

private theorem mem_groupAnomalies (group : SiblingSet) (minSiblings : Nat) (handler : String)
    (kind : DischargerKind) :
    (∃ a ∈ groupAnomalies group minSiblings, a.handler = handler ∧ a.missing = kind) ↔
      group.operationKinds ≠ [] ∧ handler ∈ group.handlers ∧
        ∃ siblings, (kind, siblings) ∈ group.discharging ∧ minSiblings ≤ siblings.length ∧
          handler ∉ siblings := by
  simp only [groupAnomalies, mem_flatMap, mem_insertionSort]
  constructor
  · rintro ⟨a, ⟨⟨k, siblings⟩, discharging, found⟩, rfl, rfl⟩
    dsimp only at found
    split at found
    next => cases found
    next enough =>
      simp only [mem_flatMap, mem_filter, mem_map, decide_eq_true_eq] at found
      obtain ⟨handler, ⟨among, lacks⟩, operationKind, performed, rfl⟩ := found
      exact ⟨ne_nil_of_mem performed, among, siblings, discharging, not_lt.mp enough, lacks⟩
  · rintro ⟨nonempty, among, siblings, discharging, enough, lacks⟩
    obtain ⟨operationKind, performed⟩ := exists_mem_of_ne_nil _ nonempty
    refine ⟨⟨handler, kind, operationKind, siblings, group.key, group.accessName handler,
      anomalyEvidence group kind siblings (group.accessName handler)⟩,
      ⟨(kind, siblings), discharging, ?_⟩, rfl, rfl⟩
    rw [if_neg (not_lt.mpr enough)]
    simp only [mem_flatMap, mem_filter, mem_map, decide_eq_true_eq]
    exact ⟨handler, ⟨among, lacks⟩, operationKind, performed, rfl⟩

theorem exists_anomaly_iff (entries : List EntryPoint) (operations : List Operation)
    (discharges : List Discharge) (minSiblings : Nat) (handler : String) (kind : DischargerKind) :
    (∃ a ∈ (consistencyAnomalies (siblingSets entries operations discharges) minSiblings).1,
      a.handler = handler ∧ a.missing = kind) ↔
      Anomalous entries operations discharges minSiblings handler kind := by
  have groups : (∃ a ∈ (consistencyAnomalies (siblingSets entries operations discharges)
        minSiblings).1, a.handler = handler ∧ a.missing = kind) ↔
      ∃ key ∈ operations.filterMap (groupKey entries),
        minSiblings ≤ (groupHandlers entries operations key).length ∧
          ∃ a ∈ groupAnomalies (siblingGroup entries operations discharges key) minSiblings,
            a.handler = handler ∧ a.missing = kind := by
    simp only [consistencyAnomalies, siblingSets, mem_flatMap, mem_filter,
      mem_map, mem_sortedSet, decide_eq_true_eq]
    constructor
    · rintro ⟨a, ⟨_, ⟨⟨_, ⟨key, member, rfl⟩, rfl⟩, populated⟩, found⟩, named⟩
      exact ⟨key, member, populated, a, found, named⟩
    · rintro ⟨key, member, populated, a, found, named⟩
      exact ⟨a, ⟨_, ⟨⟨_, ⟨key, member, rfl⟩, rfl⟩, populated⟩, found⟩, named⟩
  rw [groups]
  simp only [mem_groupAnomalies, Anomalous, siblingGroup, mem_filter, mem_map,
    decide_eq_true_eq]
  constructor
  · rintro ⟨key, member, populated, _, among, _, ⟨⟨_, _, eq⟩, nonempty⟩, enough, lacks⟩
    obtain ⟨rfl, rfl⟩ := Prod.mk.inj eq
    refine ⟨fun has => lacks (mem_filter.mpr ⟨among, by simpa using has⟩), key, member, among,
      populated, nonempty, enough⟩
  · rintro ⟨lacks, key, member, among, populated, nonempty, enough⟩
    obtain ⟨operation, performs, -⟩ := mem_map.mp ((mem_sortedSet _ _).mp among)
    refine ⟨key, member, populated, ?_, among, _, ⟨⟨kind, mem_dischargerKinds kind, rfl⟩, nonempty⟩,
      enough, fun has => lacks (by simpa using (mem_filter.mp has).2)⟩
    exact ne_nil_of_mem ((mem_sortedSet _ _).mpr (mem_map_of_mem performs))

example : moduleOf "api/v1/books.py" = "api/v1/books" := by decide

end OpenUltraSast.Obligations
