import Mathlib.Algebra.GroupWithZero.Nat
import OpenUltraSast.Obligations.Operations

/-! # Bounded caller chains whose first hop is a recognised entry -/

namespace OpenUltraSast.Obligations

/-- A chain of nodes from an entry to a target; each caller holds the line of its
outgoing call. -/
abbrev Hops := List (String × Option Nat)

structure PathRecord where
  hops : Hops
  entry : String
  complete : Bool
deriving DecidableEq, Repr

/-- The last `::` of a reversed text: what follows it and what precedes it, both in
reading order. -/
def splitReversed : List Char → List Char → Option (List Char × List Char)
  | ':' :: ':' :: before, after => some (before.reverse, after)
  | c :: rest, after => splitReversed rest (c :: after)
  | [], _ => none

/-- `node.rpartition("::")` without the separator. -/
def rpartition (node : String) : String × String :=
  match splitReversed node.toList.reverse [] with
  | some (before, after) => (String.ofList before, String.ofList after)
  | none => ("", node)

/-- The first `fanOut` distinct callers of a node. -/
def callersOfNode (callers : String → String → List (String × Nat)) (fanOut : Nat)
    (node : String) : List (String × Nat) :=
  (callers (rpartition node).1 (rpartition node).2).eraseDups.take fanOut

def extendChain (callersOf : String → List (String × Nat)) (node : String) (hops : Hops) :
    List Hops :=
  ((callersOf node).filter fun caller => caller.1 ∉ hops.map (·.1)).map
    fun caller => (caller.1, some caller.2) :: hops

/-- `found.setdefault(hops, record)`. -/
def addRecord (found : List PathRecord) (record : PathRecord) : List PathRecord :=
  if found.any (·.hops = record.hops) then found else found ++ [record]

def walkChains (callersOf : String → List (String × Nat)) (entries : List String)
    (maxDepth : Nat) : Nat → List Hops → List PathRecord → Bool → List PathRecord × Bool
  | 0, _, found, reached => (found, reached)
  | _ + 1, [], found, reached => (found, reached)
  | fuel + 1, [] :: pending, found, reached =>
    walkChains callersOf entries maxDepth fuel pending found reached
  | fuel + 1, ((node, line) :: hops) :: pending, found, reached =>
    let chain := (node, line) :: hops
    if node ∈ entries then
      walkChains callersOf entries maxDepth fuel pending
        (addRecord found ⟨chain, node, true⟩) true
    else if chain.length - 1 ≥ maxDepth then
      walkChains callersOf entries maxDepth fuel pending found reached
    else
      walkChains callersOf entries maxDepth fuel
        ((extendChain callersOf node chain).reverse ++ pending) found reached

/-- The chains a chain can grow into within `depth` more callers, itself included. -/
def chainBudget (fanOut : Nat) : Nat → Nat
  | 0 => 1
  | depth + 1 => 1 + fanOut * chainBudget fanOut depth

def walkTargets (callersOf : String → List (String × Nat)) (entries : List String)
    (maxDepth fanOut : Nat) :
    List (String × String) → List PathRecord → List String → List PathRecord × List String
  | [], found, unreached => (found, unreached)
  | (path, function) :: rest, found, unreached =>
    let target := nodeName path function
    let (found, reached) := walkChains callersOf entries maxDepth
      (chainBudget fanOut maxDepth + 1) [[(target, none)]] found false
    walkTargets callersOf entries maxDepth fanOut rest found
      (if reached then unreached else unreached ++ [target])

/-- `compose_paths`: walk at most `maxDepth` caller edges from each target, stop at the
first entry, and never revisit a node within a chain. -/
def composePaths (callers : String → String → List (String × Nat)) (entries : List String)
    (targets : List (String × String)) (maxDepth : Nat := 3) (fanOut : Nat := 25) :
    Except String (List PathRecord × List String) :=
  if fanOut < 1 then .error "invalid path bounds"
  else if entries = [] then
    .ok ([], targets.eraseDups.map fun target => nodeName target.1 target.2)
  else .ok (walkTargets (callersOfNode callers fanOut) entries maxDepth fanOut
    targets.eraseDups [] [])

example : rpartition "src/a.py::handler" = ("src/a.py", "handler") := by decide

end OpenUltraSast.Obligations

/-!
## What the path enumeration finds

`compose_paths` finds exactly the chains from an entry that stay within the depth and
take each caller among the first ones of its callee.
-/

namespace OpenUltraSast.Obligations

open List

/-- A chain of callers up from a target that visits no node twice and stops at the first
entry, of any length. -/
inductive Chain (callersOf : String → List (String × Nat)) (entries : List String)
    (target : String) : Hops → Prop where
  | target : Chain callersOf entries target [(target, none)]
  | caller {node caller : String} {line : Option Nat} {callLine : Nat} {hops : Hops}
      (chain : Chain callersOf entries target ((node, line) :: hops)) (inner : node ∉ entries)
      (calls : (caller, callLine) ∈ callersOf node)
      (fresh : caller ∉ ((node, line) :: hops).map (·.1)) :
      Chain callersOf entries target ((caller, some callLine) :: (node, line) :: hops)

def startsAtEntry (entries : List String) (hops : Hops) : Prop :=
  ∃ hop ∈ hops.head?, hop.1 ∈ entries

section
variable (callersOf : String → List (String × Nat)) (entries : List String) (maxDepth : Nat)

inductive FoundAbove : Hops → Hops → Prop where
  | entry {node : String} {line : Option Nat} {hops : Hops} (entry : node ∈ entries) :
      FoundAbove ((node, line) :: hops) ((node, line) :: hops)
  | caller {node : String} {line : Option Nat} {hops chain found : Hops} (inner : node ∉ entries)
      (short : hops.length < maxDepth)
      (step : chain ∈ extendChain callersOf node ((node, line) :: hops))
      (above : FoundAbove chain found) : FoundAbove ((node, line) :: hops) found

theorem mem_extendChain {node : String} {hops chain : Hops} :
    chain ∈ extendChain callersOf node hops ↔
      ∃ caller callLine, (caller, callLine) ∈ callersOf node ∧ caller ∉ hops.map (·.1) ∧
        chain = (caller, some callLine) :: hops := by
  simp only [extendChain, mem_map, mem_filter, decide_eq_true_eq]
  constructor
  · rintro ⟨⟨caller, callLine⟩, ⟨calls, fresh⟩, rfl⟩
    exact ⟨caller, callLine, calls, fresh, rfl⟩
  · rintro ⟨caller, callLine, calls, fresh, rfl⟩
    exact ⟨(caller, callLine), ⟨calls, fresh⟩, rfl⟩

def turns (fanOut : Nat) (chain : Hops) : Nat := chainBudget fanOut (maxDepth + 1 - chain.length)

theorem hops_mem_addRecord (found : List PathRecord) (record : PathRecord) (hops : Hops) :
    hops ∈ (addRecord found record).map (·.hops) ↔
      hops ∈ found.map (·.hops) ∨ hops = record.hops := by
  simp only [addRecord]
  split
  next present =>
    obtain ⟨r, member, same⟩ := any_eq_true.mp present
    constructor
    · exact Or.inl
    · rintro (h | rfl)
      · exact h
      · exact mem_map.mpr ⟨r, member, by simpa using same⟩
  next => simp

theorem turns_pos (fanOut : Nat) (chain : Hops) : 0 < turns maxDepth fanOut chain := by
  unfold turns
  cases maxDepth + 1 - chain.length <;> simp [chainBudget]

theorem turns_extendChain {fanOut : Nat} (narrow : ∀ node, (callersOf node).length ≤ fanOut)
    (node : String) (line : Option Nat) {below : Hops} (short : below.length < maxDepth) :
    ((extendChain callersOf node ((node, line) :: below)).reverse.map (turns maxDepth fanOut)).sum
      < turns maxDepth fanOut ((node, line) :: below) := by
  have each : ∀ chain ∈ extendChain callersOf node ((node, line) :: below),
      turns maxDepth fanOut chain = chainBudget fanOut (maxDepth - 1 - below.length) := by
    intro chain member
    obtain ⟨_, _, -, -, rfl⟩ := (mem_extendChain callersOf).mp member
    simp only [turns, length_cons]
    congr 1
    omega
  have count : (extendChain callersOf node ((node, line) :: below)).length ≤ fanOut := by
    rw [extendChain, length_map]
    exact (length_filter_le _ _).trans (narrow node)
  have own : turns maxDepth fanOut ((node, line) :: below) =
      1 + fanOut * chainBudget fanOut (maxDepth - 1 - below.length) := by
    have depth : maxDepth + 1 - (below.length + 1) = (maxDepth - 1 - below.length) + 1 := by omega
    simp only [turns, length_cons, depth, chainBudget]
  rw [map_reverse, sum_reverse, map_congr_left each, map_const',
    sum_replicate_nat, own, Nat.lt_one_add_iff]
  exact Nat.mul_le_mul_right _ count

structure Affordable (fanOut fuel : Nat) (pending : List Hops) : Prop where
  nonempty : ∀ chain ∈ pending, chain ≠ []
  enough : (pending.map (turns maxDepth fanOut)).sum ≤ fuel

section Affordable

variable {maxDepth} {fanOut fuel : Nat} {pending : List Hops}

theorem Affordable.drained (affordable : Affordable maxDepth fanOut 0 pending) : pending = [] := by
  cases pending with
  | nil => rfl
  | cons chain rest =>
    have positive := turns_pos maxDepth fanOut chain
    have enough := affordable.enough
    simp only [map_cons, sum_cons] at enough
    omega

theorem Affordable.rest {chain : Hops}
    (affordable : Affordable maxDepth fanOut (fuel + 1) (chain :: pending)) :
    Affordable maxDepth fanOut fuel pending := by
  have positive := turns_pos maxDepth fanOut chain
  have enough := affordable.enough
  simp only [map_cons, sum_cons] at enough
  exact ⟨fun chain member => affordable.nonempty chain (mem_cons_of_mem _ member), by omega⟩

theorem Affordable.extended (narrow : ∀ node, (callersOf node).length ≤ fanOut) {node : String}
    {line : Option Nat} {below : Hops} (short : below.length < maxDepth)
    (affordable : Affordable maxDepth fanOut (fuel + 1) (((node, line) :: below) :: pending)) :
    Affordable maxDepth fanOut fuel
      ((extendChain callersOf node ((node, line) :: below)).reverse ++ pending) := by
  constructor
  · intro chain member
    rcases mem_append.mp member with above | below_
    · obtain ⟨_, _, -, -, rfl⟩ := (mem_extendChain callersOf).mp (mem_reverse.mp above)
      exact cons_ne_nil _ _
    · exact affordable.rest.nonempty chain below_
  · have spent := turns_extendChain callersOf maxDepth narrow node line short
    have enough := affordable.enough
    simp only [map_cons, sum_cons] at enough
    rw [map_append, sum_append]
    omega

end Affordable

/-- With fuel for its chains the walk finds all that lie above those that are pending. -/
theorem hops_mem_walkChains {fanOut : Nat} (narrow : ∀ node, (callersOf node).length ≤ fanOut)
    (fuel : Nat) (pending : List Hops) (found : List PathRecord) (reached : Bool)
    (affordable : Affordable maxDepth fanOut fuel pending) (hops : Hops) :
    hops ∈ (walkChains callersOf entries maxDepth fuel pending found reached).1.map (·.hops) ↔
      hops ∈ found.map (·.hops) ∨ ∃ chain ∈ pending, FoundAbove callersOf entries maxDepth chain hops := by
  induction fuel generalizing pending found reached with
  | zero => simp [walkChains, affordable.drained]
  | succ fuel ih =>
    match pending with
    | [] => simp [walkChains]
    | [] :: rest => exact absurd rfl (affordable.nonempty [] mem_cons_self)
    | ((node, line) :: below) :: rest =>
      rw [walkChains]
      split
      next entry =>
        rw [ih _ _ _ affordable.rest, hops_mem_addRecord, exists_mem_cons_iff]
        have here : FoundAbove callersOf entries maxDepth ((node, line) :: below) hops ↔
            hops = (node, line) :: below := by
          constructor
          · intro reaches
            cases reaches with
            | entry => rfl
            | caller inner => exact absurd entry inner
          · rintro rfl
            exact .entry entry
        rw [here, or_assoc]
      next inner =>
        split
        next long =>
          rw [ih _ _ _ affordable.rest, exists_mem_cons_iff]
          have here : ¬ FoundAbove callersOf entries maxDepth ((node, line) :: below) hops := by
            intro reaches
            cases reaches with
            | entry entry => exact inner entry
            | caller _ short =>
              simp only [length_cons] at long
              omega
          simp [here]
        next short =>
          rw [length_cons, Nat.add_sub_cancel] at short
          rw [ih _ _ _ (affordable.extended callersOf narrow (Nat.lt_of_not_ge short)),
            exists_mem_cons_iff]
          refine or_congr Iff.rfl ?_
          have here : FoundAbove callersOf entries maxDepth ((node, line) :: below) hops ↔
              ∃ chain ∈ extendChain callersOf node ((node, line) :: below),
                FoundAbove callersOf entries maxDepth chain hops := by
            constructor
            · intro reaches
              cases reaches with
              | entry entry => exact absurd entry inner
              | caller _ _ step above => exact ⟨_, step, above⟩
            · rintro ⟨chain, step, above⟩
              exact .caller inner (by omega) step above
          rw [here]
          simp only [mem_append, mem_reverse, or_and_right, exists_or]

theorem hops_mem_walkTargets {fanOut : Nat} (narrow : ∀ node, (callersOf node).length ≤ fanOut)
    (targets : List (String × String)) (found : List PathRecord) (unreached : List String)
    (hops : Hops) :
    hops ∈ (walkTargets callersOf entries maxDepth fanOut targets found unreached).1.map (·.hops) ↔
      hops ∈ found.map (·.hops) ∨ ∃ target ∈ targets,
        FoundAbove callersOf entries maxDepth [(nodeName target.1 target.2, none)] hops := by
  induction targets generalizing found unreached with
  | nil => simp [walkTargets]
  | cons target rest ih =>
    simp only [walkTargets]
    rw [ih, hops_mem_walkChains callersOf entries maxDepth narrow _ _ _ _ ⟨by simp, by simp [turns]⟩]
    simp only [exists_mem_cons_iff, not_mem_nil, false_and, exists_false, or_false, or_assoc]

variable {callersOf entries maxDepth} {target : String}

theorem FoundAbove.chain {chain found : Hops} (reaches : FoundAbove callersOf entries maxDepth chain found)
    (start : Chain callersOf entries target chain) (short : chain.length ≤ maxDepth + 1) :
    Chain callersOf entries target found ∧ startsAtEntry entries found ∧
      found.length ≤ maxDepth + 1 := by
  induction reaches with
  | entry entry => exact ⟨start, ⟨_, rfl, entry⟩, short⟩
  | caller inner shorter step _ ih =>
    obtain ⟨caller, callLine, calls, fresh, rfl⟩ := (mem_extendChain callersOf).mp step
    apply ih
    · exact .caller start inner calls fresh
    · simp only [length_cons]
      omega

theorem FoundAbove.from_target {chain found : Hops} (start : Chain callersOf entries target chain)
    (short : chain.length ≤ maxDepth + 1) (reaches : FoundAbove callersOf entries maxDepth chain found) :
    FoundAbove callersOf entries maxDepth [(target, none)] found := by
  induction start with
  | target => exact reaches
  | caller _ inner calls fresh ih =>
    simp only [length_cons] at short ih
    apply ih (by omega)
    exact .caller inner (by omega) ((mem_extendChain callersOf).mpr ⟨_, _, calls, fresh, rfl⟩) reaches

theorem foundAbove_target_iff (hops : Hops) :
    FoundAbove callersOf entries maxDepth [(target, none)] hops ↔
      Chain callersOf entries target hops ∧ startsAtEntry entries hops ∧
        hops.length ≤ maxDepth + 1 := by
  constructor
  · intro reaches
    exact reaches.chain .target (by simp)
  · rintro ⟨chain, ⟨hop, first, entry⟩, short⟩
    apply FoundAbove.from_target chain short
    cases hops with
    | nil => cases first
    | cons hop' rest =>
      cases first
      exact .entry entry

theorem Chain.getLast {hops : Hops} (chain : Chain callersOf entries target hops) :
    hops.getLast? = some (target, none) := by
  induction chain with
  | target => rfl
  | caller _ _ _ _ ih => rw [List.getLast?_cons_cons, ih]

end

/-- The enumeration finds the chains from an entry within the depth, each caller among
the first `fanOut` of its callee. -/
theorem hops_mem_composePaths {callers : String → String → List (String × Nat)}
    {entries : List String} {targets : List (String × String)} {maxDepth fanOut : Nat}
    {found : List PathRecord × List String}
    (composed : composePaths callers entries targets maxDepth fanOut = .ok found) (hops : Hops) :
    hops ∈ found.1.map (·.hops) ↔ ∃ target ∈ targets,
      Chain (callersOfNode callers fanOut) entries (nodeName target.1 target.2) hops ∧
        startsAtEntry entries hops ∧ hops.length ≤ maxDepth + 1 := by
  have narrow : ∀ node, (callersOfNode callers fanOut node).length ≤ fanOut :=
    fun node => length_take_le _ _
  simp only [composePaths] at composed
  split at composed
  · cases composed
  · split at composed
    next none_ =>
      cases composed
      simp [startsAtEntry, none_]
    next =>
      cases composed
      rw [hops_mem_walkTargets _ _ _ narrow]
      simp [foundAbove_target_iff]

end OpenUltraSast.Obligations
