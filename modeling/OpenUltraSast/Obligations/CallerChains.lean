import Mathlib.Data.List.Chain
import OpenUltraSast.Obligations.Paths

/-!
# The caller chains of a target

`compose_paths` returns a record for each caller chain that ends at a target and begins at the first
entry on it, within the depth and the fan-out, once each, and names the targets that have none.
-/

namespace OpenUltraSast.Obligations

open List

/-- `compose_paths` with the bounds as it takes them. -/
def composePathsBounded (callers : String → String → List (String × Nat)) (entries : List String)
    (targets : List (String × String)) (maxDepth : Int := 3) (fanOut : Int := 25) :
    Except String (List PathRecord × List String) :=
  if maxDepth < 0 ∨ fanOut < 1 then .error "invalid path bounds"
  else composePaths callers entries targets maxDepth.toNat fanOut.toNat

/-- A chain of calls from an entry to a target. Each node calls the next one on its line, no node
comes twice, and only the first is an entry. -/
structure CallerChain (callersOf : String → List (String × Nat)) (entries : List String)
    (maxDepth : Nat) (target : String) (hops : Hops) : Prop where
  ends : hops.getLast? = some (target, none)
  calls : hops.IsChain fun caller callee =>
    ∃ line, caller.2 = some line ∧ (caller.1, line) ∈ callersOf callee.1
  simple : (hops.map (·.1)).Nodup
  entry : startsAtEntry entries hops
  inner : ∀ hop ∈ hops.tail, hop.1 ∉ entries
  short : hops.length - 1 ≤ maxDepth

section
variable {callersOf : String → List (String × Nat)} {entries : List String} {maxDepth : Nat}
  {target : String} {hops : Hops}

section
variable (chain : Chain callersOf entries target hops)
include chain

theorem Chain.inner :
    ∀ hop ∈ hops.tail, hop.1 ∉ entries := by
  induction chain with
  | target => nofun
  | caller _ inner _ _ ih =>
    intro hop member
    rcases mem_cons.mp member with rfl | later
    · exact inner
    · exact ih hop later

theorem Chain.simple : (hops.map (·.1)).Nodup := by
  induction chain with
  | target => exact nodup_singleton _
  | caller _ _ _ fresh ih => exact nodup_cons.mpr ⟨fresh, ih⟩

theorem Chain.calls :
    hops.IsChain fun caller callee =>
      ∃ line, caller.2 = some line ∧ (caller.1, line) ∈ callersOf callee.1 := by
  induction chain with
  | target => exact isChain_singleton _
  | caller _ _ calls _ ih => exact isChain_cons_cons.mpr ⟨⟨_, rfl, calls⟩, ih⟩

end

private theorem chain_of_calls (ends : hops.getLast? = some (target, none))
    (calls : hops.IsChain fun caller callee =>
      ∃ line, caller.2 = some line ∧ (caller.1, line) ∈ callersOf callee.1)
    (simple : (hops.map (·.1)).Nodup) (inner : ∀ hop ∈ hops.tail, hop.1 ∉ entries) :
    Chain callersOf entries target hops := by
  induction hops with
  | nil => cases ends
  | cons hop rest ih =>
    cases rest with
    | nil =>
      cases ends
      exact .target
    | cons next rest =>
      obtain ⟨⟨line, called, calls⟩, later⟩ := isChain_cons_cons.mp calls
      obtain ⟨fresh, simple⟩ := nodup_cons.mp simple
      have grown := ih (by rwa [List.getLast?_cons_cons] at ends) later simple
        fun other member => inner other (mem_cons_of_mem _ member)
      obtain ⟨caller, callLine⟩ := hop
      cases called
      exact .caller grown (inner next mem_cons_self) calls fresh

theorem callerChain_iff : CallerChain callersOf entries maxDepth target hops ↔
    Chain callersOf entries target hops ∧ startsAtEntry entries hops ∧
      hops.length ≤ maxDepth + 1 := by
  constructor
  · intro chain
    exact ⟨chain_of_calls chain.ends chain.calls chain.simple chain.inner, chain.entry,
      Nat.sub_le_iff_le_add.mp chain.short⟩
  · rintro ⟨chain, entry, short⟩
    exact ⟨chain.getLast, chain.calls, chain.simple, entry, chain.inner,
      Nat.sub_le_iff_le_add.mpr short⟩

end

section
variable (callersOf : String → List (String × Nat)) (entries : List String) (maxDepth : Nat)

def PathRecord.Named (record : PathRecord) : Prop :=
  record.complete = true ∧ ∃ line, record.hops.head? = some (record.entry, line)

structure Recorded (found : List PathRecord) : Prop where
  named : ∀ record ∈ found, record.Named
  distinct : (found.map (·.hops)).Nodup

theorem Recorded.addRecord {found : List PathRecord} (recorded : Recorded found)
    {record : PathRecord} (named : record.Named) : Recorded (addRecord found record) := by
  unfold Obligations.addRecord
  split
  next => exact recorded
  next absent =>
    constructor
    · intro other member
      rcases mem_append.mp member with old | new
      · exact recorded.named other old
      · exact mem_singleton.mp new ▸ named
    · rw [map_append, nodup_append]
      refine ⟨recorded.distinct, nodup_singleton _, ?_⟩
      rintro hops member _ new same
      obtain ⟨other, inside, rfl⟩ := mem_map.mp member
      obtain rfl := mem_singleton.mp new
      exact absent (any_eq_true.mpr ⟨other, inside, by simpa using same⟩)

variable {callersOf entries maxDepth}

/-- The walk records each chain once. -/
theorem Recorded.walkChains {fuel : Nat} {pending : List Hops} {found : List PathRecord}
    {reached : Bool} (recorded : Recorded found) :
    Recorded (walkChains callersOf entries maxDepth fuel pending found reached).1 := by
  fun_induction Obligations.walkChains callersOf entries maxDepth fuel pending found reached with
  | case1 => exact recorded
  | case2 => exact recorded
  | case3 fuel pending found reached ih => exact ih recorded
  | case4 fuel node line hops pending found reached chain entry ih =>
    exact ih (recorded.addRecord ⟨rfl, line, rfl⟩)
  | case5 fuel node line hops pending found reached chain inner long ih => exact ih recorded
  | case6 fuel node line hops pending found reached chain inner short ih => exact ih recorded

theorem Recorded.walkTargets {fanOut : Nat} {targets : List (String × String)}
    {found : List PathRecord} {unreached : List String} (recorded : Recorded found) :
    Recorded (walkTargets callersOf entries maxDepth fanOut targets found unreached).1 := by
  induction targets generalizing found unreached with
  | nil => exact recorded
  | cons target rest ih =>
    have walked : Recorded (Obligations.walkChains callersOf entries maxDepth
        (chainBudget fanOut maxDepth + 1) [[(nodeName target.1 target.2, none)]] found false).1 :=
      recorded.walkChains
    rw [Obligations.walkTargets]
    exact ih walked

theorem reached_walkChains (fuel : Nat) (pending : List Hops) (found other : List PathRecord)
    (reached : Bool) :
    (walkChains callersOf entries maxDepth fuel pending found reached).2 =
      (walkChains callersOf entries maxDepth fuel pending other reached).2 := by
  fun_induction walkChains callersOf entries maxDepth fuel pending found reached generalizing other
  with
  | case1 => rw [walkChains]
  | case2 => rw [walkChains]
  | case3 fuel pending found reached ih =>
    rw [walkChains]
    exact ih other
  | case4 fuel node line hops pending found reached chain entry ih =>
    rw [walkChains, if_pos entry]
    exact ih _
  | case5 fuel node line hops pending found reached chain inner long ih =>
    rw [walkChains, if_neg inner, if_pos long]
    exact ih other
  | case6 fuel node line hops pending found reached chain inner short ih =>
    rw [walkChains, if_neg inner, if_neg short]
    exact ih other

theorem reached_iff_found (fuel : Nat) (pending : List Hops) (found : List PathRecord)
    (reached : Bool) (agree : reached = true ↔ found ≠ []) :
    (walkChains callersOf entries maxDepth fuel pending found reached).2 = true ↔
      (walkChains callersOf entries maxDepth fuel pending found reached).1 ≠ [] := by
  fun_induction walkChains callersOf entries maxDepth fuel pending found reached with
  | case1 => exact agree
  | case2 => exact agree
  | case3 fuel pending found reached ih => exact ih agree
  | case4 fuel node line hops pending found reached chain entry ih =>
    apply ih
    unfold addRecord
    split
    next present =>
      obtain ⟨record, member, -⟩ := any_eq_true.mp present
      simp [ne_nil_of_mem member]
    next => simp
  | case5 fuel node line hops pending found reached chain inner long ih => exact ih agree
  | case6 fuel node line hops pending found reached chain inner short ih => exact ih agree

variable (entries maxDepth) {fanOut : Nat} (narrow : ∀ node, (callersOf node).length ≤ fanOut)
include narrow

theorem reached_iff (node : String) (found : List PathRecord) :
    (walkChains callersOf entries maxDepth (chainBudget fanOut maxDepth + 1) [[(node, none)]] found
        false).2 = true ↔
      ∃ hops, CallerChain callersOf entries maxDepth node hops := by
  rw [reached_walkChains _ _ found [], reached_iff_found _ _ [] false (by simp)]
  have member := hops_mem_walkChains callersOf entries maxDepth narrow
    (chainBudget fanOut maxDepth + 1) [[(node, none)]] [] false ⟨by simp, by simp [turns]⟩
  constructor
  · intro some_
    obtain ⟨record, found⟩ := exists_mem_of_ne_nil _ some_
    obtain ⟨chain, one, above⟩ :=
      ((member record.hops).mp (mem_map_of_mem found)).resolve_left not_mem_nil
    obtain rfl := mem_singleton.mp one
    exact ⟨record.hops, callerChain_iff.mpr ((foundAbove_target_iff _).mp above)⟩
  · rintro ⟨hops, chain⟩ none_
    have above := (foundAbove_target_iff _).mpr (callerChain_iff.mp chain)
    have found := (member hops).mpr (.inr ⟨_, mem_singleton_self _, above⟩)
    rw [none_] at found
    cases found

theorem unreached_walkTargets (targets : List (String × String)) (found : List PathRecord)
    (unreached : List String) :
    ∃ missed : List (String × String), missed.Sublist targets ∧
      (walkTargets callersOf entries maxDepth fanOut targets found unreached).2 =
        unreached ++ missed.map (fun target => nodeName target.1 target.2) ∧
      ∀ target ∈ targets, target ∉ missed ↔ ∃ hops, CallerChain callersOf entries maxDepth
        (nodeName target.1 target.2) hops := by
  induction targets generalizing found unreached with
  | nil => exact ⟨[], .slnil, by simp [walkTargets], nofun⟩
  | cons target rest ih =>
    have reached := reached_iff entries maxDepth narrow (nodeName target.1 target.2) found
    rw [walkTargets]
    generalize walkChains callersOf entries maxDepth _ _ found false = walked at reached ⊢
    obtain ⟨after, met⟩ := walked
    dsimp only at reached ⊢
    cases met with
    | true =>
      obtain ⟨missed, sub, named, each⟩ := ih after unreached
      refine ⟨missed, sub.cons target, named, fun other member => ?_⟩
      rcases mem_cons.mp member with rfl | later
      · refine iff_of_true (fun inside => ?_) (reached.mp rfl)
        exact (each other (sub.subset inside)).mpr (reached.mp rfl) inside
      · exact each other later
    | false =>
      obtain ⟨missed, sub, named, each⟩ := ih after (unreached ++ [nodeName target.1 target.2])
      have none_ := mt reached.mpr Bool.false_ne_true
      refine ⟨target :: missed, sub.cons_cons target, by simpa using named, fun other member => ?_⟩
      rw [mem_cons, not_or]
      by_cases same : other = target
      · exact iff_of_false (fun apart => apart.1 same) (same ▸ none_)
      · rw [and_iff_right same]
        exact each other (mem_of_ne_of_mem same member)

private theorem walkChains_add (more fuel : Nat) (pending : List Hops) (found : List PathRecord)
    (reached : Bool) (affordable : Affordable maxDepth fanOut fuel pending) :
    walkChains callersOf entries maxDepth (fuel + more) pending found reached =
      walkChains callersOf entries maxDepth fuel pending found reached := by
  induction fuel generalizing pending found reached with
  | zero =>
    rw [affordable.drained]
    cases more <;> simp [walkChains]
  | succ fuel ih =>
    rw [Nat.add_right_comm]
    rcases pending with - | ⟨- | ⟨⟨node, line⟩, below⟩, rest⟩
    · simp [walkChains]
    · exact absurd rfl (affordable.nonempty [] mem_cons_self)
    · rw [walkChains, walkChains]
      split
      next => exact ih rest _ true affordable.rest
      next =>
        split
        next => exact ih rest found reached affordable.rest
        next short =>
          rw [length_cons, Nat.add_sub_cancel] at short
          exact ih _ found reached
            (affordable.extended callersOf narrow (Nat.lt_of_not_ge short))

end

/-- What `compose_paths` returns within bounds: a record for each caller chain of a target, once, and
the names of the targets that have none. That a walk ends is stated by its fuel: more of it than the
budget of turns changes nothing, so no walk is cut. -/
structure Enumerated (callersOf : String → List (String × Nat)) (entries : List String)
    (targets : List (String × String)) (maxDepth fanOut : Nat) (found : List PathRecord)
    (unreached : List String) : Prop where
  distinct : (found.map (·.hops)).Nodup
  records : ∀ record, record ∈ found ↔ record.Named ∧ ∃ target ∈ targets,
    CallerChain callersOf entries maxDepth (nodeName target.1 target.2) record.hops
  unreached : ∃ missed : List (String × String), missed.Sublist targets.eraseDups ∧
    unreached = missed.map (fun target => nodeName target.1 target.2) ∧
    ∀ target ∈ targets, target ∈ missed ↔
      ¬ ∃ hops, CallerChain callersOf entries maxDepth (nodeName target.1 target.2) hops
  ends : ∀ node found fuel, chainBudget fanOut maxDepth < fuel →
    walkChains callersOf entries maxDepth fuel [[(node, none)]] found false =
      walkChains callersOf entries maxDepth (chainBudget fanOut maxDepth + 1) [[(node, none)]] found
        false

theorem PathRecord.Named.eq {record other : PathRecord} (named : record.Named)
    (named' : other.Named) (same : record.hops = other.hops) : record = other := by
  obtain ⟨complete, line, first⟩ := named
  obtain ⟨complete', line', first'⟩ := named'
  rw [same, first', Option.some.injEq, Prod.mk.injEq] at first
  obtain ⟨hops, entry, isComplete⟩ := record
  obtain ⟨hops', entry', isComplete'⟩ := other
  cases same
  cases first.1
  cases complete
  cases complete'
  rfl

section
variable {callers : String → String → List (String × Nat)} {entries : List String}
  {targets : List (String × String)} {maxDepth fanOut : Nat} {found : List PathRecord × List String}

theorem narrow_callersOfNode (node : String) : (callersOfNode callers fanOut node).length ≤ fanOut :=
  length_take_le _ _

section
variable (composed : composePaths callers entries targets maxDepth fanOut = .ok found)
include composed

private theorem recorded_composePaths :
    Recorded found.1 := by
  have nothing : Recorded [] := ⟨nofun, nodup_nil⟩
  unfold composePaths at composed
  split at composed
  next => cases composed
  next =>
    split at composed
    next =>
      cases composed
      exact nothing
    next =>
      cases composed
      exact nothing.walkTargets

private theorem unreached_composePaths :
    ∃ missed : List (String × String), missed.Sublist targets.eraseDups ∧
      found.2 = missed.map (fun target => nodeName target.1 target.2) ∧
      ∀ target ∈ targets, target ∉ missed ↔ ∃ hops,
        CallerChain (callersOfNode callers fanOut) entries maxDepth
          (nodeName target.1 target.2) hops := by
  unfold composePaths at composed
  split at composed
  next => cases composed
  next =>
    split at composed
    next none_ =>
      cases composed
      refine ⟨targets.eraseDups, .refl _, rfl, fun target member => ?_⟩
      refine iff_of_false (not_not.mpr (mem_eraseDups.mpr member)) ?_
      rintro ⟨hops, chain⟩
      obtain ⟨hop, -, entry⟩ := chain.entry
      rw [none_] at entry
      cases entry
    next =>
      cases composed
      obtain ⟨missed, sub, named, each⟩ := unreached_walkTargets entries maxDepth
        narrow_callersOfNode targets.eraseDups [] []
      exact ⟨missed, sub, named, fun target member => each target (mem_eraseDups.mpr member)⟩

private theorem enumerated_composePaths :
    Enumerated (callersOfNode callers fanOut) entries targets maxDepth fanOut found.1 found.2 := by
  have recorded := recorded_composePaths composed
  have member := hops_mem_composePaths composed
  simp only [← callerChain_iff] at member
  constructor
  · exact recorded.distinct
  · intro record
    constructor
    · intro inside
      exact ⟨recorded.named record inside, (member _).mp (mem_map_of_mem inside)⟩
    · rintro ⟨named, chain⟩
      obtain ⟨other, inside, same⟩ := mem_map.mp ((member _).mpr chain)
      exact (recorded.named other inside).eq named same ▸ inside
  · obtain ⟨missed, sub, named, each⟩ := unreached_composePaths composed
    exact ⟨missed, sub, named, fun target inside => (not_iff_comm.mp (each target inside)).symm⟩
  · intro node found fuel enough
    obtain ⟨more, rfl⟩ := Nat.exists_eq_add_of_le (Nat.succ_le_of_lt enough)
    exact walkChains_add entries maxDepth narrow_callersOfNode more _ [[(node, none)]] found false
      ⟨by simp, by simp [turns]⟩

end

end

/-- `compose_paths` refuses bounds that are negative or let no caller in, and else enumerates the
caller chains. -/
theorem composePathsBounded_spec (callers : String → String → List (String × Nat))
    (entries : List String) (targets : List (String × String)) (maxDepth fanOut : Int) :
    (maxDepth < 0 ∨ fanOut < 1) ∧
        composePathsBounded callers entries targets maxDepth fanOut = .error "invalid path bounds" ∨
      ∃ (depth width : Nat) (found : List PathRecord) (unreached : List String),
        maxDepth = depth ∧ fanOut = width ∧
        composePathsBounded callers entries targets maxDepth fanOut = .ok (found, unreached) ∧
        Enumerated (callersOfNode callers width) entries targets depth width found unreached := by
  by_cases refused : maxDepth < 0 ∨ fanOut < 1
  · exact .inl ⟨refused, if_pos refused⟩
  · obtain ⟨depth, rfl⟩ := Int.eq_ofNat_of_zero_le (not_lt.mp fun low => refused (.inl low))
    obtain ⟨width, rfl⟩ := Int.eq_ofNat_of_zero_le (a := fanOut) (by omega)
    have bounded : composePathsBounded callers entries targets depth width =
        composePaths callers entries targets depth width := if_neg refused
    rw [bounded]
    cases composed : composePaths callers entries targets depth width with
    | error =>
      unfold composePaths at composed
      rw [if_neg (by omega)] at composed
      split at composed <;> cases composed
    | ok found =>
      exact .inr ⟨depth, width, found.1, found.2, rfl, rfl, rfl, enumerated_composePaths composed⟩

/-- Two functions that call each other, of which one is called by a handler. -/
example : composePathsBounded
    (fun _ function => if function = "read" then [("a.py::load", 3)]
      else if function = "load" then [("a.py::read", 9), ("a.py::view", 5)] else [])
    ["a.py::view"] [("a.py", "read"), ("a.py", "free")] =
      .ok ([⟨[("a.py::view", some 5), ("a.py::load", some 3), ("a.py::read", none)], "a.py::view",
        true⟩], ["a.py::free"]) := by decide

end OpenUltraSast.Obligations
