import Mathlib.Algebra.GroupWithZero.Nat
import Mathlib.Algebra.Order.BigOperators.Group.List
import Mathlib.Data.Finset.Card
import OpenUltraSast.Obligations.Summaries

/-!
# The fixpoint is the closure of the call graph

Every round keeps a table between the local summaries and the closure; a settled component whose
callee components hold their closures holds its own.
-/

namespace OpenUltraSast.Obligations

open Collections Components Relation List

/-- One piece of what a summary accumulates. -/
inductive EvidenceItem where
  | operation (operation : Operation)
  | witness (witness : Discharge)
  | reason (reason : String)
  | incomplete
deriving DecidableEq

def FunctionSummary.items (summary : FunctionSummary) : List EvidenceItem :=
  summary.operations.map .operation ++ summary.witnesses.map .witness ++
    summary.completeness.reasons.map .reason ++
    if summary.completeness.isComplete then [] else [.incomplete]

@[simp] theorem mem_items_operation (summary : FunctionSummary) (operation : Operation) :
    .operation operation ∈ summary.items ↔ operation ∈ summary.operations := by
  simp [FunctionSummary.items]

@[simp] theorem mem_items_witness (summary : FunctionSummary) (witness : Discharge) :
    .witness witness ∈ summary.items ↔ witness ∈ summary.witnesses := by
  simp [FunctionSummary.items]

@[simp] theorem mem_items_reason (summary : FunctionSummary) (reason : String) :
    .reason reason ∈ summary.items ↔ reason ∈ summary.completeness.reasons := by
  simp [FunctionSummary.items]

@[simp] theorem mem_items_incomplete (summary : FunctionSummary) :
    .incomplete ∈ summary.items ↔ summary.completeness.isComplete = false := by
  simp [FunctionSummary.items]

theorem mem_items_absorb (order : MergeOrder) (n : Nat) (summary callee : FunctionSummary)
    (x : EvidenceItem) :
    x ∈ (absorb order n summary callee).items ↔ x ∈ summary.items ∨ x ∈ callee.items := by
  cases x with
  | operation o => simp [absorb, mergeOperations]
  | witness w => simp [absorb, mergeWitnesses]
  | reason r => simp [absorb]
  | incomplete =>
    rw [mem_items_incomplete, mem_items_incomplete, mem_items_incomplete]
    exact Bool.and_eq_false_iff

theorem mem_items_propagatedFrom (order : MergeOrder) (n : Nat) (summary : FunctionSummary)
    (callees : List FunctionSummary) (x : EvidenceItem) :
    x ∈ (propagatedFrom order n summary callees).items ↔
      x ∈ summary.items ∨ ∃ callee ∈ callees, x ∈ callee.items := by
  induction callees generalizing n summary with
  | nil => simp [propagatedFrom]
  | cons callee callees ih => simp [propagatedFrom, ih, mem_items_absorb, or_assoc]

theorem propagatedFrom_identity (order : MergeOrder) (n : Nat) (summary : FunctionSummary)
    (callees : List FunctionSummary) :
    (propagatedFrom order n summary callees).symbol = summary.symbol ∧
      (propagatedFrom order n summary callees).calls = summary.calls := by
  induction callees generalizing n summary with
  | nil => exact ⟨rfl, rfl⟩
  | cons callee callees ih => exact ih (n + 1) (absorb order n summary callee)

def held (table : SummaryTable) (symbol : SymbolId) : List EvidenceItem :=
  ((table symbol).map (·.items)).getD []

variable {table : SummaryTable} {f : SymbolId} {current : FunctionSummary} {members : List SymbolId}
  {result : SummaryTable} {known : List SymbolId}

variable {summary : FunctionSummary} {symbol : SymbolId}

theorem held_some (h : table symbol = some summary) :
    held table symbol = summary.items := by
  simp [held, h]

variable {x : EvidenceItem}

theorem isSome_of_mem_held (h : x ∈ held table symbol) :
    (table symbol).isSome = true := by
  unfold held at h
  cases found : table symbol with
  | none => simp [found] at h
  | some summary => rfl

variable (order : MergeOrder) (edges : SymbolId → List SymbolId) (start : SummaryTable)

/-- A call edge whose target has a summary. -/
def Calls (caller callee : SymbolId) : Prop := callee ∈ edges caller ∧ (start callee).isSome = true

/-- Some function reachable from the caller, itself included, holds the item locally. -/
def Reached (caller : SymbolId) (x : EvidenceItem) : Prop :=
  ∃ callee, ReflTransGen (Calls edges start) caller callee ∧ x ∈ held start callee

/-- A table that holds at least the local evidence and at most the closure. -/
structure Grown (table : SummaryTable) : Prop where
  domain : ∀ f, (table f).isSome = (start f).isSome
  keyed : ∀ f summary, table f = some summary → summary.symbol = f
  calls : ∀ f summary first, table f = some summary → start f = some first →
    summary.calls = first.calls
  keeps : ∀ f x, x ∈ held start f → x ∈ held table f
  sound : ∀ f x, x ∈ held table f → Reached edges start f x

/-- Every member's propagation gives its own summary back. -/
def Settled (members : List SymbolId) (table : SummaryTable) : Prop :=
  ∀ member ∈ members, ∀ current, table member = some current →
    propagateMember order edges .unbounded table current = current

variable {order edges start}

theorem propagateMember_unbounded (table : SummaryTable) (current : FunctionSummary) :
    propagateMember order edges .unbounded table current =
      propagated order current ((edges current.symbol).filterMap table) := rfl

theorem mem_items_propagateMember (found : table f = some current) (keyed : current.symbol = f)
    (x : EvidenceItem) :
    x ∈ (propagateMember order edges .unbounded table current).items ↔
      x ∈ held table f ∨ ∃ g ∈ edges f, x ∈ held table g := by
  rw [propagateMember_unbounded, propagated, mem_items_propagatedFrom, held_some found, keyed]
  refine or_congr_right ?_
  simp only [mem_filterMap]
  constructor
  · rintro ⟨callee, ⟨g, edge, known⟩, member⟩
    exact ⟨g, edge, held_some known ▸ member⟩
  · rintro ⟨g, edge, member⟩
    obtain ⟨callee, known⟩ := Option.isSome_iff_exists.mp (isSome_of_mem_held member)
    exact ⟨callee, ⟨g, edge, known⟩, held_some known ▸ member⟩

theorem held_update (table : SummaryTable) (f g : SymbolId) (summary : FunctionSummary) :
    held (Function.update table f (some summary)) g =
      if g = f then summary.items else held table g := by
  unfold held
  by_cases same : g = f
  · simp [same]
  · simp [same]

theorem Grown.refl (keyed : ∀ f summary, start f = some summary → summary.symbol = f) :
    Grown edges start start where
  domain _ := rfl
  keyed := keyed
  calls f summary first h h' := by rw [h] at h'; exact congrArg _ (Option.some.inj h')
  keeps _ _ h := h
  sound f _ h := ⟨f, .refl, h⟩

theorem Grown.update (grown : Grown edges start table) (found : table f = some current) :
    Grown edges start (Function.update table f
      (some (propagateMember order edges .unbounded table current))) := by
  have keyed := grown.keyed f current found
  -- propagation changes neither the symbol nor the calls of a summary
  have identity : (propagateMember order edges .unbounded table current).symbol = current.symbol ∧
      (propagateMember order edges .unbounded table current).calls = current.calls := by
    rw [propagateMember_unbounded]
    exact propagatedFrom_identity order 0 current _
  constructor
  · intro g
    by_cases same : g = f
    · subst same
      simp [← grown.domain g, found]
    · rw [Function.update_of_ne same]
      exact grown.domain g
  · intro g summary h
    by_cases same : g = f
    · subst same
      simp only [Function.update_self, Option.some.injEq] at h
      rw [← h, identity.1, keyed]
    · rw [Function.update_of_ne same] at h
      exact grown.keyed g summary h
  · intro g summary first h h'
    by_cases same : g = f
    · subst same
      simp only [Function.update_self, Option.some.injEq] at h
      rw [← h, identity.2]
      exact grown.calls g current first found h'
    · rw [Function.update_of_ne same] at h
      exact grown.calls g summary first h h'
  · intro g x member
    rw [held_update]
    split
    next same =>
      subst same
      exact (mem_items_propagateMember found keyed x).mpr (.inl (grown.keeps g x member))
    next => exact grown.keeps g x member
  · intro g x member
    rw [held_update] at member
    split at member
    next same =>
      subst same
      rcases (mem_items_propagateMember found keyed x).mp member with own | ⟨callee, edge, theirs⟩
      · exact grown.sound g x own
      · -- what a callee holds was held at a function that the callee reaches
        obtain ⟨target, path, holds⟩ := grown.sound callee x theirs
        have known : (start callee).isSome = true := by
          rw [← grown.domain]
          exact isSome_of_mem_held theirs
        exact ⟨target, .head ⟨edge, known⟩ path, holds⟩
    next => exact grown.sound g x member

structure Advances (members : List SymbolId) (table result : SummaryTable) : Prop where
  frame : ∀ f, f ∉ members → result f = table f
  grows : ∀ f x, x ∈ held table f → x ∈ held result f

theorem Advances.refl (members : List SymbolId) (table : SummaryTable) :
    Advances members table table :=
  ⟨fun _ _ => rfl, fun _ _ h => h⟩

theorem Advances.trans {middle : SummaryTable} (h : Advances members table middle)
    (h' : Advances members middle result) : Advances members table result :=
  ⟨fun f outside => (h'.frame f outside).trans (h.frame f outside),
    fun f x member => h'.grows f x (h.grows f x member)⟩

theorem Advances.mono {more : List SymbolId} (h : Advances members table result)
    (subset : members ⊆ more) : Advances more table result :=
  ⟨fun f outside => h.frame f fun member => outside (subset member), h.grows⟩

theorem advances_update (grown : Grown edges start table) (found : table f = some current)
    (member : f ∈ members) :
    Advances members table (Function.update table f
      (some (propagateMember order edges .unbounded table current))) where
  frame g outside := Function.update_of_ne (by rintro rfl; exact outside member) _ _
  grows g x h := by
    rw [held_update]
    split
    next same =>
      subst same
      exact (mem_items_propagateMember found (grown.keyed _ _ found) x).mpr (.inl h)
    next => exact h

/-- A round adds only what is reached, and has settled where it changes nothing. -/
theorem propagateRound_spec (order : MergeOrder) (members : List SymbolId) (table : SummaryTable)
    (grown : Grown edges start table) :
    Grown edges start (propagateRound order edges .unbounded members table).1 ∧
      Advances members table (propagateRound order edges .unbounded members table).1 ∧
      ((propagateRound order edges .unbounded members table).2 = false →
        (propagateRound order edges .unbounded members table).1 = table ∧
          Settled order edges members table) := by
  -- on the members of the round; the table carries over from one to the next
  induction members generalizing table with
  | nil => exact ⟨grown, .refl _ _, fun _ => ⟨rfl, by simp [Settled]⟩⟩
  | cons member members ih =>
    have wider : members ⊆ member :: members := subset_cons_self _ _
    unfold propagateRound
    cases found : table member with
    | none =>
      obtain ⟨kept, advances, settled⟩ := ih table grown
      refine ⟨kept, advances.mono wider, fun unchanged => ⟨(settled unchanged).1, ?_⟩⟩
      intro m mem current known
      rcases mem_cons.mp mem with rfl | mem
      · simp [found] at known
      · exact (settled unchanged).2 m mem current known
    | some current =>
      simp only
      split
      -- a change makes the flag true, so nothing is left to show about a settled table
      next changed =>
        obtain ⟨kept, advances, -⟩ := ih _ (grown.update found)
        refine ⟨kept, (advances_update grown found mem_cons_self).trans (advances.mono wider),
          by simp⟩
      next same =>
        simp only [not_not] at same
        obtain ⟨kept, advances, settled⟩ := ih table grown
        refine ⟨kept, advances.mono wider, fun unchanged => ⟨(settled unchanged).1, ?_⟩⟩
        intro m mem summary known
        rcases mem_cons.mp mem with rfl | mem
        · rw [found] at known
          exact Option.some.inj known ▸ same
        · exact (settled unchanged).2 m mem summary known

theorem stabiliseLoop_succ (members : List SymbolId) (fuel rounds : Nat) (table : SummaryTable) :
    stabiliseLoop order edges .unbounded members (fuel + 1) rounds table =
      if (propagateRound order edges .unbounded members table).2 then
        stabiliseLoop order edges .unbounded members fuel (rounds + 1)
          (propagateRound order edges .unbounded members table).1
      else some (propagateRound order edges .unbounded members table).1 := by
  have expired : ExplorationBudget.unbounded.expired rounds = false := rfl
  have depth : ExplorationBudget.unbounded.depth = none := rfl
  rw [stabiliseLoop, expired, depth]
  generalize propagateRound order edges .unbounded members table = result
  obtain ⟨table, changed⟩ := result
  cases changed <;> simp

section
variable (grown : Grown edges start table)
include grown

/-- So have the rounds of a component when they end. -/
theorem stabiliseLoop_spec {fuel rounds : Nat}
    (h : stabiliseLoop order edges .unbounded members fuel rounds table = some result) :
    Grown edges start result ∧ Advances members table result ∧
      Settled order edges members result := by
  induction fuel generalizing rounds table with
  | zero => simp [stabiliseLoop] at h
  | succ fuel ih =>
    obtain ⟨kept, advances, settled⟩ := propagateRound_spec order members table grown
    rw [stabiliseLoop_succ] at h
    split at h
    next changed =>
      obtain ⟨kept', advances', fixed⟩ := ih kept h
      exact ⟨kept', advances.trans advances', fixed⟩
    next unchanged =>
      obtain ⟨same, fixed⟩ := settled (by simpa using unchanged)
      rw [same] at h
      obtain rfl := Option.some.inj h
      exact ⟨grown, .refl _ _, fixed⟩

theorem stabiliseComponent_spec {fuel : Nat}
    (h : stabiliseComponent order edges .unbounded fuel members table = some result) :
    Grown edges start result ∧ Advances members table result ∧
      Settled order edges members result := by
  unfold stabiliseComponent at h
  split at h
  next leaf =>
    obtain rfl := Option.some.inj h
    refine ⟨grown, .refl _ _, fun member mem current found => ?_⟩
    simp only [all_eq_true, decide_eq_true_eq] at leaf
    rw [propagateMember_unbounded, grown.keyed member current found, leaf member mem]
    rfl
  next => exact stabiliseLoop_spec grown h

private theorem held_of_settled (settled : Settled order edges members table)
    {g : SymbolId} (member : f ∈ members) (known : (start f).isSome = true) (edge : g ∈ edges f)
    (h : x ∈ held table g) : x ∈ held table f := by
  rw [← grown.domain] at known
  obtain ⟨current, found⟩ := Option.isSome_iff_exists.mp known
  rw [held_some found, ← settled f member current found]
  exact (mem_items_propagateMember found (grown.keyed f current found) x).mpr (.inr ⟨g, edge, h⟩)

private theorem closure_of_settled {before : List (List SymbolId)}
    (settled : Settled order edges members table) (inside : ∀ f ∈ members, (start f).isSome = true)
    (first : ∀ f ∈ members, ∀ g ∈ edges f, (start g).isSome = true →
      g ∈ members ∨ ∃ earlier ∈ before, g ∈ earlier)
    (done : ∀ earlier ∈ before, ∀ f ∈ earlier, ∀ x, Reached edges start f x → x ∈ held table f) :
    ∀ f ∈ members, ∀ x, Reached edges start f x → x ∈ held table f := by
  rintro f member x ⟨target, path, holds⟩
  -- along the path to the function that holds the item locally
  induction path using ReflTransGen.head_induction_on with
  | refl => exact grown.keeps target x holds
  | head call rest ih =>
    rename_i caller callee
    refine held_of_settled grown settled member (inside caller member) call.1 ?_
    rcases first caller member callee call.1 call.2 with here | ⟨earlier, mem, there⟩
    · exact ih here
    · exact done earlier mem callee there x ⟨target, rest, holds⟩

end

variable {components : List (List SymbolId)}

/-- Callees first, every component comes to hold all that it reaches. -/
theorem stabiliseAll_spec (domain : ∀ f, f ∈ known ↔ (start f).isSome = true) {fuel : Nat}
    (before : List (List SymbolId))
    (first : CalleeFirst edges known (before ++ components))
    (inside : ∀ component ∈ components, ∀ f ∈ component, f ∈ known)
    (done : ∀ earlier ∈ before, ∀ f ∈ earlier, ∀ x, Reached edges start f x → x ∈ held table f)
    (grown : Grown edges start table)
    (h : stabiliseAll order edges .unbounded fuel components table = some result) :
    Grown edges start result ∧
      (∀ component ∈ before ++ components, ∀ f ∈ component, ∀ x, Reached edges start f x →
        x ∈ held result f) ∧
      ∀ component ∈ components, ∃ table, Grown edges start table ∧
        Settled order edges component table ∧
        ∀ f ∈ component, ∀ x, Reached edges start f x → x ∈ held table f := by
  -- by the components that are left; those before have their closure already
  induction components generalizing before table with
  | nil =>
    obtain rfl := Option.some.inj h
    exact ⟨grown, by simpa using done, by simp⟩
  | cons component components ih =>
    rw [stabiliseAll, Option.bind_eq_some_iff] at h
    obtain ⟨middle, stable, rest⟩ := h
    obtain ⟨kept, advances, settled⟩ := stabiliseComponent_spec grown stable
    have kept_done : ∀ earlier ∈ before, ∀ f ∈ earlier, ∀ x, Reached edges start f x →
        x ∈ held middle f := fun earlier mem f member x reached =>
      advances.grows f x (done earlier mem f member x reached)
    -- callees lie in the component itself or in an earlier one
    have own := closure_of_settled kept settled
      (fun f member => (domain f).mp (inside component mem_cons_self f member))
      (fun f member g edge isKnown =>
        first before component components rfl f member g edge ((domain g).mpr isKnown))
      kept_done
    obtain ⟨grown', all, each⟩ := ih (before ++ [component]) (by simpa using first)
      (fun c mem => inside c (mem_cons_of_mem _ mem))
      (fun earlier mem f member x reached => by
        rcases mem_append.mp mem with mem | mem
        · exact kept_done earlier mem f member x reached
        · rw [mem_singleton] at mem
          exact own f (mem ▸ member) x reached)
      kept rest
    refine ⟨grown', fun c mem => all c (by simpa using mem), fun c mem => ?_⟩
    rcases mem_cons.mp mem with rfl | mem
    · exact ⟨middle, kept, settled, own⟩
    · exact each c mem

/-- Both tuples are sorted by their keys and without repetition. -/
structure FunctionSummary.Arranged (summary : FunctionSummary) : Prop where
  operations : Collections.Arranged Operation.sortKey summary.operations
  witnesses : Collections.Arranged Discharge.sortKey summary.witnesses

/-- Merging evidence of the function's closure that is already there changes nothing. -/
structure MergesSettle (order : MergeOrder) (edges : SymbolId → List SymbolId)
    (start : SummaryTable) (f : SymbolId) : Prop where
  operations : ∀ n left right, Collections.Arranged Operation.sortKey left →
    (∀ operation ∈ left, Reached edges start f (.operation operation)) → right ⊆ left →
    mergeOperations order.operations n left right = left
  witnesses : ∀ n left right, Collections.Arranged Discharge.sortKey left →
    (∀ witness ∈ left, Reached edges start f (.witness witness)) → right ⊆ left →
    mergeWitnesses order.witnesses n left right = left

private theorem joinCompleteness_eq_left {left right : Completeness}
    (complete : left.isComplete = true → right.isComplete = true)
    (reasons : right.reasons ⊆ left.reasons) : joinCompleteness left right = left := by
  have flag : (left.isComplete && right.isComplete) = left.isComplete := by
    cases known : left.isComplete with
    | false => rfl
    | true => simp [complete known]
  have none : right.reasons.removeAll left.reasons = [] := by
    rw [List.removeAll, filter_eq_nil_iff]
    intro reason member
    simpa using reasons member
  have same : (left.reasons ++ right.reasons).eraseDups = left.reasons := by
    rw [eraseDups_append, none, eraseDups_of_nodup _ left.nodup]
    simp
  cases left
  simp only [joinCompleteness, Completeness.ofReasons, Completeness.mk.injEq] at *
  exact ⟨flag, same⟩

theorem arranged_absorb (order : MergeOrder) (n : Nat) (summary callee : FunctionSummary) :
    (absorb order n summary callee).Arranged :=
  ⟨arranged_mergeBy _ _ _ _ _, arranged_mergeBy _ _ _ _ _⟩

theorem arranged_propagatedFrom (order : MergeOrder) (n : Nat) (summary : FunctionSummary)
    (callees : List FunctionSummary) (h : callees = [] → summary.Arranged) :
    (propagatedFrom order n summary callees).Arranged := by
  induction callees generalizing n summary with
  | nil => exact h rfl
  | cons callee callees ih => exact ih _ _ fun _ => arranged_absorb order n summary callee

private theorem propagatedFrom_eq_self (settle : MergesSettle order edges start f) (n : Nat)
    {callees : List FunctionSummary} (arranged : summary.Arranged)
    (sound : ∀ x ∈ summary.items, Reached edges start f x)
    (subset : ∀ callee ∈ callees, ∀ x ∈ callee.items, x ∈ summary.items) :
    propagatedFrom order n summary callees = summary := by
  induction callees generalizing n with
  | nil => rfl
  | cons callee callees ih =>
    have here := subset callee mem_cons_self
    have operations := settle.operations n _ callee.operations arranged.operations
      (fun o member => sound _ ((mem_items_operation _ _).mpr member))
      (fun o member => (mem_items_operation _ _).mp (here _ ((mem_items_operation _ _).mpr member)))
    have witnesses := settle.witnesses n _ callee.witnesses arranged.witnesses
      (fun w member => sound _ ((mem_items_witness _ _).mpr member))
      (fun w member => (mem_items_witness _ _).mp (here _ ((mem_items_witness _ _).mpr member)))
    have completeness : joinCompleteness summary.completeness callee.completeness =
        summary.completeness := by
      refine joinCompleteness_eq_left (fun complete => ?_) fun r member =>
        (mem_items_reason _ _).mp (here _ ((mem_items_reason _ _).mpr member))
      by_contra incomplete
      have := here .incomplete ((mem_items_incomplete _).mpr (by simpa using incomplete))
      rw [mem_items_incomplete, complete] at this
      contradiction
    have same : absorb order n summary callee = summary := by
      rw [absorb, operations, witnesses, completeness]
    rw [propagatedFrom, same]
    exact ih (n + 1) fun callee member => subset callee (mem_cons_of_mem _ member)

def ArrangedMembers (edges : SymbolId → List SymbolId) (start : SummaryTable)
    (members : List SymbolId) (table : SummaryTable) : Prop :=
  ∀ member ∈ members, (∃ callee, Calls edges start member callee) →
    ∀ current, table member = some current → current.Arranged

private theorem filterMap_eq_nil (grown : Grown edges start table)
    (none : ¬ ∃ callee, Calls edges start f callee) : (edges f).filterMap table = [] := by
  rw [filterMap_eq_nil_iff]
  intro g edge
  rw [← Option.not_isSome_iff_eq_none, grown.domain]
  exact fun known => none ⟨g, edge, known⟩

theorem arranged_propagateMember (grown : Grown edges start table) (found : table f = some current)
    (h : (∃ callee, Calls edges start f callee) ∨ current.Arranged) :
    (propagateMember order edges .unbounded table current).Arranged := by
  rw [propagateMember_unbounded, grown.keyed f current found]
  refine arranged_propagatedFrom _ _ _ _ fun none => h.resolve_left ?_
  rintro ⟨g, edge, known⟩
  rw [filterMap_eq_nil_iff] at none
  rw [← grown.domain, none g edge] at known
  simp at known

theorem propagateRound_arranged (members : List SymbolId) (grown : Grown edges start table)
    (h : ∀ current, table f = some current → current.Arranged) :
    ∀ current, (propagateRound order edges .unbounded members table).1 f = some current →
      current.Arranged := by
  induction members generalizing table with
  | nil => exact h
  | cons member members ih =>
    unfold propagateRound
    cases found : table member with
    | none => exact ih grown h
    | some current =>
      simp only
      split
      next =>
        refine ih (grown.update found) fun summary known => ?_
        by_cases same : f = member
        · subst same
          rw [Function.update_self, Option.some.injEq] at known
          exact known ▸ arranged_propagateMember grown found (.inr (h current found))
        · rw [Function.update_of_ne same] at known
          exact h summary known
      next => exact ih grown h

theorem propagateRound_arrangedMembers (members : List SymbolId) (grown : Grown edges start table) :
    ArrangedMembers edges start members (propagateRound order edges .unbounded members table).1 := by
  induction members generalizing table with
  | nil => simp [ArrangedMembers]
  | cons member members ih =>
    unfold propagateRound
    intro f mem callee
    cases found : table member with
    | none =>
      simp only
      rcases mem_cons.mp mem with rfl | mem
      · exact propagateRound_arranged members grown (by simp [found])
      · exact ih grown f mem callee
    | some current =>
      simp only
      split
      next =>
        rcases mem_cons.mp mem with rfl | mem
        · refine propagateRound_arranged members (grown.update found) fun summary known => ?_
          rw [Function.update_self, Option.some.injEq] at known
          exact known ▸ arranged_propagateMember grown found (.inl callee)
        · exact ih (grown.update found) f mem callee
      next same =>
        simp only [not_not] at same
        rcases mem_cons.mp mem with rfl | mem
        · refine propagateRound_arranged members grown fun summary known => ?_
          rw [found, Option.some.injEq] at known
          rw [← known, ← same]
          exact arranged_propagateMember grown found (.inl callee)
        · exact ih grown f mem callee

theorem propagateRound_adds (grown : Grown edges start table)
    (arranged : ArrangedMembers edges start members table)
    (settle : ∀ f ∈ members, (∃ callee, Calls edges start f callee) →
      MergesSettle order edges start f)
    (changed : (propagateRound order edges .unbounded members table).2 = true) :
    ∃ f ∈ members, ∃ x, x ∈ held (propagateRound order edges .unbounded members table).1 f ∧
      x ∉ held table f := by
  induction members with
  | nil => simp [propagateRound] at changed
  | cons member members ih =>
    unfold propagateRound at changed ⊢
    have rest := ih (fun f mem => arranged f (mem_cons_of_mem _ mem))
      (fun f mem => settle f (mem_cons_of_mem _ mem))
    cases found : table member with
    | none =>
      simp only [found] at changed ⊢
      obtain ⟨f, mem, x, added⟩ := rest changed
      exact ⟨f, mem_cons_of_mem _ mem, x, added⟩
    | some current =>
      simp only [found] at changed ⊢
      split
      next differs =>
        have keyed := grown.keyed member current found
        -- were nothing added, the propagation would have settled
        have adds : ∃ x ∈ (propagateMember order edges .unbounded table current).items,
            x ∉ current.items := by
          by_contra nothing
          simp only [not_exists, not_and, not_not] at nothing
          apply differs
          by_cases callee : ∃ callee, Calls edges start member callee
          · refine propagatedFrom_eq_self (settle member mem_cons_self callee) 0
              (arranged member mem_cons_self callee current found)
              (fun x h => grown.sound member x (held_some found ▸ h)) fun c mem x h => ?_
            refine nothing x ((mem_items_propagateMember found keyed x).mpr (.inr ?_))
            obtain ⟨g, edge, known⟩ := mem_filterMap.mp mem
            exact ⟨g, keyed ▸ edge, held_some known ▸ h⟩
          · rw [propagateMember_unbounded, keyed, filterMap_eq_nil grown callee]
            rfl
        obtain ⟨x, new, old⟩ := adds
        refine ⟨member, mem_cons_self, x, ?_, held_some found ▸ old⟩
        refine (propagateRound_spec order members _ (grown.update found)).2.1.grows member x ?_
        rw [held_update, if_pos rfl]
        exact new
      next same =>
        rw [if_neg same] at changed
        obtain ⟨f, mem, x, added⟩ := rest changed
        exact ⟨f, mem_cons_of_mem _ mem, x, added⟩

def weight (members : List SymbolId) (table : SummaryTable) : Nat :=
  (members.map fun f => (held table f).toFinset.card).sum

theorem weight_lt (advances : Advances members table result) (member : f ∈ members)
    (new : x ∈ held result f) (old : x ∉ held table f) :
    weight members table < weight members result := by
  have subset : ∀ g, (held table g).toFinset ⊆ (held result g).toFinset := fun g y h =>
    mem_toFinset.mpr (advances.grows g y (mem_toFinset.mp h))
  refine sum_lt_sum _ _ (fun g _ => Finset.card_le_card (subset g)) ⟨f, member, ?_⟩
  refine Finset.card_lt_card ⟨subset f, fun same => old ?_⟩
  exact mem_toFinset.mp (same (mem_toFinset.mpr new))

section
variable (domain : ∀ f, f ∈ known ↔ (start f).isSome = true)
include domain

private theorem weight_le (members : List SymbolId)
    (grown : Grown edges start table) :
    weight members table ≤ members.length * (known.flatMap (held start)).toFinset.card := by
  have each : ∀ f, (held table f).toFinset.card ≤ (known.flatMap (held start)).toFinset.card := by
    refine fun f => Finset.card_le_card fun x h => ?_
    obtain ⟨g, -, holds⟩ := grown.sound f x (mem_toFinset.mp h)
    rw [mem_toFinset, mem_flatMap]
    exact ⟨g, (domain g).mpr (isSome_of_mem_held holds), holds⟩
  have bound := sum_le_card_nsmul (members.map fun f => (held table f).toFinset.card) _
    (by simpa using fun f _ => each f)
  simpa [weight] using bound

private theorem stabiliseLoop_returns_arranged
    (settle : ∀ f ∈ members, (∃ callee, Calls edges start f callee) →
      MergesSettle order edges start f) (left : Nat) (rounds : Nat) (grown : Grown edges start table)
    (arranged : ArrangedMembers edges start members table)
    (bound : members.length * (known.flatMap (held start)).toFinset.card ≤
      weight members table + left) :
    (stabiliseLoop order edges .unbounded members (left + 1) rounds table).isSome = true := by
  induction left generalizing rounds table with
  | zero =>
    rw [stabiliseLoop_succ]
    split
    next changed =>
      obtain ⟨f, member, x, new, old⟩ := propagateRound_adds grown arranged settle changed
      obtain ⟨kept, advances, -⟩ := propagateRound_spec order members table grown
      have := weight_lt advances member new old
      have := weight_le domain members kept
      omega
    next => rfl
  | succ left ih =>
    rw [stabiliseLoop_succ]
    split
    next changed =>
      obtain ⟨f, member, x, new, old⟩ := propagateRound_adds grown arranged settle changed
      obtain ⟨kept, advances, -⟩ := propagateRound_spec order members table grown
      have := weight_lt advances member new old
      exact ih (rounds + 1) kept (propagateRound_arrangedMembers members grown) (by omega)
    next => rfl

/-- The rounds of a component end. The first one may only arrange the local evidence. -/
theorem stabiliseLoop_returns (settle : ∀ f ∈ members, (∃ callee, Calls edges start f callee) →
      MergesSettle order edges start f) (grown : Grown edges start table) :
    ∃ fuel, (stabiliseLoop order edges .unbounded members fuel 0 table).isSome = true := by
  refine ⟨members.length * (known.flatMap (held start)).toFinset.card + 1 + 1, ?_⟩
  rw [stabiliseLoop_succ]
  split
  next =>
    obtain ⟨kept, -⟩ := propagateRound_spec order members table grown
    exact stabiliseLoop_returns_arranged domain settle _ _ kept
      (propagateRound_arrangedMembers members grown) (Nat.le_add_left _ _)
  next => rfl

/-! More fuel gives the same result -/

end

private theorem stabiliseLoop_mono {fuel rounds more : Nat} (le : fuel ≤ more)
    (h : stabiliseLoop order edges .unbounded members fuel rounds table = some result) :
    stabiliseLoop order edges .unbounded members more rounds table = some result := by
  induction fuel generalizing rounds table more with
  | zero => simp [stabiliseLoop] at h
  | succ fuel ih =>
    obtain ⟨more, rfl⟩ : ∃ m, more = m + 1 := ⟨more - 1, by omega⟩
    rw [stabiliseLoop_succ] at h ⊢
    split at h
    next changed => rw [if_pos changed]; exact ih (by omega) h
    next unchanged => rw [if_neg unchanged]; exact h

theorem stabiliseComponent_mono {fuel more : Nat} (le : fuel ≤ more)
    (h : stabiliseComponent order edges .unbounded fuel members table = some result) :
    stabiliseComponent order edges .unbounded more members table = some result := by
  unfold stabiliseComponent at h ⊢
  split at h
  next leaf => rw [if_pos leaf]; exact h
  next calls => rw [if_neg calls]; exact stabiliseLoop_mono le h

theorem stabiliseAll_mono {fuel more : Nat} (le : fuel ≤ more)
    (h : stabiliseAll order edges .unbounded fuel components table = some result) :
    stabiliseAll order edges .unbounded more components table = some result := by
  induction components generalizing table with
  | nil => exact h
  | cons component components ih =>
    rw [stabiliseAll, Option.bind_eq_some_iff] at h ⊢
    obtain ⟨middle, stable, rest⟩ := h
    exact ⟨middle, stabiliseComponent_mono le stable, ih rest⟩

/-- Where the merges settle, some fuel is enough for all components. -/
theorem stabiliseAll_returns (domain : ∀ f, f ∈ known ↔ (start f).isSome = true)
    (settle : ∀ f, (∃ callee, Calls edges start f callee) → MergesSettle order edges start f)
    (components : List (List SymbolId)) (grown : Grown edges start table) :
    ∃ fuel, (stabiliseAll order edges .unbounded fuel components table).isSome = true := by
  induction components generalizing table with
  | nil => exact ⟨0, rfl⟩
  | cons component components ih =>
    obtain ⟨fuel, ends⟩ : ∃ fuel,
        (stabiliseComponent order edges .unbounded fuel component table).isSome = true := by
      unfold stabiliseComponent
      split
      · exact ⟨0, rfl⟩
      · exact stabiliseLoop_returns domain (fun f _ => settle f) grown
    obtain ⟨middle, stable⟩ := Option.isSome_iff_exists.mp ends
    obtain ⟨fuel', ends'⟩ := ih (stabiliseComponent_spec grown stable).1
    obtain ⟨result, rest⟩ := Option.isSome_iff_exists.mp ends'
    refine ⟨max fuel fuel', Option.isSome_iff_exists.mpr ⟨result, ?_⟩⟩
    rw [stabiliseAll, Option.bind_eq_some_iff]
    exact ⟨middle, stabiliseComponent_mono (le_max_left _ _) stable,
      stabiliseAll_mono (le_max_right _ _) rest⟩

end OpenUltraSast.Obligations
