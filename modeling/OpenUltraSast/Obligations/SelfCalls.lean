import OpenUltraSast.Obligations.Check
import OpenUltraSast.Obligations.Resolution

/-!
# Calls on the own object

The symbol index knows the class of every method and the base names of every class,
but a call is resolved by the module it stands in, not by its class.
-/

namespace OpenUltraSast.Obligations

open Collections Semantic List

structure DeclarationScope where
  functionName : String
  params : List String
  enclosingType : Option String
  enclosingBaseTypes : List String
deriving DecidableEq, Repr

/-- What the index reads of one file: its declarations, and its classes with their base
names. -/
structure ScopedFile where
  path : String
  scopes : List DeclarationScope
  classBases : List (String × List String)
deriving DecidableEq, Repr

/-- `_symbol_id`: parameter names are the signature when there are any. -/
def symbolId (module : String) (scope : DeclarationScope) : SymbolId where
  module := module
  enclosingType := scope.enclosingType
  name := scope.functionName
  signature := if scope.params = [] then none else some scope.params

/-- `_inheritance_edges`: the base names of a class, from any method declared in it. -/
def inheritanceEdges (module : String) (scopes : List DeclarationScope) :
    List ((String × String) × List String) :=
  scopes.filterMap fun scope =>
    scope.enclosingType.map fun type => ((module, type), scope.enclosingBaseTypes)

/-- The index with its declarations and the base names of each class by module; a later
entry of a class replaces an earlier one. -/
structure RepositoryIndex extends SymbolIndex where
  declarations : List SymbolId
  baseTypes : List ((String × String) × List String)

def SymbolIndex.build (files : List ScopedFile) : RepositoryIndex :=
  let declarations := sortedSymbols
    (files.flatMap fun file => file.scopes.map (symbolId file.path)).eraseDups
  { byName := fun name => declarations.filter (·.name = name)
    declarations := declarations
    baseTypes := files.flatMap fun file =>
      inheritanceEdges file.path file.scopes ++
        file.classBases.map fun (type, bases) => ((file.path, type), bases) }

private theorem nodup_byName_build (files : List ScopedFile) (name : String) :
    ((SymbolIndex.build files).byName name).Nodup := by
  apply List.Nodup.filter
  rw [sortedSymbols, (perm_insertionSort _ _).nodup_iff]
  exact nodup_eraseDups _

namespace RepositoryIndex

variable (index : RepositoryIndex)

def basesOf (type : String × String) : List String := (lastValue index.baseTypes type).getD []

/-- One class names another as a base. A base name does not say which module it means, so
any class of the repository with that name counts. -/
def NamesBase (type base : String × String) : Prop :=
  base.2 ∈ index.basesOf type ∧ base ∈ index.baseTypes.map (·.1)

/-- The method is one of the class or of a repository-defined ancestor of it. -/
def MethodOf (type : String × String) (method : SymbolId) : Prop :=
  ∃ owner, method.enclosingType = some owner ∧
    Relation.ReflTransGen index.NamesBase type (method.module, owner)

/-- A self-call inside the class names the right method: when the target set is complete,
its single target is a method of the class or of an ancestor. -/
def SelfCallRight (module type : String) (call : CallSite) : Prop :=
  (resolveCall call module index.toSymbolIndex).completeness.isComplete = true →
    ∃ target, (resolveCall call module index.toSymbolIndex).targets = [target] ∧
      index.MethodOf (module, type) target

/-- Another method of the module has the same name, and the call's number of arguments
does not prefer the first one. -/
def Rivalled (module : String) (call : CallSite) (method : SymbolId) : Prop :=
  ∃ other ∈ index.byName call.name, other ≠ method ∧ other.module = module ∧
    other.enclosingType.isSome ∧ ∀ arity, call.arity = some arity →
      (method.signature.getD []).length = arity → (other.signature.getD []).length = arity

end RepositoryIndex

theorem eq_singleton_iff {l : List SymbolId} (nodup : l.Nodup) (x : SymbolId) :
    l = [x] ↔ x ∈ l ∧ ∀ y ∈ l, y = x := by
  constructor
  · rintro rfl
    simp
  · rintro ⟨member, only⟩
    have replicate := eq_replicate_iff.mpr ⟨rfl, only⟩
    have length : l.length = 1 := by
      have le : l.length ≤ 1 := by
        rw [replicate] at nodup
        exact nodup_replicate.mp nodup
      have pos := length_pos_of_mem member
      omega
    rw [replicate, length]
    rfl

theorem arityNarrow_eq_singleton {symbols : List SymbolId} (nodup : symbols.Nodup)
    (arity : Option Nat) (x : SymbolId) :
    arityNarrow symbols arity = [x] ↔ x ∈ symbols ∧ ∀ y ∈ symbols, y ≠ x →
      ∃ n, arity = some n ∧ (x.signature.getD []).length = n ∧
        (y.signature.getD []).length ≠ n := by
  cases arity with
  | none =>
    rw [arityNarrow, eq_singleton_iff nodup]
    refine and_congr Iff.rfl (forall₂_congr fun y _ => ?_)
    simp
  | some n =>
    simp only [arityNarrow]
    split
    next empty =>
      -- No symbol has that many parameters, so all of them survive.
      have none_ : ∀ y ∈ symbols, (y.signature.getD []).length ≠ n := by
        simpa [filter_eq_nil_iff] using empty
      rw [eq_singleton_iff nodup]
      refine and_congr_right fun member => forall₂_congr fun y _ => ?_
      simp only [Option.some.injEq]
      constructor
      · exact fun eq ne => absurd eq ne
      · intro other
        by_contra ne
        obtain ⟨_, rfl, same, -⟩ := other ne
        exact none_ x member same
    next nonempty =>
      rw [eq_singleton_iff (nodup.filter _)]
      simp only [mem_filter, decide_eq_true_eq, Option.some.injEq]
      constructor
      · rintro ⟨⟨member, same⟩, only⟩
        exact ⟨member, fun y found ne => ⟨n, rfl, same, fun eq => ne (only y ⟨found, eq⟩)⟩⟩
      · rintro ⟨member, others⟩
        -- Some symbol has that many parameters, and it can only be this one.
        obtain ⟨y, found⟩ := exists_mem_of_ne_nil _ nonempty
        simp only [mem_filter, decide_eq_true_eq] at found
        have same : (x.signature.getD []).length = n := by
          by_cases eq : y = x
          · exact eq ▸ found.2
          · obtain ⟨_, rfl, same, -⟩ := others y found.1 eq
            exact same
        refine ⟨⟨member, same⟩, ?_⟩
        intro z survives
        by_contra ne
        obtain ⟨_, rfl, -, differs⟩ := others z survives.1 ne
        exact differs survives.2

theorem narrowedOrUnresolved_complete (methods : List SymbolId) (arity : Option Nat)
    (reason : String) :
    (narrowedOrUnresolved methods arity reason).completeness.isComplete = true ↔
      ∃ target, arityNarrow methods arity = [target] ∧
        (narrowedOrUnresolved methods arity reason).targets = [target] := by
  simp only [narrowedOrUnresolved]
  split
  next unmatched =>
    simp only [Bool.and_eq_true, decide_eq_true_eq] at unmatched
    simp [CallTargetSet.incomplete, Completeness.ofReasons, unmatched.2]
  next =>
    -- One target is complete; none, or several, are not.
    rcases arityNarrow methods arity with _ | ⟨target, _ | ⟨second, rest⟩⟩
    · simp [finishTargets, CallTargetSet.incomplete, Completeness.ofReasons]
    · simp [finishTargets, CallTargetSet.complete, Completeness.complete]
    · simp [finishTargets, CallTargetSet.incomplete, Completeness.ofReasons]

namespace RepositoryIndex

/-- A self-call names the right method exactly when every method of the module with that
name in an unrelated class has a rival. -/
theorem selfCallRight_iff_rivalled (files : List ScopedFile) (module type : String)
    (call : CallSite) (self : strip (call.receiver.getD "") ∈ selfReceivers) :
    (SymbolIndex.build files).SelfCallRight module type call ↔
      ∀ method ∈ (SymbolIndex.build files).byName call.name, method.module = module →
        method.enclosingType.isSome →
        ¬ (SymbolIndex.build files).MethodOf (module, type) method →
        (SymbolIndex.build files).Rivalled module call method := by
  let index := SymbolIndex.build files
  let methods := (index.byName call.name).filter fun symbol =>
    symbol.enclosingType.isSome && symbol.module = module
  have nodup : methods.Nodup := (nodup_byName_build files call.name).filter _
  -- A call on the own object is resolved among the methods of the module.
  have resolved : resolveCall call module index.toSymbolIndex =
      narrowedOrUnresolved methods call.arity "receiver_self_shared_across_classes" := by
    have present : strip (call.receiver.getD "") ≠ "" := by
      intro empty
      rw [empty] at self
      revert self
      decide
    simp only [resolveCall, present, if_false, self, if_true, methodTargets]
    rfl
  have mem_methods : ∀ symbol, symbol ∈ methods ↔
      symbol ∈ index.byName call.name ∧ symbol.module = module ∧ symbol.enclosingType.isSome := by
    intro symbol
    simp only [methods, mem_filter, Bool.and_eq_true, decide_eq_true_eq]
    exact and_congr_right fun _ => and_comm
  simp only [SelfCallRight]
  rw [show SymbolIndex.build files = index from rfl, resolved, narrowedOrUnresolved_complete]
  constructor
  · intro right method named inModule inClass unrelated
    -- Without a rival the method is the one target, and it is unrelated.
    by_contra alone
    have only : arityNarrow methods call.arity = [method] := by
      rw [arityNarrow_eq_singleton nodup]
      refine ⟨(mem_methods method).mpr ⟨named, inModule, inClass⟩, fun other found ne => ?_⟩
      by_contra survives
      push Not at survives
      obtain ⟨named', inModule', inClass'⟩ := (mem_methods other).mp found
      exact alone ⟨other, named', ne, inModule', inClass', survives⟩
    have targets : (narrowedOrUnresolved methods call.arity
        "receiver_self_shared_across_classes").targets = [method] := by
      simp [narrowedOrUnresolved, only, finishTargets, CallTargetSet.complete]
    obtain ⟨target, found, owned⟩ := right ⟨method, only, targets⟩
    rw [targets] at found
    cases found
    exact unrelated owned
  · rintro rivalled ⟨target, only, targets⟩
    refine ⟨target, targets, ?_⟩
    -- The target would have a rival, which would have survived as well.
    by_contra unrelated
    obtain ⟨member, others⟩ := (arityNarrow_eq_singleton nodup _ _).mp only
    obtain ⟨named, inModule, inClass⟩ := (mem_methods target).mp member
    obtain ⟨other, named', ne, inModule', inClass', survives⟩ :=
      rivalled target named inModule inClass unrelated
    obtain ⟨n, arity, same, differs⟩ :=
      others other ((mem_methods other).mpr ⟨named', inModule', inClass'⟩) ne
    exact differs (survives n arity same)

/-- Two unrelated classes of a PHP file. The second parameter of `Page.save` has a default value. -/
def twoStores : List ScopedFile :=
  [⟨"page.php", [⟨"save", ["$text", "$flush"], some "Page", []⟩, ⟨"publish", ["$text"], some "Page", []⟩,
      ⟨"save", ["$text"], some "Draft", []⟩],
    [("Page", []), ("Draft", [])]⟩]

/-- `$this->save($text)` in `Page.publish`. -/
def savePage : CallSite := { name := "save", line := 5, receiver := some "$this", arity := some 1 }

theorem savePage_rivalled_iff :
    (SymbolIndex.build twoStores).SelfCallRight "page.php" "Page" savePage ↔
      ∀ method ∈ (SymbolIndex.build twoStores).byName "save", method.module = "page.php" →
        method.enclosingType.isSome →
        ¬ (SymbolIndex.build twoStores).MethodOf ("page.php", "Page") method →
        (SymbolIndex.build twoStores).Rivalled "page.php" savePage method :=
  selfCallRight_iff_rivalled twoStores "page.php" "Page" savePage (by decide)

/-- The call inside `Page` is complete and names `Draft.save`. -/
theorem savePage_names_draft :
    ¬ (SymbolIndex.build twoStores).SelfCallRight "page.php" "Page" savePage := by
  intro right
  have resolved : resolveCall savePage "page.php" (SymbolIndex.build twoStores).toSymbolIndex =
      .complete [⟨"page.php", some "Draft", "save", some ["$text"]⟩] := by decide
  rw [SelfCallRight, resolved] at right
  obtain ⟨target, targets, owner, named, path⟩ := right rfl
  cases targets
  cases named
  -- `Page` names no base at all.
  have bases : (SymbolIndex.build twoStores).basesOf ("page.php", "Page") = [] := by decide
  rcases path.cases_head with same | ⟨step, first, -⟩
  · simp at same
  · simp [NamesBase, bases] at first

end RepositoryIndex

end OpenUltraSast.Obligations
