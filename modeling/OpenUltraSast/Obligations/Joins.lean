import OpenUltraSast.Library.SetMerge
import OpenUltraSast.Obligations.Witness

/-!
# Joins of bindings

The bindings of alternative paths or call targets are joined to one. A witness of the joined binding
is compared with what the alternatives say one by one.
-/

namespace OpenUltraSast.Obligations

open Collections List

variable {resource : ResourceRef}

namespace ResourceRef

def Concrete (resource : ResourceRef) : Prop :=
  resource.kind ≠ .unknown ∧ resource.kind ≠ .requestGlobal

private theorem values_ne_nil (concrete : resource.Concrete) : resource.values ≠ [] := by
  obtain ⟨kind, values, sorted, admits⟩ := resource
  cases kind with
  | exact => exact ne_nil_of_length_pos (by rw [admits]; exact Nat.one_pos)
  | aliases => exact admits
  | requestGlobal => exact absurd rfl concrete.2
  | unknown => exact absurd rfl concrete.1

/-- The alias set of two bindings that name resources. It has tokens, so building it cannot fail. -/
def union (left right : ResourceRef) (concrete : left.Concrete) : ResourceRef where
  kind := .aliases
  values := sortedSet (left.values ++ right.values)
  sorted := sortedSet_pairwise _
  admits := by
    obtain ⟨token, member⟩ := exists_mem_of_ne_nil _ (values_ne_nil concrete)
    exact ne_nil_of_mem ((mem_sortedSet _ _).mpr (mem_append_left _ member))

end ResourceRef

open ResourceRef

/-- `join_resources(left, right)`. -/
def joinResources (left right : ResourceRef) : ResourceRef :=
  if unknown : left.kind = .unknown ∨ right.kind = .unknown then unknownResource
  else if scope : left.kind = .requestGlobal ∨ right.kind = .requestGlobal then requestGlobalResource
  else if left.kind = .exact ∧ right.kind = .exact ∧ left.values = right.values then left
  else left.union right ⟨fun is => unknown (.inl is), fun is => scope (.inl is)⟩

/-- `join_authorities(left, right)`. -/
def joinAuthorities (left right : AuthorityRef) : AuthorityRef :=
  if unknown : left.isUnknown = true ∨ right.isUnknown = true then .unknownAuthority
  else if left.values = right.values then left
  else
    { values := sortedSet (left.values ++ right.values)
      isUnknown := false
      sorted := sortedSet_pairwise _
      named := by
        rw [mem_sortedSet, mem_append]
        exact fun held => held.elim left.named right.named
      shaped := by
        have some_ : left.values ≠ [] := fun none_ => unknown (.inl (left.shaped.mpr none_))
        obtain ⟨name, member⟩ := exists_mem_of_ne_nil _ some_
        have joined : name ∈ sortedSet (left.values ++ right.values) :=
          (mem_sortedSet _ _).mpr (mem_append_left _ member)
        simp [ne_nil_of_mem joined] }

namespace ResourceRef

theorem ext_of_mem {r s : ResourceRef} (kind : r.kind = s.kind)
    (values : ∀ token, token ∈ r.values ↔ token ∈ s.values) : r = s := by
  have same : r.values = s.values := r.sorted.eq_of_mem_iff s.sorted values
  cases r
  cases s
  cases kind
  cases same
  rfl

theorem values_of_not_concrete {r : ResourceRef} (other : ¬ r.Concrete) : r.values = [] := by
  obtain ⟨kind, values, sorted, admits⟩ := r
  cases kind with
  | exact => exact absurd ⟨nofun, nofun⟩ other
  | aliases => exact absurd ⟨nofun, nofun⟩ other
  | requestGlobal => exact admits
  | unknown => exact admits

end ResourceRef

section Resources
variable {a b c : ResourceRef}

theorem joinResources_unknown_iff :
    (joinResources a b).kind = .unknown ↔ a.kind = .unknown ∨ b.kind = .unknown := by
  rw [joinResources]
  split
  next unknown => simp [unknown, unknownResource]
  next unknown =>
    split
    next => simp [unknown, requestGlobalResource]
    next =>
      split
      next exact_ => simp [exact_.1, exact_.2.1]
      next => simp [unknown, union]

theorem joinResources_requestGlobal_iff : (joinResources a b).kind = .requestGlobal ↔
    ¬ (a.kind = .unknown ∨ b.kind = .unknown) ∧
      (a.kind = .requestGlobal ∨ b.kind = .requestGlobal) := by
  rw [joinResources]
  split
  next unknown => simp [unknown, unknownResource]
  next unknown =>
    split
    next scope => simp [unknown, scope, requestGlobalResource]
    next scope =>
      split
      next exact_ => simp [exact_.1, exact_.2.1]
      next => simp [scope, union]

theorem joinResources_concrete_iff : (joinResources a b).Concrete ↔ a.Concrete ∧ b.Concrete := by
  rw [Concrete, Concrete, Concrete, ne_eq, ne_eq, joinResources_unknown_iff,
    joinResources_requestGlobal_iff]
  tauto

theorem joinResources_exact_iff :
    (joinResources a b).kind = .exact ↔ a = b ∧ a.kind = .exact := by
  rw [joinResources]
  split
  next unknown =>
    constructor
    · simp [unknownResource]
    · rintro ⟨rfl, exact_⟩
      simp [exact_] at unknown
  next =>
    split
    next scope =>
      constructor
      · simp [requestGlobalResource]
      · rintro ⟨rfl, exact_⟩
        simp [exact_] at scope
    next =>
      split
      next same =>
        have eq : a = b := ext_of_mem (same.1.trans same.2.1.symm) fun token => by rw [same.2.2]
        subst eq
        exact ⟨fun _ => ⟨rfl, same.1⟩, fun _ => same.1⟩
      next other =>
        constructor
        · simp [union]
        · rintro ⟨rfl, exact_⟩
          exact absurd ⟨exact_, exact_, rfl⟩ other

theorem mem_joinResources {token : String} : token ∈ (joinResources a b).values ↔
    (a.Concrete ∧ b.Concrete) ∧ (token ∈ a.values ∨ token ∈ b.values) := by
  by_cases concrete : a.Concrete ∧ b.Concrete
  · obtain ⟨⟨known, own⟩, known', own'⟩ := concrete
    rw [joinResources, dif_neg (by tauto), dif_neg (by tauto)]
    split
    next same => simp [Concrete, known, own, known', own', same.2.2]
    next => simp [union, Concrete, known, own, known', own']
  · have other := values_of_not_concrete fun is => concrete (joinResources_concrete_iff.mp is)
    simp [other, concrete]

/-- The join of resources is associative, commutative and idempotent. -/
theorem joinResources_laws : JoinLaws joinResources := by
  have kind_ext {k l : ResourceKind} (unknown : k = .unknown ↔ l = .unknown)
      (scope : k = .requestGlobal ↔ l = .requestGlobal) (exact_ : k = .exact ↔ l = .exact) : k = l := by
    cases k <;> cases l <;> simp_all
  have idem (a : ResourceRef) : joinResources a a = a := by
    apply ext_of_mem
    · apply kind_ext
      · rw [joinResources_unknown_iff, or_self]
      · rw [joinResources_requestGlobal_iff, or_self, or_self]
        exact ⟨And.right, fun is => ⟨by rw [is]; nofun, is⟩⟩
      · rw [joinResources_exact_iff]
        exact and_iff_right rfl
    · intro token
      rw [mem_joinResources, and_self, or_self]
      refine and_iff_right_of_imp fun member => ?_
      by_contra other
      rw [values_of_not_concrete other] at member
      cases member
  constructor
  · intro a b c
    apply ext_of_mem
    · apply kind_ext
      · rw [joinResources_unknown_iff, joinResources_unknown_iff, joinResources_unknown_iff,
          joinResources_unknown_iff, or_assoc]
      · rw [joinResources_requestGlobal_iff, joinResources_requestGlobal_iff,
          joinResources_requestGlobal_iff, joinResources_requestGlobal_iff,
          joinResources_unknown_iff, joinResources_unknown_iff]
        tauto
      · -- an exact join on either side is that of one binding with itself
        constructor
        · intro held
          obtain ⟨rfl, inner⟩ := joinResources_exact_iff.mp held
          obtain ⟨rfl, own⟩ := joinResources_exact_iff.mp inner
          simpa only [idem] using own
        · intro held
          obtain ⟨rfl, inner⟩ := joinResources_exact_iff.mp held
          obtain ⟨rfl, own⟩ := joinResources_exact_iff.mp inner
          simpa only [idem] using own
    · intro token
      rw [mem_joinResources, mem_joinResources, mem_joinResources, mem_joinResources,
        joinResources_concrete_iff, joinResources_concrete_iff]
      tauto
  · intro a b
    apply ext_of_mem
    · apply kind_ext
      · rw [joinResources_unknown_iff, joinResources_unknown_iff, or_comm]
      · rw [joinResources_requestGlobal_iff, joinResources_requestGlobal_iff]
        tauto
      · rw [joinResources_exact_iff, joinResources_exact_iff]
        constructor
        · rintro ⟨rfl, own⟩
          exact ⟨rfl, own⟩
        · rintro ⟨rfl, own⟩
          exact ⟨rfl, own⟩
    · intro token
      rw [mem_joinResources, mem_joinResources]
      tauto
  · exact idem

end Resources

section Authorities
variable {a b c : AuthorityRef}

theorem AuthorityRef.ext_of_mem (values : ∀ name, name ∈ a.values ↔ name ∈ b.values) : a = b := by
  have same : a.values = b.values := a.sorted.eq_of_mem_iff b.sorted values
  have unknown : a.isUnknown = b.isUnknown := by
    rw [Bool.eq_iff_iff, a.shaped, b.shaped, same]
  cases a
  cases b
  cases same
  cases unknown
  rfl

theorem joinAuthorities_unknown_iff :
    (joinAuthorities a b).isUnknown = true ↔ a.isUnknown = true ∨ b.isUnknown = true := by
  rw [joinAuthorities]
  split
  next unknown => simp [unknown, AuthorityRef.unknownAuthority]
  next unknown =>
    split
    next =>
      rw [not_or] at unknown
      simp [unknown]
    next => simp [unknown]

theorem mem_joinAuthorities {name : String} : name ∈ (joinAuthorities a b).values ↔
    ¬ (a.isUnknown = true ∨ b.isUnknown = true) ∧ (name ∈ a.values ∨ name ∈ b.values) := by
  rw [joinAuthorities]
  split
  next unknown => simp [unknown, AuthorityRef.unknownAuthority]
  next unknown =>
    split
    next same => rw [same, or_self, and_iff_right unknown]
    next => rw [mem_sortedSet, mem_append, and_iff_right unknown]

private theorem joinAuthorities_laws : JoinLaws joinAuthorities where
  assoc a b c := by
    apply AuthorityRef.ext_of_mem
    intro name
    rw [mem_joinAuthorities, mem_joinAuthorities, mem_joinAuthorities, mem_joinAuthorities,
      joinAuthorities_unknown_iff, joinAuthorities_unknown_iff]
    tauto
  comm a b := by
    apply AuthorityRef.ext_of_mem
    intro name
    rw [mem_joinAuthorities, mem_joinAuthorities]
    tauto
  idem a := by
    apply AuthorityRef.ext_of_mem
    intro name
    rw [mem_joinAuthorities, or_self, or_self, a.shaped]
    exact and_iff_right_of_imp ne_nil_of_mem

end Authorities

theorem joinAlternatives_laws : JoinLaws joinAlternatives where
  assoc a b c := by cases a <;> cases b <;> cases c <;> rfl
  comm a b := by cases a <;> cases b <;> rfl
  idem a := by cases a <;> rfl

section Satisfies
variable {required : AuthorityRef} {implications : List AuthorityImplication}

theorem joinAlternatives_unknown (a : EvidenceRelation) : joinAlternatives a .unknown = .unknown := by
  cases a <;> rfl

def pairRelations (held required : AuthorityRef) (implications : List AuthorityImplication) :
    List EvidenceRelation :=
  held.values.flatMap fun heldName => required.values.map fun requiredName =>
    if (implicationPath heldName requiredName implications).isSome then .must else .no

variable {held : AuthorityRef}

theorem authoritySatisfies_of_unknown
    (unknown : held.isUnknown = true ∨ required.isUnknown = true) :
    authoritySatisfies held required implications = .unknown := by
  rw [authoritySatisfies, if_pos (Bool.or_eq_true_iff.mpr unknown)]

theorem authoritySatisfies_of_known
    (known : ¬ (held.isUnknown = true ∨ required.isUnknown = true)) :
    ∃ first rest, pairRelations held required implications = first :: rest ∧
      authoritySatisfies held required implications = rest.foldl joinAlternatives first := by
  rw [not_or, held.shaped, required.shaped] at known
  obtain ⟨heldName, own⟩ := exists_mem_of_ne_nil _ known.1
  obtain ⟨requiredName, needed⟩ := exists_mem_of_ne_nil _ known.2
  have member : (if (implicationPath heldName requiredName implications).isSome
      then EvidenceRelation.must else .no) ∈ pairRelations held required implications :=
    mem_flatMap.mpr ⟨heldName, own, mem_map_of_mem needed⟩
  rw [← held.shaped, ← required.shaped] at known
  obtain ⟨first, rest, pairs⟩ := exists_cons_of_ne_nil (ne_nil_of_mem member)
  refine ⟨first, rest, pairs, ?_⟩
  rw [authoritySatisfies, if_neg (by simpa using known)]
  simp only [pairRelations] at pairs
  simp only [pairs]

private theorem authoritySatisfies_join (left right required : AuthorityRef)
    (implications : List AuthorityImplication) :
    authoritySatisfies (joinAuthorities left right) required implications =
      joinAlternatives (authoritySatisfies left required implications)
        (authoritySatisfies right required implications) := by
  by_cases unknown : left.isUnknown = true ∨ required.isUnknown = true
  · rw [authoritySatisfies_of_unknown unknown, authoritySatisfies_of_unknown]
    · rfl
    · exact unknown.imp_left fun is => joinAuthorities_unknown_iff.mpr (.inl is)
  by_cases unknown' : right.isUnknown = true ∨ required.isUnknown = true
  · rw [authoritySatisfies_of_unknown unknown', authoritySatisfies_of_unknown,
      joinAlternatives_unknown]
    exact unknown'.imp_left fun is => joinAuthorities_unknown_iff.mpr (.inr is)
  have known : ¬ ((joinAuthorities left right).isUnknown = true ∨ required.isUnknown = true) := by
    rw [joinAuthorities_unknown_iff]
    tauto
  obtain ⟨first, rest, pairs, own⟩ := @authoritySatisfies_of_known required implications _ unknown
  obtain ⟨first', rest', pairs', own'⟩ :=
    @authoritySatisfies_of_known required implications _ unknown'
  obtain ⟨joined, others, all, relation⟩ := @authoritySatisfies_of_known required implications _ known
  rw [own, own', relation, joinAlternatives_laws.join_foldl_foldl]
  apply joinAlternatives_laws.foldl_eq_of_mem_iff
  -- the pairs of the joined names are the pairs of both holdings
  intro value
  rw [← all, ← cons_append, ← pairs, ← pairs', mem_append, pairRelations, pairRelations,
    pairRelations, mem_flatMap, mem_flatMap, mem_flatMap]
  simp only [mem_joinAuthorities]
  constructor
  · rintro ⟨name, ⟨-, held | held⟩, inside⟩
    · exact .inl ⟨name, held, inside⟩
    · exact .inr ⟨name, held, inside⟩
  · rintro (⟨name, held, inside⟩ | ⟨name, held, inside⟩)
    · exact ⟨name, ⟨by tauto, .inl held⟩, inside⟩
    · exact ⟨name, ⟨by tauto, .inr held⟩, inside⟩

end Satisfies

section Relations
variable (witness : Discharge) (operation : Operation) (fact : Option OperationFact)

def boundRelation (resource : ResourceRef) : Except String EvidenceRelation :=
  resourceRelation { witness with resource := some resource } operation fact

/-- The operation's resource itself. -/
def Own (resource : ResourceRef) : Prop :=
  resource.kind = .exact ∧ ∃ token, operation.resource = some token ∧ token ∈ resource.values

/-- A request-global binding that the fact accepts, joined with a named one that is not the
operation's own resource. -/
structure Absorbs (scope other : ResourceRef) : Prop where
  scope : scope.kind = .requestGlobal
  accepted : fact.any (fun f => witness.kind ∈ f.requestGlobalKinds) = true
  concrete : other.Concrete
  open_ : ¬ Own operation other

/-- A set of aliases without the operation's resource, joined with a binding that has it. -/
structure Overlaps (aliases other : ResourceRef) : Prop where
  kind : aliases.kind = .aliases
  concrete : other.Concrete
  token : ∃ token, operation.resource = some token ∧ token ∉ aliases.values ∧ token ∈ other.values

variable {witness operation fact}

theorem boundRelation_requestGlobal (scope : resource.kind = .requestGlobal) :
    boundRelation witness operation fact resource =
      .ok (if fact.any (fun f => witness.kind ∈ f.requestGlobalKinds) then .must else .unknown) := by
  simp [boundRelation, resourceRelation, scope]

variable {relation : EvidenceRelation}

theorem named_of_boundRelation (other : resource.kind ≠ .requestGlobal)
    (bound : boundRelation witness operation fact resource = .ok relation) :
    operation.resource ≠ some "" := by
  intro empty
  simp [boundRelation, resourceRelation, other, empty, parseResource] at bound

private theorem boundRelation_of_unknown (unknown : resource.kind = .unknown)
    (named : operation.resource ≠ some "") :
    boundRelation witness operation fact resource = .ok .unknown := by
  cases token : operation.resource with
  | none => simp [boundRelation, resourceRelation, unknown, token, parseResource]
  | some token_ =>
    have some_ : token_ ≠ "" := fun is => named (by rw [token, is])
    simp [boundRelation, resourceRelation, unknown, token, parseResource, some_]

theorem boundRelation_of_none (none_ : operation.resource = none)
    (other : resource.kind ≠ .requestGlobal) :
    boundRelation witness operation fact resource = .ok .unknown := by
  simp [boundRelation, resourceRelation, other, none_, parseResource, unknownResource]

theorem boundRelation_of_some {token : String} (named : operation.resource = some token)
    (some_ : token ≠ "") (concrete : resource.Concrete) :
    boundRelation witness operation fact resource =
      .ok (if resource.kind = .exact then if token ∈ resource.values then .must else .no
        else if token ∈ resource.values then .may else .unknown) := by
  obtain ⟨known, own⟩ := concrete
  simp only [boundRelation, resourceRelation, own, if_false, named, parseResource, some_,
    ResourceRef.exactly, known, reduceCtorEq]
  obtain ⟨kind, values, sorted, admits⟩ := resource
  cases kind with
  | exact =>
    obtain ⟨value, rfl⟩ := length_eq_one_iff.mp admits
    simp [exactRelation, eq_comm]
  | aliases => simp [aliasRelation]
  | requestGlobal => exact absurd rfl own
  | unknown => exact absurd rfl known

theorem eq_must_iff_own (concrete : resource.Concrete)
    (bound : boundRelation witness operation fact resource = .ok relation) :
    relation = .must ↔ Own operation resource := by
  cases named : operation.resource with
  | none =>
    rw [boundRelation_of_none named concrete.2] at bound
    cases bound
    simp [Own, named]
  | some token =>
    have some_ : token ≠ "" := by
      rintro rfl
      exact named_of_boundRelation concrete.2 bound named
    rw [boundRelation_of_some named some_ concrete] at bound
    cases bound
    by_cases exact_ : resource.kind = .exact <;> by_cases held : token ∈ resource.values <;>
      simp [Own, named, exact_, held]

/-- The cases in which a join is sharper than its alternatives. -/
def Sharper (witness : Discharge) (operation : Operation) (fact : Option OperationFact)
    (left right : ResourceRef) : Prop :=
  (Absorbs witness operation fact left right ∨ Absorbs witness operation fact right left) ∨
    Overlaps operation left right ∨ Overlaps operation right left

private theorem sharper_comm {left right : ResourceRef} :
    Sharper witness operation fact left right ↔ Sharper witness operation fact right left := by
  rw [Sharper, Sharper, or_comm (b := Absorbs witness operation fact right left),
    or_comm (b := Overlaps operation right left)]

private theorem not_sharper_of_unknown {left right : ResourceRef}
    (unknown : left.kind = .unknown ∨ right.kind = .unknown) :
    ¬ Sharper witness operation fact left right := by
  rintro ((absorbs | absorbs) | overlaps | overlaps)
  · rcases unknown with is | is
    · rw [absorbs.scope] at is; cases is
    · exact absorbs.concrete.1 is
  · rcases unknown with is | is
    · exact absorbs.concrete.1 is
    · rw [absorbs.scope] at is; cases is
  · rcases unknown with is | is
    · rw [overlaps.kind] at is; cases is
    · exact overlaps.concrete.1 is
  · rcases unknown with is | is
    · exact overlaps.concrete.1 is
    · rw [overlaps.kind] at is; cases is

section Join
variable {left right : ResourceRef} {a b : EvidenceRelation}

theorem boundRelation_join_of_unknown (unknown : left.kind = .unknown ∨ right.kind = .unknown)
    (first : boundRelation witness operation fact left = .ok a)
    (second : boundRelation witness operation fact right = .ok b) :
    boundRelation witness operation fact (joinResources left right) = .ok .unknown := by
  apply boundRelation_of_unknown (joinResources_unknown_iff.mpr unknown)
  rcases unknown with is | is
  · exact named_of_boundRelation (by rw [is]; nofun) first
  · exact named_of_boundRelation (by rw [is]; nofun) second

theorem boundRelation_join_of_scope (scope : left.kind = .requestGlobal)
    (known : right.kind ≠ .unknown)
    (first : boundRelation witness operation fact left = .ok a)
    (second : boundRelation witness operation fact right = .ok b) :
    ∃ joined, boundRelation witness operation fact (joinResources left right) = .ok joined ∧
      (atLeastAsPrecise (joinAlternatives a b) joined = true ↔
        ¬ Sharper witness operation fact left right) := by
  -- request-global absorbs the other kind, unless that one is unknown
  have joined : (joinResources left right).kind = .requestGlobal := by
    rw [joinResources_requestGlobal_iff, scope]
    exact ⟨fun is => is.elim nofun known, .inl rfl⟩
  refine ⟨_, boundRelation_requestGlobal joined, ?_⟩
  rw [boundRelation_requestGlobal scope] at first
  have notOverlaps : ¬ (Overlaps operation left right ∨ Overlaps operation right left) := by
    rintro (overlaps | overlaps)
    · rw [overlaps.kind] at scope; cases scope
    · exact overlaps.concrete.2 scope
  have notAbsorbed : ¬ Absorbs witness operation fact right left := fun is => is.concrete.2 scope
  -- the witness kind is accepted request-globally, or the relation is unknown on both sides
  by_cases accepted : fact.any (fun f => witness.kind ∈ f.requestGlobalKinds) = true
  · rw [if_pos accepted] at first ⊢
    cases first
    have must : atLeastAsPrecise (joinAlternatives .must b) .must = true ↔ b = .must := by
      cases b <;> decide
    rw [must, Sharper, or_iff_left notOverlaps, or_iff_left notAbsorbed]
    constructor
    · rintro rfl absorbs
      exact absorbs.open_ ((eq_must_iff_own absorbs.concrete second).mp rfl)
    · intro apart
      by_contra other
      -- the right side is request-global too, or concrete
      by_cases scope' : right.kind = .requestGlobal
      · rw [boundRelation_requestGlobal scope', if_pos accepted] at second
        exact other (Except.ok.inj second).symm
      · exact apart ⟨scope, accepted, ⟨known, scope'⟩, fun is =>
          other ((eq_must_iff_own ⟨known, scope'⟩ second).mpr is)⟩
  · rw [if_neg accepted] at first ⊢
    cases first
    have apart : ¬ Absorbs witness operation fact left right := fun is => accepted is.accepted
    rw [Sharper, or_iff_left notOverlaps, or_iff_left notAbsorbed]
    exact iff_of_true rfl apart

private theorem boundRelation_join_of_concrete (own : left.Concrete) (other : right.Concrete)
    (first : boundRelation witness operation fact left = .ok a)
    (second : boundRelation witness operation fact right = .ok b) :
    ∃ joined, boundRelation witness operation fact (joinResources left right) = .ok joined ∧
      (atLeastAsPrecise (joinAlternatives a b) joined = true ↔
        ¬ Sharper witness operation fact left right) := by
  have concrete := joinResources_concrete_iff.mpr ⟨own, other⟩
  have notAbsorbs :
      ¬ (Absorbs witness operation fact left right ∨ Absorbs witness operation fact right left) := by
    rintro (absorbs | absorbs)
    · exact own.2 absorbs.scope
    · exact other.2 absorbs.scope
  rw [Sharper, or_iff_right notAbsorbs]
  cases named : operation.resource with
  | none =>
    refine ⟨_, boundRelation_of_none named concrete.2, iff_of_true ?_ ?_⟩
    · rfl
    · rintro (overlaps | overlaps)
      all_goals
        obtain ⟨token, is, -⟩ := overlaps.token
        cases named.symm.trans is
  | some token =>
    have some_ : token ≠ "" := by
      rintro rfl
      exact named_of_boundRelation own.2 first named
    rw [boundRelation_of_some named some_ own] at first
    rw [boundRelation_of_some named some_ other] at second
    refine ⟨_, boundRelation_of_some named some_ concrete, ?_⟩
    cases first
    cases second
    have overlaps {r s : ResourceRef} (is : s.Concrete) :
        Overlaps operation r s ↔ r.kind = .aliases ∧ token ∉ r.values ∧ token ∈ s.values := by
      constructor
      · rintro ⟨kind, -, own, same, apart⟩
        cases named.symm.trans same
        exact ⟨kind, apart⟩
      · rintro ⟨kind, apart⟩
        exact ⟨kind, is, token, named, apart⟩
    rw [overlaps other, overlaps own]
    by_cases same : left = right ∧ left.kind = .exact
    · obtain ⟨rfl, exact_⟩ := same
      rw [joinResources_laws.idem, exact_]
      by_cases held : token ∈ left.values <;> simp [held, joinAlternatives, atLeastAsPrecise]
    · have notExact : (joinResources left right).kind ≠ .exact :=
        fun is => same (joinResources_exact_iff.mp is)
      have held : token ∈ (joinResources left right).values ↔
          token ∈ left.values ∨ token ∈ right.values := by
        rw [mem_joinResources]
        exact and_iff_right ⟨own, other⟩
      have kinds {r : ResourceRef} (is : r.Concrete) : r.kind = .exact ∨ r.kind = .aliases := by
        have known := is.1
        have named := is.2
        cases kind : r.kind <;> simp_all
      rw [if_neg notExact]
      simp only [held]
      -- two exact bindings of the token are one binding
      have apart : left.kind = .exact → right.kind = .exact →
          ¬ (token ∈ left.values ∧ token ∈ right.values) := by
        rintro exact_ exact' ⟨inside, inside'⟩
        have one {r : ResourceRef} (is : r.kind = .exact) (member : token ∈ r.values) :
            r.values = [token] := by
          have size := r.admits
          rw [is] at size
          obtain ⟨value, only⟩ := length_eq_one_iff.mp size
          rw [only] at member ⊢
          rw [mem_singleton.mp member]
        apply same ⟨ext_of_mem (exact_.trans exact'.symm) fun name => ?_, exact_⟩
        rw [one exact_ inside, one exact' inside']
      rcases kinds own with kind | kind <;> rcases kinds other with kind' | kind' <;>
        by_cases inside : token ∈ left.values <;> by_cases inside' : token ∈ right.values <;>
          simp_all [joinAlternatives, atLeastAsPrecise]

/-- A join is no sharper than its alternatives, unless an accepted request-global binding absorbs one,
or one is a set of aliases that misses what the other has. -/
theorem boundRelation_join (first : boundRelation witness operation fact left = .ok a)
    (second : boundRelation witness operation fact right = .ok b) :
    ∃ joined, boundRelation witness operation fact (joinResources left right) = .ok joined ∧
      (atLeastAsPrecise (joinAlternatives a b) joined = true ↔
        ¬ Sharper witness operation fact left right) := by
  by_cases unknown : left.kind = .unknown ∨ right.kind = .unknown
  · have joined := boundRelation_join_of_unknown unknown first second
    refine ⟨_, joined, iff_of_true ?_ (not_sharper_of_unknown unknown)⟩
    cases joinAlternatives a b <;> rfl
  rw [not_or] at unknown
  by_cases scope : left.kind = .requestGlobal
  · exact boundRelation_join_of_scope scope unknown.2 first second
  by_cases scope' : right.kind = .requestGlobal
  · rw [joinResources_laws.comm, joinAlternatives_laws.comm, sharper_comm]
    exact boundRelation_join_of_scope scope' unknown.1 second first
  · exact boundRelation_join_of_concrete ⟨unknown.1, scope⟩ ⟨unknown.2, scope'⟩ first second

end Join
end Relations

/-- Joins against alternatives: resources up to the sharper cases, authorities always; and the join of
a list is that of its members. -/
theorem joins_agree (witness : Discharge) (operation : Operation) (fact : Option OperationFact) :
    (∀ (left right : ResourceRef) (a b : EvidenceRelation),
      boundRelation witness operation fact left = .ok a →
      boundRelation witness operation fact right = .ok b →
      ∃ joined, boundRelation witness operation fact (joinResources left right) = .ok joined ∧
        (atLeastAsPrecise (joinAlternatives a b) joined = true ↔
          ¬ Sharper witness operation fact left right)) ∧
    (∀ (left right required : AuthorityRef) (implications : List AuthorityImplication),
      authoritySatisfies (joinAuthorities left right) required implications =
        joinAlternatives (authoritySatisfies left required implications)
          (authoritySatisfies right required implications)) ∧
    (∀ (a b : ResourceRef) (l m : List ResourceRef), (∀ x, x ∈ a :: l ↔ x ∈ b :: m) →
      l.foldl joinResources a = m.foldl joinResources b) ∧
    ∀ (a b : AuthorityRef) (l m : List AuthorityRef), (∀ x, x ∈ a :: l ↔ x ∈ b :: m) →
      l.foldl joinAuthorities a = m.foldl joinAuthorities b :=
  ⟨fun _ _ _ _ => boundRelation_join, authoritySatisfies_join,
    fun _ _ _ _ => joinResources_laws.foldl_eq_of_mem_iff,
    fun _ _ _ _ => joinAuthorities_laws.foldl_eq_of_mem_iff⟩

def reading : Operation where
  path := "app.py"
  line := 3
  function := "show"
  kind := .protectedRead
  factId := "read"
  resource := some "book"
  requires := [.pathGuard]

def pathGuard : Discharge where
  path := "app.py"
  line := some 2
  function := "show"
  kind := .pathGuard
  factId := "guard"
  provenance := .authenticatedContext
  scope := .statement

def readingFact : OperationFact where
  id := "read"
  kind := .protectedRead
  language := "python"
  calls := ["read"]
  resourceArg := some 0
  requires := [.pathGuard]
  sensitivity := .high
  requestGlobalKinds := [.pathGuard]

theorem joins_agree_book :
    (∃ joined, boundRelation pathGuard reading (some readingFact)
        (joinResources (exactly "book") (exactly "film")) = .ok joined ∧
      (atLeastAsPrecise (joinAlternatives .must .no) joined = true ↔
        ¬ Sharper pathGuard reading (some readingFact) (exactly "book") (exactly "film"))) ∧
    [exactly "book", exactly "film"].foldl joinResources (exactly "film") =
      [exactly "film"].foldl joinResources (exactly "book") ∧
    [AuthorityRef.exactly "admin" (by decide)].foldl joinAuthorities (.exactly "admin" (by decide)) =
      [].foldl joinAuthorities (.exactly "admin" (by decide)) :=
  have agree := joins_agree pathGuard reading (some readingFact)
  ⟨agree.1 (exactly "book") (exactly "film") .must .no rfl rfl,
    agree.2.2.1 (exactly "film") (exactly "book") _ _ fun x => by simp; tauto,
    agree.2.2.2 (.exactly "admin" (by decide)) (.exactly "admin" (by decide)) _ _ fun x => by simp⟩

/-- A guard of the whole request on one path and of another resource on the other: the alternatives
may be guarded, the join must be. -/
theorem joined_sharper :
    boundRelation pathGuard reading (some readingFact) requestGlobalResource = .ok .must ∧
      boundRelation pathGuard reading (some readingFact) (exactly "film") = .ok .no ∧
      boundRelation pathGuard reading (some readingFact)
        (joinResources requestGlobalResource (exactly "film")) = .ok .must ∧
      atLeastAsPrecise (joinAlternatives .must .no) .must = false :=
  ⟨rfl, rfl, rfl, rfl⟩

end OpenUltraSast.Obligations
