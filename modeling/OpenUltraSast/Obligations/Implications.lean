import OpenUltraSast.Library.SimplePaths
import OpenUltraSast.Obligations.Joins
import OpenUltraSast.Obligations.Refinement

/-!
# Authority by implication

A held authority satisfies a required one by the implications that lead from its names to the names
that are required.
-/

namespace OpenUltraSast.Obligations

open SimplePaths BreadthFirst List

section
variable (implications : List AuthorityImplication)

def Extends (authority implied : String) : Prop :=
  ∃ implication ∈ implications, implication.authority = authority ∧ implication.implies = implied

def Implies : String → String → Prop := Relation.ReflTransGen (Extends implications)

end

section
variable {implications : List AuthorityImplication} {implication : AuthorityImplication}

theorem mem_implicationIndex {authority : String} :
    implication ∈ implicationIndex implications authority ↔
      implication ∈ implications ∧ implication.authority = authority := by
  rw [implicationIndex, mem_filter, decide_eq_true_iff]

variable {source target : String}

theorem implies_iff : Implies implications source target ↔
    Reaches (implicationIndex implications) AuthorityImplication.implies source target := by
  constructor
  · intro implies
    induction implies with
    | refl => exact ⟨[], rfl⟩
    | tail _ extends_ ih =>
      obtain ⟨implication, member, authority, rfl⟩ := extends_
      exact ih.step (mem_implicationIndex.mpr ⟨member, authority⟩)
  · rintro ⟨chain, leads⟩
    induction chain generalizing source with
    | nil =>
      cases leads
      exact .refl
    | cons implication rest ih =>
      obtain ⟨member, authority⟩ := mem_implicationIndex.mp leads.1
      exact .head ⟨implication, member, authority, rfl⟩ (ih leads.2)

private theorem implicationChain_eq (parents : Parents) (fuel : Nat) (node : String)
    (chain : List AuthorityImplication) :
    implicationChain parents fuel node chain = trace parents fuel node chain := by
  induction fuel generalizing node chain with
  | zero => rfl
  | succ fuel ih =>
    rw [implicationChain, trace]
    cases parents.lookup node with
    | none => rfl
    | some step =>
      cases step with
      | none => rfl
      | some step => exact ih _ _

theorem scanImplications_eq (target current : String) (edges : List AuthorityImplication)
    (parents : Parents) (frontier : List String) :
    scanImplications target current edges parents frontier =
      scan AuthorityImplication.implies target current edges parents frontier := by
  induction edges generalizing parents frontier with
  | nil => rfl
  | cons edge rest ih =>
    rw [scanImplications, scan]
    simp only [ih, implicationChain_eq]

private theorem searchImplications_eq (target : String) (fuel : Nat) (parents : Parents)
    (frontier : List String) :
    searchImplications implications target fuel parents frontier =
      search (implicationIndex implications) AuthorityImplication.implies target fuel parents
        frontier := by
  induction fuel generalizing parents frontier with
  | zero => rfl
  | succ fuel ih =>
    cases frontier with
    | nil => rfl
    | cons current frontier =>
      rw [searchImplications, search, scanImplications_eq]
      cases scan AuthorityImplication.implies target current (implicationIndex implications current)
          parents frontier with
      | error chain => rfl
      | ok reached => exact ih _ _

private theorem implicationPath_eq (source target : String) :
    implicationPath source target implications =
      findPath (implicationIndex implications) AuthorityImplication.implies
        (implications.length + 2) source target := by
  rw [implicationPath, findPath, searchImplications_eq]

/-- The implication path is a shortest one, and is missing only where there is none. -/
theorem implicationPath_spec (source target : String) :
    Finds (implicationIndex implications) AuthorityImplication.implies source target
      (implicationPath source target implications) := by
  rw [implicationPath_eq]
  apply findPath_spec (source :: implications.map (·.implies)) mem_cons_self
  · intro authority implication member
    exact mem_cons_of_mem _ (mem_map_of_mem (mem_implicationIndex.mp member).1)
  · rw [length_cons, length_map]
    exact Nat.lt_succ_self _

theorem isSome_implicationPath :
    (implicationPath source target implications).isSome = true ↔
      Implies implications source target := by
  have spec := @implicationPath_spec implications source target
  revert spec
  rw [implies_iff]
  cases implicationPath source target implications with
  | none => exact fun unreached => ⟨nofun, fun reaches => absurd reaches unreached⟩
  | some chain => exact fun shortest => ⟨fun _ => ⟨chain, shortest.leads⟩, fun _ => rfl⟩

variable {held required : AuthorityRef}

theorem mem_pairRelations {relation : EvidenceRelation} :
    relation ∈ pairRelations held required implications ↔
      ∃ name ∈ held.values, ∃ need ∈ required.values,
        relation = .must ∧ Implies implications name need ∨
          relation = .no ∧ ¬ Implies implications name need := by
  simp only [pairRelations, mem_flatMap, mem_map]
  refine exists_congr fun name => and_congr_right fun _ => exists_congr fun need =>
    and_congr_right fun _ => ?_
  rw [← isSome_implicationPath]
  by_cases found : (implicationPath name need implications).isSome = true
  · simp [found, eq_comm]
  · simp [found, eq_comm]

private theorem foldl_definite {first : EvidenceRelation} {rest : List EvidenceRelation}
    (definite : ∀ relation ∈ first :: rest, relation = .must ∨ relation = .no) :
    .no ∉ first :: rest ∧ rest.foldl joinAlternatives first = .must ∨
      .must ∉ first :: rest ∧ rest.foldl joinAlternatives first = .no ∨
        .must ∈ first :: rest ∧ .no ∈ first :: rest ∧
          rest.foldl joinAlternatives first = .may := by
  by_cases some_ : .must ∈ first :: rest
  · by_cases none_ : .no ∈ first :: rest
    · refine .inr (.inr ⟨some_, none_, ?_⟩)
      refine joinAlternatives_laws.foldl_eq_of_mem_iff (b := .must) (m := [.no]) ?_
      intro relation
      rw [mem_pair]
      exact ⟨definite relation, fun either => either.elim (· ▸ some_) (· ▸ none_)⟩
    · refine .inl ⟨none_, ?_⟩
      refine joinAlternatives_laws.foldl_eq_of_mem_iff (b := .must) (m := []) ?_
      intro relation
      rw [mem_singleton]
      exact ⟨fun member => (definite relation member).resolve_right fun no => none_ (no ▸ member),
        (· ▸ some_)⟩
  · refine .inr (.inl ⟨some_, ?_⟩)
    have only : ∀ relation ∈ first :: rest, relation = .no := fun relation member =>
      (definite relation member).resolve_left fun must => some_ (must ▸ member)
    refine joinAlternatives_laws.foldl_eq_of_mem_iff (b := .no) (m := []) ?_
    intro relation
    rw [mem_singleton]
    exact ⟨only relation, fun no => no.trans (only first mem_cons_self).symm ▸ mem_cons_self⟩

/-- The relation of known holdings, by the pairs that implications connect and those they do not. -/
theorem authoritySatisfies_cases (known : ¬ (held.isUnknown = true ∨ required.isUnknown = true)) :
    (∀ name ∈ held.values, ∀ need ∈ required.values, Implies implications name need) ∧
        authoritySatisfies held required implications = .must ∨
      (∀ name ∈ held.values, ∀ need ∈ required.values, ¬ Implies implications name need) ∧
        authoritySatisfies held required implications = .no ∨
      (∃ name ∈ held.values, ∃ need ∈ required.values, Implies implications name need) ∧
        (∃ name ∈ held.values, ∃ need ∈ required.values, ¬ Implies implications name need) ∧
          authoritySatisfies held required implications = .may := by
  obtain ⟨first, rest, pairs, relation⟩ := @authoritySatisfies_of_known required implications _ known
  have must : .must ∈ first :: rest ↔
      ∃ name ∈ held.values, ∃ need ∈ required.values, Implies implications name need := by
    rw [← pairs, mem_pairRelations]
    simp
  have no : .no ∈ first :: rest ↔
      ∃ name ∈ held.values, ∃ need ∈ required.values, ¬ Implies implications name need := by
    rw [← pairs, mem_pairRelations]
    simp
  have definite : ∀ relation ∈ first :: rest, relation = .must ∨ relation = .no := by
    intro relation member
    rw [← pairs, mem_pairRelations] at member
    obtain ⟨_, _, _, _, is | is⟩ := member
    · exact .inl is.1
    · exact .inr is.1
  rw [relation]
  rcases foldl_definite definite with ⟨none_, is⟩ | ⟨none_, is⟩ | ⟨some_, none_, is⟩
  · rw [no] at none_
    push Not at none_
    exact .inl ⟨none_, is⟩
  · rw [must] at none_
    push Not at none_
    exact .inr (.inl ⟨none_, is⟩)
  · exact .inr (.inr ⟨must.mp some_, no.mp none_, is⟩)

private theorem mem_supportingImplications :
    implication ∈ supportingImplications held required implications ↔
      ∃ name ∈ held.values, ∃ need ∈ required.values, Implies implications name need ∧
        implication ∈ (implicationPath name need implications).getD [] := by
  rw [supportingImplications]
  by_cases unknown : held.isUnknown = true ∨ required.isUnknown = true
  · rw [if_pos (Bool.or_eq_true_iff.mpr unknown)]
    refine ⟨nofun, ?_⟩
    rintro ⟨name, member, need, member', _⟩
    rcases unknown with unknown | unknown
    · rw [held.shaped.mp unknown] at member
      cases member
    · rw [required.shaped.mp unknown] at member'
      cases member'
  · rw [if_neg (by simpa using unknown), mem_eraseDups, mem_flatMap]
    refine exists_congr fun name => and_congr_right fun _ => ?_
    rw [mem_flatMap]
    refine exists_congr fun need => and_congr_right fun _ => ?_
    rw [iff_and_self, ← isSome_implicationPath]
    cases implicationPath name need implications with
    | none => nofun
    | some chain => exact fun _ => rfl

private theorem nodup_supportingImplications :
    (supportingImplications held required implications).Nodup := by
  rw [supportingImplications]
  split
  · exact nodup_nil
  · exact Collections.nodup_eraseDups _

private theorem exists_names (known : ¬ (held.isUnknown = true ∨ required.isUnknown = true)) :
    ∃ name need, name ∈ held.values ∧ need ∈ required.values := by
  rw [not_or, held.shaped, required.shaped] at known
  obtain ⟨name, member⟩ := exists_mem_of_ne_nil _ known.1
  obtain ⟨need, member'⟩ := exists_mem_of_ne_nil _ known.2
  exact ⟨name, need, member, member'⟩

private theorem authoritySatisfies_eq_unknown :
    authoritySatisfies held required implications = .unknown ↔
      held.isUnknown = true ∨ required.isUnknown = true := by
  refine ⟨fun is => ?_, authoritySatisfies_of_unknown⟩
  by_contra known
  rcases @authoritySatisfies_cases implications _ _ known with ⟨_, other⟩ | ⟨_, other⟩ | ⟨_, _, other⟩
  all_goals cases is.symm.trans other

private theorem authoritySatisfies_eq_no :
    authoritySatisfies held required implications = .no ↔
      ¬ (held.isUnknown = true ∨ required.isUnknown = true) ∧
        ∀ name ∈ held.values, ∀ need ∈ required.values, ¬ Implies implications name need := by
  by_cases unknown : held.isUnknown = true ∨ required.isUnknown = true
  · rw [authoritySatisfies_of_unknown unknown]
    exact ⟨nofun, fun known => absurd unknown known.1⟩
  obtain ⟨name, need, member, member'⟩ := exists_names unknown
  rcases @authoritySatisfies_cases implications _ _ unknown with
    ⟨all, is⟩ | ⟨none_, is⟩ | ⟨⟨name, member, need, member', implies⟩, _, is⟩
  · rw [is]
    exact ⟨nofun, fun none_ => absurd (all name member need member') (none_.2 name member need member')⟩
  · exact ⟨fun _ => ⟨unknown, none_⟩, fun _ => is⟩
  · rw [is]
    exact ⟨nofun, fun none_ => absurd implies (none_.2 name member need member')⟩

private theorem authoritySatisfies_eq_may :
    authoritySatisfies held required implications = .may ↔
      ¬ (held.isUnknown = true ∨ required.isUnknown = true) ∧
        (∃ name ∈ held.values, ∃ need ∈ required.values, Implies implications name need) ∧
          ∃ name ∈ held.values, ∃ need ∈ required.values, ¬ Implies implications name need := by
  by_cases unknown : held.isUnknown = true ∨ required.isUnknown = true
  · rw [authoritySatisfies_of_unknown unknown]
    exact ⟨nofun, fun known => absurd unknown known.1⟩
  rcases @authoritySatisfies_cases implications _ _ unknown with
    ⟨all, is⟩ | ⟨none_, is⟩ | ⟨some_, unconnected, is⟩
  · rw [is]
    refine ⟨nofun, ?_⟩
    rintro ⟨_, _, name, member, need, member', apart⟩
    exact absurd (all name member need member') apart
  · rw [is]
    refine ⟨nofun, ?_⟩
    rintro ⟨_, ⟨name, member, need, member', implies⟩, _⟩
    exact absurd implies (none_ name member need member')
  · exact ⟨fun _ => ⟨unknown, some_, unconnected⟩, fun _ => is⟩

variable (held required implications) in
/-- Authority satisfaction is reachability through the implications, and the implications that support
it are those of one shortest chain for each pair of names that is connected. -/
theorem authoritySatisfies_spec :
    (authoritySatisfies held required implications = .unknown ↔
      held.isUnknown = true ∨ required.isUnknown = true) ∧
    (authoritySatisfies held required implications = .must ↔
      ¬ (held.isUnknown = true ∨ required.isUnknown = true) ∧
        ∀ name ∈ held.values, ∀ need ∈ required.values, Implies implications name need) ∧
    (authoritySatisfies held required implications = .no ↔
      ¬ (held.isUnknown = true ∨ required.isUnknown = true) ∧
        ∀ name ∈ held.values, ∀ need ∈ required.values, ¬ Implies implications name need) ∧
    (authoritySatisfies held required implications = .may ↔
      ¬ (held.isUnknown = true ∨ required.isUnknown = true) ∧
        (∃ name ∈ held.values, ∃ need ∈ required.values, Implies implications name need) ∧
          ∃ name ∈ held.values, ∃ need ∈ required.values, ¬ Implies implications name need) ∧
    ∃ chainOf : String → String → List AuthorityImplication,
      (∀ name need, Implies implications name need →
        Shortest (implicationIndex implications) AuthorityImplication.implies name
          (chainOf name need) need) ∧
      (supportingImplications held required implications).Nodup ∧
      ∀ implication, implication ∈ supportingImplications held required implications ↔
        ∃ name ∈ held.values, ∃ need ∈ required.values, Implies implications name need ∧
          implication ∈ chainOf name need := by
  refine ⟨authoritySatisfies_eq_unknown, ?_, authoritySatisfies_eq_no, authoritySatisfies_eq_may,
    fun name need => (implicationPath name need implications).getD [], fun name need implies => ?_,
    nodup_supportingImplications, fun _ => mem_supportingImplications⟩
  · rw [authoritySatisfies_eq_must, not_or, Bool.not_eq_true, Bool.not_eq_true, and_assoc]
    simp only [isSome_implicationPath]
  · obtain ⟨chain, found⟩ := Option.isSome_iff_exists.mp (isSome_implicationPath.mpr implies)
    have spec := @implicationPath_spec implications name need
    change Shortest _ _ name ((implicationPath name need implications).getD []) need
    rw [found] at spec ⊢
    exact spec

end

end OpenUltraSast.Obligations
