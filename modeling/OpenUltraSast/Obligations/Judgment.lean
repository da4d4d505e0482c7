import OpenUltraSast.Obligations.Dominance

/-!
# Per-path judgment and aggregation over paths

A witness governs an obligation only when every required relation is MUST.
-/

namespace OpenUltraSast.Obligations

open Collections EvidenceRelation List

abbrev EvidenceByKind := List (DischargerKind × List (WitnessMatch × DominanceEvidence))

/-- `sorted` on kinds, which the code compares as strings. -/
def sortedKinds (kinds : List DischargerKind) : List DischargerKind :=
  kinds.insertionSort (fun a b => a.name ≤ b.name)

/-- `_conjoined`: NO when either side is NO, MUST when both are MUST. -/
def conjoined (pair : WitnessMatch × DominanceEvidence) : EvidenceRelation :=
  if pair.1.relation = .no ∨ pair.2.relation = .no then .no
  else if pair.1.relation = .must ∧ pair.2.relation = .must then .must
  else .unknown

def kindRelation (pairs : List (WitnessMatch × DominanceEvidence)) (discoveryComplete : Bool) :
    EvidenceRelation :=
  if pairs = [] then
    if discoveryComplete then .no else .unknown
  else aggregateWitnesses (pairs.map conjoined) true

def mixedObligation (relations : List (DischargerKind × EvidenceRelation)) :
    PairJudgment × List DischargerKind :=
  let absentKinds := sortedKinds ((relations.filter (·.2 = .no)).map (·.1))
  if relations.any fun entry => entry.2 ≠ .must && entry.2 ≠ .no then (.indeterminate, [])
  else if absentKinds ≠ [] then (.unguarded, absentKinds)
  else (.discharged, [])

def relationsByKind (matchesByKind : EvidenceByKind) (discoveryComplete : Bool) :
    List (DischargerKind × EvidenceRelation) :=
  matchesByKind.map fun entry => (entry.1, kindRelation entry.2 discoveryComplete)

/-- `judgment_for_path`. The source takes the operation and reads nothing of it. -/
def judgmentForPath (_operation : Operation) (matchesByKind : EvidenceByKind)
    (completeness : Completeness) (discoveryComplete : Bool := true) :
    PathJudgment DischargerKind :=
  let found := (matchesByKind.flatMap fun entry => entry.2.map (·.1)).eraseDups
  if !completeness.isComplete then ⟨.indeterminate, [], completeness, found⟩
  else
    let (judgment, missing) := mixedObligation (relationsByKind matchesByKind discoveryComplete)
    ⟨judgment, missing, completeness, found⟩

def joinedCompleteness (judgments : List (PathJudgment DischargerKind)) : Completeness :=
  judgments.foldl (fun joined judgment => joinCompleteness joined judgment.completeness) .complete

def PathJudgment.completely {Kind : Type} (verdict : PairJudgment) (judgment : PathJudgment Kind) :
    Bool :=
  judgment.judgment = verdict && judgment.completeness.isComplete

def aggregateJudgments (judgments : List (PathJudgment DischargerKind)) :
    PathJudgment DischargerKind :=
  let completeness := joinedCompleteness judgments
  let found := (judgments.flatMap (·.found)).eraseDups
  if judgments.any (·.completely .unguarded) then
    let missing := sortedKinds
      ((judgments.filter (·.completely .unguarded)).flatMap (·.missing)).eraseDups
    ⟨.unguarded, missing, completeness, found⟩
  else if judgments ≠ [] && judgments.all (·.completely .discharged) then
    ⟨.discharged, [], completeness, found⟩
  else ⟨.indeterminate, [], completeness, found⟩

section
variable (pair : WitnessMatch × DominanceEvidence)
include pair

theorem conjoined_eq_must :
    conjoined pair = .must ↔ pair.1.relation = .must ∧ pair.2.relation = .must := by
  unfold conjoined
  split
  next h => rcases h with h | h <;> simp [h]
  · split <;> simp_all

theorem conjoined_eq_no :
    conjoined pair = .no ↔ pair.1.relation = .no ∨ pair.2.relation = .no := by
  unfold conjoined
  split
  next h => simp [h]
  next h => split <;> simp_all

theorem conjoined_ne_may : conjoined pair ≠ .may := by
  unfold conjoined
  split
  · simp
  · split <;> simp

end

theorem aggregateWitnesses_eq_must (relations : List EvidenceRelation) (complete : Bool) :
    aggregateWitnesses relations complete = .must ↔ .must ∈ relations := by
  unfold aggregateWitnesses
  split
  next h => subst h; cases complete <;> simp
  next => split_ifs <;> simp_all

section
variable (pairs : List (WitnessMatch × DominanceEvidence))
include pairs

theorem kindRelation_eq_must (discovery : Bool) :
    kindRelation pairs discovery = .must ↔
      ∃ pair ∈ pairs, pair.1.relation = .must ∧ pair.2.relation = .must := by
  unfold kindRelation
  split
  next h => subst h; cases discovery <;> simp
  next => simp [aggregateWitnesses_eq_must, conjoined_eq_must]

private theorem kindRelation_eq_no (discovery : Bool) :
    kindRelation pairs discovery = .no ↔
      (pairs = [] → discovery = true) ∧ ∀ pair ∈ pairs, conjoined pair = .no := by
  unfold kindRelation
  split
  next h => subst h; cases discovery <;> simp
  next h =>
    have all : (∀ pair ∈ pairs, conjoined pair = .no) ↔ ∀ r ∈ pairs.map conjoined, r = .no := by
      rw [forall_mem_map]
    rw [all, aggregateWitnesses, if_neg (by simpa using h)]
    constructor
    · intro no
      refine ⟨fun e => absurd e h, ?_⟩
      intro r member
      split_ifs at no with must unknown may
      cases r <;> first | rfl | contradiction
    · intro no
      have absent : ∀ r, r ≠ .no → r ∉ pairs.map conjoined := fun r hr member => hr (no.2 r member)
      rw [if_neg (absent _ (by simp)), if_neg (absent _ (by simp)), if_neg (absent _ (by simp))]

private theorem kindRelation_ne_may (discovery : Bool) :
    kindRelation pairs discovery ≠ .may := by
  unfold kindRelation
  split
  · cases discovery <;> simp
  · have absent : EvidenceRelation.may ∉ pairs.map conjoined := by
      simp [conjoined_ne_may]
    unfold aggregateWitnesses
    split_ifs <;> simp

end

theorem sortedKinds_eq_nil (kinds : List DischargerKind) : sortedKinds kinds = [] ↔ kinds = [] := by
  rw [← length_eq_zero_iff, sortedKinds, length_insertionSort, length_eq_zero_iff]

theorem mixedObligation_discharged (relations : List (DischargerKind × EvidenceRelation)) :
    (mixedObligation relations).1 = .discharged ↔ ∀ entry ∈ relations, entry.2 = .must := by
  unfold mixedObligation
  simp only [ne_eq, sortedKinds_eq_nil, map_eq_nil_iff, filter_eq_nil_iff]
  split
  next undecided =>
    simp only [any_eq_true, Bool.and_eq_true, decide_eq_true_eq] at undecided
    obtain ⟨entry, member, notMust, -⟩ := undecided
    simp only [reduceCtorEq, false_iff]
    exact fun all => notMust (all entry member)
  next decided =>
    simp only [any_eq_true, Bool.and_eq_true, decide_eq_true_eq] at decided
    split
    next absent =>
      simp only [reduceCtorEq, false_iff]
      refine fun all => absent fun entry member no => ?_
      simp [all entry member] at no
    next none =>
      simp only [true_iff]
      intro entry member
      by_contra notMust
      exact none fun all => decided ⟨entry, member, notMust, by simpa using all entry member⟩

theorem mixedObligation_unguarded (relations : List (DischargerKind × EvidenceRelation)) :
    (mixedObligation relations).1 = .unguarded ↔
      (∀ entry ∈ relations, entry.2 = .must ∨ entry.2 = .no) ∧ ∃ entry ∈ relations, entry.2 = .no := by
  unfold mixedObligation
  simp only [ne_eq, sortedKinds_eq_nil, map_eq_nil_iff, filter_eq_nil_iff]
  split
  next undecided =>
    simp only [any_eq_true, Bool.and_eq_true, decide_eq_true_eq] at undecided
    obtain ⟨entry, member, notMust, notNo⟩ := undecided
    simp only [reduceCtorEq, false_iff, not_and]
    intro all
    rcases all entry member with must | no
    · exact absurd must notMust
    · exact absurd no (by simpa using notNo)
  next decided =>
    simp only [any_eq_true, Bool.and_eq_true, decide_eq_true_eq, not_exists, not_and] at decided
    have each : ∀ entry ∈ relations, entry.2 = .must ∨ entry.2 = .no := by
      intro entry member
      by_cases must : entry.2 = .must
      · exact .inl must
      · exact .inr (by simpa using decided entry member must)
    split
    next absent =>
      simp only [true_iff]
      refine ⟨each, ?_⟩
      by_contra none
      exact absent fun entry member no => none ⟨entry, member, by simpa using no⟩
    next none =>
      simp only [reduceCtorEq, false_iff, not_and, not_exists]
      exact fun _ entry member no => none fun all => all entry member (by simp [no])

structure PairDegrades (pair degraded : WitnessMatch × DominanceEvidence) : Prop where
  found : atLeastAsPrecise pair.1.relation degraded.1.relation = true
  dominance : atLeastAsPrecise pair.2.relation degraded.2.relation = true

def EvidenceDegrades (evidence degraded : EvidenceByKind) : Prop :=
  List.Forall₂ (fun entry entry' => entry.1 = entry'.1 ∧ List.Forall₂ PairDegrades entry.2 entry'.2)
    evidence degraded

structure JudgmentDegrades (judgment degraded : PathJudgment DischargerKind) : Prop where
  verdict : degraded.judgment = judgment.judgment ∨ degraded.judgment = .indeterminate
  completeness : degraded.completeness.isComplete = true → judgment.completeness.isComplete = true

theorem atLeastAsPrecise_iff (left right : EvidenceRelation) :
    atLeastAsPrecise left right = true ↔
      (right = .must → left = .must) ∧ (right = .no → left = .no) ∧
        (right = .may → left ≠ .unknown) := by
  cases left <;> cases right <;> decide

theorem PairDegrades.conjoined {pair degraded : WitnessMatch × DominanceEvidence}
    (h : PairDegrades pair degraded) :
    atLeastAsPrecise (conjoined pair) (conjoined degraded) = true := by
  obtain ⟨foundMust, foundNo, -⟩ := (atLeastAsPrecise_iff _ _).mp h.found
  obtain ⟨dominanceMust, dominanceNo, -⟩ := (atLeastAsPrecise_iff _ _).mp h.dominance
  rw [atLeastAsPrecise_iff, conjoined_eq_must, conjoined_eq_must, conjoined_eq_no, conjoined_eq_no]
  refine ⟨fun must => ⟨foundMust must.1, dominanceMust must.2⟩, fun no => ?_, fun may => ?_⟩
  · exact no.imp foundNo dominanceNo
  · exact absurd may (conjoined_ne_may degraded)

variable {discovery discovery' : Bool}

private theorem kindRelation_degrades {pairs degraded : List (WitnessMatch × DominanceEvidence)}
    (h : List.Forall₂ PairDegrades pairs degraded)
    (weaker : discovery' = true → discovery = true) :
    atLeastAsPrecise (kindRelation pairs discovery) (kindRelation degraded discovery') = true := by
  rw [atLeastAsPrecise_iff]
  refine ⟨fun must => ?_, fun no => ?_, fun may => absurd may (kindRelation_ne_may _ _)⟩
  · rw [kindRelation_eq_must] at must ⊢
    obtain ⟨pair', member, foundMust, dominanceMust⟩ := must
    obtain ⟨pair, member, degrades⟩ := exists_left_of_forall₂ h member
    exact ⟨pair, member, ((atLeastAsPrecise_iff _ _).mp degrades.found).1 foundMust,
      ((atLeastAsPrecise_iff _ _).mp degrades.dominance).1 dominanceMust⟩
  · rw [kindRelation_eq_no] at no ⊢
    refine ⟨fun empty => weaker (no.1 ((eq_nil_of_forall₂ h).mp empty)), fun pair member => ?_⟩
    obtain ⟨pair', member, degrades⟩ := exists_right_of_forall₂ h member
    exact ((atLeastAsPrecise_iff _ _).mp degrades.conjoined).2.1 (no.2 pair' member)

variable {evidence degraded : EvidenceByKind}

private theorem relationsByKind_degrades
    (h : EvidenceDegrades evidence degraded) (weaker : discovery' = true → discovery = true) :
    List.Forall₂ (fun entry entry' => atLeastAsPrecise entry.2 entry'.2 = true)
      (relationsByKind evidence discovery) (relationsByKind degraded discovery') := by
  rw [relationsByKind, relationsByKind, forall₂_map_left_iff, forall₂_map_right_iff]
  exact h.imp fun _ _ entries => kindRelation_degrades entries.2 weaker

/-- Less precise evidence keeps the judgment of an obligation or makes it indeterminate. -/
theorem mixedObligation_degrades {relations degraded : List (DischargerKind × EvidenceRelation)}
    (h : List.Forall₂ (fun entry entry' => atLeastAsPrecise entry.2 entry'.2 = true)
      relations degraded) :
    (mixedObligation degraded).1 = (mixedObligation relations).1 ∨
      (mixedObligation degraded).1 = .indeterminate := by
  cases verdict : (mixedObligation degraded).1 with
  | indeterminate => exact .inr rfl
  | discharged =>
    left
    symm
    rw [mixedObligation_discharged] at verdict ⊢
    intro entry member
    obtain ⟨entry', member, precise⟩ := exists_right_of_forall₂ h member
    exact ((atLeastAsPrecise_iff _ _).mp precise).1 (verdict entry' member)
  | unguarded =>
    left
    symm
    rw [mixedObligation_unguarded] at verdict ⊢
    obtain ⟨decided, entry', member', absent⟩ := verdict
    constructor
    · intro entry member
      obtain ⟨entry', member, precise⟩ := exists_right_of_forall₂ h member
      obtain ⟨must, no, -⟩ := (atLeastAsPrecise_iff _ _).mp precise
      exact (decided entry' member).imp must no
    · obtain ⟨entry, member, precise⟩ := exists_left_of_forall₂ h member'
      exact ⟨entry, member, ((atLeastAsPrecise_iff _ _).mp precise).2.1 absent⟩

theorem judgmentForPath_degrades (operation : Operation)
    {completeness completeness' : Completeness}
    (h : EvidenceDegrades evidence degraded)
    (incomplete : completeness'.isComplete = true → completeness.isComplete = true)
    (weaker : discovery' = true → discovery = true) :
    JudgmentDegrades (judgmentForPath operation evidence completeness discovery)
      (judgmentForPath operation degraded completeness' discovery') := by
  cases known' : completeness'.isComplete with
  | false => constructor <;> simp [judgmentForPath, known']
  | true =>
    have known := incomplete known'
    constructor
    · simpa [judgmentForPath, known, known'] using
        mixedObligation_degrades (relationsByKind_degrades h weaker)
    · simp [judgmentForPath, known, known']

private theorem aggregateJudgments_unguarded (judgments : List (PathJudgment DischargerKind)) :
    (aggregateJudgments judgments).judgment = .unguarded ↔
      ∃ judgment ∈ judgments, judgment.completely .unguarded = true := by
  unfold aggregateJudgments
  rw [← any_eq_true]
  split_ifs <;> simp_all

theorem aggregateJudgments_discharged (judgments : List (PathJudgment DischargerKind)) :
    (aggregateJudgments judgments).judgment = .discharged ↔
      judgments ≠ [] ∧ ∀ judgment ∈ judgments, judgment.completely .discharged = true := by
  rw [← all_eq_true]
  unfold aggregateJudgments
  split
  next unguarded =>
    simp only [reduceCtorEq, false_iff, not_and, Bool.not_eq_true]
    intro _
    rw [any_eq_true] at unguarded
    obtain ⟨judgment, member, verdict⟩ := unguarded
    rw [all_eq_false]
    refine ⟨judgment, member, ?_⟩
    simp only [PathJudgment.completely, Bool.and_eq_true, decide_eq_true_eq] at verdict ⊢
    simp [verdict.1]
  next => split_ifs <;> simp_all

theorem JudgmentDegrades.completely {judgment degraded : PathJudgment DischargerKind}
    (h : JudgmentDegrades judgment degraded) {verdict : PairJudgment}
    (definite : verdict ≠ .indeterminate) (kept : degraded.completely verdict = true) :
    judgment.completely verdict = true := by
  simp only [PathJudgment.completely, Bool.and_eq_true, decide_eq_true_eq] at kept ⊢
  rcases h.verdict with same | lost
  · exact ⟨same ▸ kept.1, h.completeness kept.2⟩
  · exact absurd (kept.1.symm.trans lost) definite

/-- So do less precise judgments that of their aggregate. -/
theorem aggregateJudgments_degrades {judgments degraded : List (PathJudgment DischargerKind)}
    (h : List.Forall₂ JudgmentDegrades judgments degraded) :
    (aggregateJudgments degraded).judgment = (aggregateJudgments judgments).judgment ∨
      (aggregateJudgments degraded).judgment = .indeterminate := by
  cases verdict : (aggregateJudgments degraded).judgment with
  | indeterminate => exact .inr rfl
  | unguarded =>
    left
    symm
    rw [aggregateJudgments_unguarded] at verdict ⊢
    obtain ⟨judgment', member, unguarded⟩ := verdict
    obtain ⟨judgment, member, degrades⟩ := exists_left_of_forall₂ h member
    exact ⟨judgment, member, degrades.completely (by simp) unguarded⟩
  | discharged =>
    left
    symm
    rw [aggregateJudgments_discharged] at verdict ⊢
    refine ⟨fun empty => verdict.1 ((eq_nil_of_forall₂ h).mp empty), fun judgment member => ?_⟩
    obtain ⟨judgment', member, degrades⟩ := exists_right_of_forall₂ h member
    exact degrades.completely (by simp) (verdict.2 judgment' member)

abbrev PathEvidence := EvidenceByKind × Completeness

structure PathDegrades (path degraded : PathEvidence) : Prop where
  evidence : EvidenceDegrades path.1 degraded.1
  completeness : degraded.2.isComplete = true → path.2.isComplete = true

/-- Losing evidence never manufactures a verdict: on one path, over any list of path
judgments, and over any list of paths judged from their evidence. -/
theorem lost_evidence_keeps_or_abstains :
    (∀ (operation : Operation) (path degraded : PathEvidence) (discovery discovery' : Bool),
      PathDegrades path degraded → (discovery' = true → discovery = true) →
      (judgmentForPath operation degraded.1 degraded.2 discovery').judgment =
          (judgmentForPath operation path.1 path.2 discovery).judgment ∨
        (judgmentForPath operation degraded.1 degraded.2 discovery').judgment =
          .indeterminate) ∧
    (∀ judgments degraded : List (PathJudgment DischargerKind),
      List.Forall₂ JudgmentDegrades judgments degraded →
      (aggregateJudgments degraded).judgment = (aggregateJudgments judgments).judgment ∨
        (aggregateJudgments degraded).judgment = .indeterminate) ∧
    ∀ (operation : Operation) (paths degraded : List PathEvidence),
      List.Forall₂ PathDegrades paths degraded →
      let verdict := fun paths => (aggregateJudgments (paths.map fun path =>
        judgmentForPath operation path.1 path.2)).judgment
      verdict degraded = verdict paths ∨ verdict degraded = .indeterminate := by
  refine ⟨fun operation path degraded discovery discovery' h weaker => ?_,
    fun judgments degraded h => aggregateJudgments_degrades h, fun operation paths degraded h => ?_⟩
  · exact (judgmentForPath_degrades operation h.evidence h.completeness weaker).verdict
  · apply aggregateJudgments_degrades
    rw [forall₂_map_left_iff, forall₂_map_right_iff]
    exact h.imp fun _ _ degrades =>
      judgmentForPath_degrades operation degrades.evidence degrades.completeness id

/-- A path guarded by one MUST witness, whose dominance is then lost. -/
theorem lost_dominance_abstains :
    let operation : Operation :=
      ⟨"a.py", 5, "view", .protectedRead, "orm-read", some "book", [.pathGuard]⟩
    let found : WitnessMatch := ⟨.must, .must, .must, []⟩
    let path : PathEvidence := ([(.pathGuard, [(found, ⟨.must, none, none⟩)])], .complete)
    let degraded : PathEvidence := ([(.pathGuard, [(found, ⟨.unknown, none, none⟩)])], .complete)
    (judgmentForPath operation path.1 path.2).judgment = .discharged ∧
      (judgmentForPath operation degraded.1 degraded.2).judgment = .indeterminate ∧
      ((aggregateJudgments [judgmentForPath operation degraded.1 degraded.2]).judgment =
          (aggregateJudgments [judgmentForPath operation path.1 path.2]).judgment ∨
        (aggregateJudgments [judgmentForPath operation degraded.1 degraded.2]).judgment =
          .indeterminate) := by
  intro operation found path degraded
  have degrades : PathDegrades path degraded :=
    ⟨.cons ⟨rfl, .cons ⟨by decide, by decide⟩ .nil⟩ .nil, id⟩
  have same : (judgmentForPath operation degraded.1 degraded.2).judgment =
      (judgmentForPath operation path.1 path.2).judgment ∨
      (judgmentForPath operation degraded.1 degraded.2).judgment = .indeterminate :=
    lost_evidence_keeps_or_abstains.1 operation path degraded true true degrades id
  refine ⟨by decide, same.resolve_left (by decide), ?_⟩
  exact lost_evidence_keeps_or_abstains.2.2 operation [path] [degraded] (.cons degrades .nil)

end OpenUltraSast.Obligations
