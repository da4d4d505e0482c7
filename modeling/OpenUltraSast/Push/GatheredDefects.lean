import OpenUltraSast.Push.ShownAlert

/-!
# What the candidates of a defect give it

When candidates of one defect are of one family, no candidate speaks against another.
-/

namespace OpenUltraSast.Push.Admission

open Values Model List

def contributionsTo (dispositions : List CandidateDisposition) (id : String) :
    List Contribution :=
  (dispositions.filter (CandidateDisposition.supports id)).filterMap (·.contribution)

def gathered (id : String) : List Contribution → Option ActionableDefect
  | [] => none
  | c :: rest => some (rest.foldl ActionableDefect.add (c.defect id))

theorem gathered_concat (id : String) (contributions : List Contribution) (c : Contribution) :
    gathered id (contributions ++ [c]) = some (match gathered id contributions with
      | some previous => previous.add c
      | none => c.defect id) := by
  cases contributions with
  | nil => rfl
  | cons first rest =>
    rw [cons_append, gathered, foldl_append]
    rfl

private theorem mem_union {α : Type} [DecidableEq α] {old new : List α} {x : α} :
    x ∈ union old new ↔ x ∈ old ∨ x ∈ new := by
  rw [union, mem_eraseDups, mem_append]

variable {defect : ActionableDefect} {id : String} {contributions : List Contribution}

theorem mem_gathered {α : Type} [DecidableEq α] (field : ActionableDefect → List α)
    (own : Contribution → List α) (starts : ∀ c id, field (c.defect id) = own c)
    (adds : ∀ defect c, field (defect.add c) = union (field defect) (own c))
    (made : gathered id contributions = some defect) (x : α) :
    x ∈ field defect ↔ ∃ c ∈ contributions, x ∈ own c := by
  have added : ∀ (rest : List Contribution) (start : ActionableDefect),
      x ∈ field (rest.foldl ActionableDefect.add start) ↔
        x ∈ field start ∨ ∃ c ∈ rest, x ∈ own c := by
    intro rest
    induction rest with
    | nil => simp
    | cons c rest ih =>
      intro start
      rw [foldl_cons, ih, adds, mem_union]
      simp [or_assoc]
  cases contributions with
  | nil => cases made
  | cons c rest =>
    cases made
    rw [added, starts]
    simp

variable {c : Contribution}

theorem gathered_family {rest : List Contribution}
    (made : gathered id (c :: rest) = some defect) :
    defect.family = c.family ∧ defect.defectId = id := by
  cases made
  exact List.foldlRecOn (motive := fun (defect : ActionableDefect) => defect.family = c.family ∧ defect.defectId = id)
    rest _ ⟨rfl, rfl⟩ fun _ same _ _ => same

/-- A defect has the members that contributions give it, and no others. -/
structure Gathers (contributions : List Contribution) (defect : ActionableDefect) : Prop where
  family : ∀ c ∈ contributions, defect.family = c.family
  witnesses : ∀ x, x ∈ defect.witnesses ↔ ∃ c ∈ contributions, x = c.witness
  locations : ∀ x, x ∈ defect.locations ↔ ∃ c ∈ contributions, x = c.location
  comparisons : ∀ x, x ∈ defect.comparisons ↔ ∃ c ∈ contributions, x = c.comparison
  refs : ∀ x, x ∈ defect.refs ↔ ∃ c ∈ contributions, x ∈ c.comparison.refs
  changeEvidence : ∀ x, x ∈ defect.changeEvidence ↔ ∃ c ∈ contributions, x ∈ c.changeEvidence
  consequences : ∀ x, x ∈ defect.consequences ↔ ∃ c ∈ contributions, x = c.consequence
  repairs : ∀ x, x ∈ defect.repairs ↔ ∃ c ∈ contributions, x = c.repair
  evaluationIds : ∀ x, x ∈ defect.evaluationIds ↔ ∃ c ∈ contributions, x = c.evaluationId

theorem gathers (made : gathered id contributions = some defect)
    (agree : ∀ c ∈ contributions, ∀ other ∈ contributions, c.family = other.family) :
    Gathers contributions defect where
  family c member := by
    cases contributions with
    | nil => cases made
    | cons first rest => exact (gathered_family made).1.trans (agree first mem_cons_self c member)
  witnesses x := by
    simp only [mem_gathered (·.witnesses) (fun c => [c.witness]) (fun _ _ => rfl) (fun _ _ => rfl) made,
      mem_singleton]
  locations x := by
    simp only [mem_gathered (·.locations) (fun c => [c.location]) (fun _ _ => rfl) (fun _ _ => rfl) made,
      mem_singleton]
  comparisons x := by
    simp only [mem_gathered (·.comparisons) (fun c => [c.comparison]) (fun _ _ => rfl)
      (fun _ _ => rfl) made, mem_singleton]
  refs := mem_gathered (·.refs) (·.comparison.refs) (fun _ _ => rfl) (fun _ _ => rfl) made
  changeEvidence :=
    mem_gathered (·.changeEvidence) (·.changeEvidence) (fun _ _ => rfl) (fun _ _ => rfl) made
  consequences x := by
    simp only [mem_gathered (·.consequences) (fun c => [c.consequence]) (fun _ _ => rfl)
      (fun _ _ => rfl) made, mem_singleton]
  repairs x := by
    simp only [mem_gathered (·.repairs) (fun c => [c.repair]) (fun _ _ => rfl) (fun _ _ => rfl) made,
      mem_singleton]
  evaluationIds x := by
    simp only [mem_gathered (·.evaluationIds) (fun c => [c.evaluationId]) (fun _ _ => rfl)
      (fun _ _ => rfl) made, mem_singleton]

def FamiliesAgree (candidates : List AdmissionCandidate) : Prop :=
  ∀ a ∈ candidates, ∀ b ∈ candidates,
    a.delta.defectId = b.delta.defectId → a.delta.family = b.delta.family

/-- The candidates that were taken have the dispositions they have alone, and each defect is what its
admitted candidates contribute. -/
structure Gathered (capabilities : List CapabilityAdmission) (taken : List AdmissionCandidate)
    (s : Admitting) : Prop where
  dispositions : s.dispositions = taken.map (dispose capabilities [])
  distinct : (Dicts.keys s.defects).Nodup
  defects : ∀ id, s.defects.lookup id = gathered id (contributionsTo s.dispositions id)

variable {d : CandidateDisposition}

section
variable {capabilities : List CapabilityAdmission} {taken : List AdmissionCandidate} {s : Admitting}

theorem contribution_family (contributed : d.contribution = some c) :
    c.family = d.candidate.delta.family := by
  simp only [CandidateDisposition.contribution, Option.bind_eq_bind, Option.bind_eq_some_iff,
    Option.some.injEq] at contributed
  obtain ⟨_, _, _, _, _, _, _, _, _, _, rfl⟩ := contributed
  rfl

theorem mem_contributionsTo {dispositions : List CandidateDisposition} :
    c ∈ contributionsTo dispositions id ↔
      ∃ d ∈ dispositions, d.supports id = true ∧ d.contribution = some c := by
  rw [contributionsTo, mem_filterMap]
  simp only [mem_filter, and_assoc]

theorem supports_iff : d.supports id = true ↔ d.admitted = true ∧ d.defectId = id := by
  rw [CandidateDisposition.supports, Bool.and_eq_true, decide_eq_true_iff]

theorem Gathered.family (gathered_ : Gathered capabilities taken s)
    (found : s.defects.lookup id = some defect) :
    ∃ other ∈ taken, other.delta.defectId = id ∧ defect.family = other.delta.family := by
  rw [gathered_.defects] at found
  cases from_ : contributionsTo s.dispositions id with
  | nil =>
    rw [from_] at found
    cases found
  | cons c rest =>
    rw [from_] at found
    obtain ⟨d, member, supports, contributed⟩ :=
      mem_contributionsTo.mp (from_ ▸ mem_cons_self)
    rw [gathered_.dispositions] at member
    obtain ⟨other, took, rfl⟩ := mem_map.mp member
    exact ⟨other, took, (supports_iff.mp supports).2,
      (gathered_family found).1.trans (contribution_family contributed)⟩

variable {candidate : AdmissionCandidate}

theorem Gathered.dispose_eq (gathered_ : Gathered capabilities taken s)
    (agree : ∀ other ∈ taken,
      other.delta.defectId = candidate.delta.defectId →
        other.delta.family = candidate.delta.family) :
    dispose capabilities s.defects candidate = dispose capabilities [] candidate := by
  have alone : reasonsOf capabilities s.defects candidate = reasonsOf capabilities [] candidate := by
    simp only [reasonsOf]
    congr 1
    refine (unless_eq_nil.mpr ?_).trans (unless_eq_nil.mpr rfl).symm
    rw [Option.all_eq_true]
    intro defect found
    obtain ⟨other, member, same, family⟩ := gathered_.family found
    exact decide_eq_true (family.trans (agree other member same))
  simp only [dispose, alone]

/-- One more candidate leaves each defect gathered from its contributions. -/
theorem Gathered.add (gathered_ : Gathered capabilities taken s)
    (agree : ∀ other ∈ taken, other.delta.defectId = candidate.delta.defectId →
      other.delta.family = candidate.delta.family) :
    Gathered capabilities (taken ++ [candidate]) (s.add capabilities candidate) := by
  have alone := gathered_.dispose_eq agree
  have dispositions : s.dispositions ++ [dispose capabilities [] candidate] =
      (taken ++ [candidate]).map (dispose capabilities []) := by
    rw [map_append, gathered_.dispositions]
    rfl
  rw [Admitting.add, alone]
  cases admitted : (dispose capabilities [] candidate).admitted with
  | false =>
    refine ⟨dispositions, gathered_.distinct, fun id => ?_⟩
    have passed : (dispose capabilities [] candidate).supports id = false := by
      rw [CandidateDisposition.supports, admitted, Bool.false_and]
    rw [contributionsTo, filter_append, filter_cons_of_neg (by simp [passed]),
      filter_nil, append_nil]
    exact gathered_.defects id
  | true =>
    obtain ⟨c, contributed, _⟩ := contribution_of_no_reasons (List.isEmpty_iff.mp admitted)
    rw [contributed]
    refine ⟨dispositions, Dicts.nodup_set gathered_.distinct _ _, fun id => ?_⟩
    dsimp only
    rw [Dicts.lookup_set, contributionsTo, filter_append, filterMap_append]
    by_cases here : id = candidate.delta.defectId
    · have supports : (dispose capabilities [] candidate).supports id = true :=
        supports_iff.mpr ⟨admitted, here.symm⟩
      rw [if_pos here, filter_cons_of_pos supports, filter_nil, ← here,
        gathered_.defects id, filterMap_cons_some contributed, filterMap_nil]
      exact (gathered_concat id _ c).symm
    · have passed : ¬ (dispose capabilities [] candidate).supports id = true := fun supports =>
        here (supports_iff.mp supports).2.symm
      rw [if_neg here, filter_cons_of_neg passed, filter_nil, filterMap_nil,
        append_nil]
      exact gathered_.defects id

theorem gathered_foldl {candidates : List AdmissionCandidate} (agree : FamiliesAgree candidates) :
    Gathered capabilities candidates (candidates.foldl (Admitting.add capabilities) {}) := by
  have run : ∀ rest taken s, taken ++ rest = candidates → Gathered capabilities taken s →
      Gathered capabilities candidates (rest.foldl (Admitting.add capabilities) s) := by
    intro rest
    induction rest with
    | nil =>
      intro taken s all gathered_
      rw [append_nil] at all
      exact all ▸ gathered_
    | cons candidate rest ih =>
      intro taken s all gathered_
      refine ih (taken ++ [candidate]) _ (by rw [append_assoc]; exact all) (gathered_.add ?_)
      intro other member
      refine agree other (all ▸ mem_append_left _ member) candidate (all ▸ ?_)
      exact mem_append_right _ mem_cons_self
  exact run candidates [] {} rfl ⟨rfl, nodup_nil, fun _ => rfl⟩

section
variable (gathered_ : Gathered capabilities taken s)
include gathered_

theorem Gathered.entry {entry : String × ActionableDefect}
    (member : entry ∈ s.defects) :
    gathered entry.1 (contributionsTo s.dispositions entry.1) = some entry.2 ∧
      entry.2.defectId = entry.1 := by
  have made := gathered_.defects entry.1
  rw [Collections.lookup_of_nodup gathered_.distinct member] at made
  refine ⟨made.symm, ?_⟩
  cases from_ : contributionsTo s.dispositions entry.1 with
  | nil =>
    rw [from_] at made
    cases made
  | cons c rest => exact (gathered_family (from_ ▸ made.symm)).2

theorem Gathered.ids :
    (s.defects.map (·.2)).map (·.defectId) = Dicts.keys s.defects := by
  rw [map_map]
  exact map_congr_left fun entry member => (gathered_.entry member).2

theorem Gathered.contributes (member : d ∈ s.dispositions)
    (admitted : d.admitted = true) : ∃ c, d.contribution = some c := by
  rw [gathered_.dispositions] at member
  obtain ⟨candidate, -, rfl⟩ := mem_map.mp member
  obtain ⟨c, contributed, _⟩ := contribution_of_no_reasons (List.isEmpty_iff.mp admitted)
  exact ⟨c, contributed⟩

theorem Gathered.mem_keys :
    id ∈ Dicts.keys s.defects ↔ ∃ d ∈ s.dispositions, d.admitted = true ∧ d.defectId = id := by
  rw [Dicts.mem_keys_iff, gathered_.defects]
  constructor
  · rintro ⟨defect, made⟩
    cases from_ : contributionsTo s.dispositions id with
    | nil =>
      rw [from_] at made
      cases made
    | cons c rest =>
      obtain ⟨d, member, supports, _⟩ := mem_contributionsTo.mp (from_ ▸ mem_cons_self)
      exact ⟨d, member, supports_iff.mp supports⟩
  · rintro ⟨d, member, supports⟩
    obtain ⟨c, contributed⟩ := gathered_.contributes member supports.1
    have inside : c ∈ contributionsTo s.dispositions id :=
      mem_contributionsTo.mpr ⟨d, member, supports_iff.mpr supports, contributed⟩
    obtain ⟨first, rest, from_⟩ := exists_cons_of_ne_nil (ne_nil_of_mem inside)
    rw [from_]
    exact ⟨_, rfl⟩

theorem Gathered.agree (agree : FamiliesAgree taken)
    {id : String} : ∀ c ∈ contributionsTo s.dispositions id,
      ∀ other ∈ contributionsTo s.dispositions id, c.family = other.family := by
  intro c member other member'
  obtain ⟨d, there, supports, contributed⟩ := mem_contributionsTo.mp member
  obtain ⟨d', there', supports', contributed'⟩ := mem_contributionsTo.mp member'
  rw [gathered_.dispositions] at there there'
  obtain ⟨a, took, rfl⟩ := mem_map.mp there
  obtain ⟨b, took', rfl⟩ := mem_map.mp there'
  rw [contribution_family contributed, contribution_family contributed']
  exact agree a took b took' ((supports_iff.mp supports).2.trans (supports_iff.mp supports').2.symm)

end

/-- Where candidates of one defect are of one family, each has the disposition it has in every order of
the list, there is one defect for the id of each admitted candidate, and it has what its admitted
candidates contribute. -/
theorem admitCandidates_spec (capabilities : List CapabilityAdmission)
    {candidates : List AdmissionCandidate} (agree : FamiliesAgree candidates) :
    (∃ disposed : AdmissionCandidate → CandidateDisposition,
      (∀ c, (disposed c).candidate = c ∧
        ((disposed c).admitted = true ↔ (disposed c).reasons = [])) ∧
      ∀ order, order.Perm candidates →
        (admitCandidates capabilities order).dispositions = order.map disposed) ∧
    ((admitCandidates capabilities candidates).defects.map (·.defectId)).Nodup ∧
    (∀ id, id ∈ (admitCandidates capabilities candidates).defects.map (·.defectId) ↔
      ∃ d ∈ (admitCandidates capabilities candidates).dispositions,
        d.admitted = true ∧ d.defectId = id) ∧
    (∀ d ∈ (admitCandidates capabilities candidates).dispositions, d.admitted = true →
      d.contribution.isSome = true) ∧
    ∀ defect ∈ (admitCandidates capabilities candidates).defects,
      Gathers (contributionsTo (admitCandidates capabilities candidates).dispositions
        defect.defectId) defect := by
  have gathered_ := @gathered_foldl capabilities candidates agree
  refine ⟨⟨dispose capabilities [], fun c => ⟨rfl, List.isEmpty_iff⟩, fun order same => ?_⟩, ?_⟩
  · have agree' : FamiliesAgree order := fun a left b right =>
      agree a (same.subset left) b (same.subset right)
    exact (gathered_foldl agree').dispositions
  refine ⟨?_, fun id => ?_, fun d member admitted => ?_, fun defect member => ?_⟩
  · exact gathered_.ids ▸ gathered_.distinct
  · exact gathered_.ids ▸ gathered_.mem_keys
  · exact Option.isSome_iff_exists.mpr (gathered_.contributes member admitted)
  · obtain ⟨entry, there, rfl⟩ := mem_map.mp member
    obtain ⟨made, same⟩ := gathered_.entry there
    rw [same]
    exact gathers made (gathered_.agree agree)

end

theorem mergedAdmission_gathers : mergedAdmission.dispositions.length = 2 ∧
    ∀ defect ∈ mergedAdmission.defects,
      Gathers (contributionsTo mergedAdmission.dispositions defect.defectId) defect := by
  have agree : FamiliesAgree [shellCandidate "app.py" "request.args -> os.system" "head:app.py:1-5",
      shellCandidate "jobs.py" "request.form -> os.system" "head:jobs.py:1-5"] := by
    intro a left b right _
    rcases mem_pair.mp left with rfl | rfl <;> rcases mem_pair.mp right with rfl | rfl <;> rfl
  have spec := admitCandidates_spec [shellCapability] agree
  obtain ⟨disposed, -, all⟩ := spec.1
  exact ⟨congrArg List.length (all _ (List.Perm.refl _)), spec.2.2.2.2⟩

end OpenUltraSast.Push.Admission
