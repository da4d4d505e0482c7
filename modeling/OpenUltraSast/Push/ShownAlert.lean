import OpenUltraSast.Push.Admission

/-!
# The report of a push

What a report retains of an admission, and the alert that it prints for a defect.
-/

namespace OpenUltraSast.Push.Admission

open Values Model

/-- A `PushReport`, with what it checks of its admission; the scans, timings and provenance that it
checks besides do not bear on the alerts. -/
structure PushReport where
  admission : AdmissionResult
  actionableDefectIds : List String
  modelAssistance : List (String × Json) := []
  distinct : actionableDefectIds.Nodup
  exact : admission.defects.map (·.defectId) = actionableDefectIds
  summaries : ∀ defect ∈ admission.defects,
    defect.witnesses ≠ [] ∧ defect.locations ≠ [] ∧ defect.consequences ≠ [] ∧
      defect.repairs ≠ [] ∧ defect.changeEvidence ≠ [] ∧ defect.comparisons ≠ []
  retained : ∀ id, id ∈ actionableDefectIds ↔
    ∃ d ∈ admission.dispositions, d.admitted = true ∧ d.defectId = id

def CandidateDisposition.supports (id : String) (d : CandidateDisposition) : Bool :=
  d.admitted && d.defectId = id

namespace PushReport

variable (report : PushReport) (defect : ActionableDefect)

def supported : List CandidateDisposition :=
  report.admission.dispositions.filter (CandidateDisposition.supports defect.defectId)

def selection : Nat :=
  match report.modelAssistance.lookup "selections" with
  | some (.obj choices) =>
    match choices.lookup defect.defectId with
    | some (.int index) => if 0 ≤ index ∧ index < defect.witnesses.length then index.toNat else 0
    | _ => 0
  | _ => 0

def chosen : Option CandidateDisposition :=
  ((report.supported defect).find? fun d =>
      d.candidate.delta.witness = defect.witnesses[report.selection defect]?).or
    (report.supported defect).head?

end PushReport

def changeSentence (reason : String) : String :=
  if reason = "discharge_removed" then "A protection present in the base is missing here."
  else "This change connects input to the operation."

/-- What the lines of an alert show. -/
structure Shown where
  family : String
  location : String × Nat
  consequence : String
  witness : String
  change : String
  changeEvidence : String
  repair : String
deriving DecidableEq

def locationOf (delta : CandidateDelta) : Option (String × Nat) :=
  delta.headOperation.map fun op => (op.path, op.line)

/-- The alert of a defect; none is an `IndexError`. -/
def PushReport.shown (report : PushReport) (defect : ActionableDefect) : Option Shown := do
  let delta := (← report.chosen defect).candidate.delta
  some
    { family := defect.family
      location := (locationOf delta).getD (← defect.locations.head?)
      consequence := ← defect.consequences.head?
      witness := delta.witness.getD (← defect.witnesses.head?)
      change := changeSentence delta.reason
      changeEvidence := ← defect.changeEvidence.head?
      repair := ← defect.repairs.head? }

def PushReport.printed (report : PushReport) : List ActionableDefect :=
  report.admission.defects.take 3

end OpenUltraSast.Push.Admission

/-!
## The candidate behind an alert

An alert takes its witness, place and kind of change from the chosen candidate, and its family,
consequence, repair and change evidence from what stands first in the defect: the contribution of
the defect's first candidate.
-/

namespace OpenUltraSast.Push.Admission

open Values Model List

theorem head?_union {α : Type} [DecidableEq α] (old new : List α) :
    (union old new).head? = old.head?.or new.head? := by
  have first (l : List α) : l.eraseDups.head? = l.head? := by
    cases l with
    | nil => rfl
    | cons a l => rw [eraseDups_cons, List.head?_cons, List.head?_cons]
  rw [union, first, List.head?_append]

structure Leads (c : Contribution) (defect : ActionableDefect) : Prop where
  family : defect.family = c.family
  witness : defect.witnesses.head? = some c.witness
  location : defect.locations.head? = some c.location
  changeEvidence : ∃ e, defect.changeEvidence.head? = some e ∧ c.changeEvidence.head? = some e
  consequence : defect.consequences.head? = some c.consequence
  repair : defect.repairs.head? = some c.repair

variable {c : Contribution} {id : String}

private theorem leads_defect (evidence : c.changeEvidence ≠ []) (id : String) :
    Leads c (c.defect id) where
  family := rfl
  witness := rfl
  location := rfl
  changeEvidence := by
    obtain ⟨e, rest, is⟩ := exists_cons_of_ne_nil evidence
    exact ⟨e, by rw [Contribution.defect, is]; rfl, by rw [is]; rfl⟩
  consequence := rfl
  repair := rfl

variable {defect : ActionableDefect} {start : List (String × ActionableDefect)} {report : PushReport}

theorem Leads.add (leads : Leads c defect) (more : Contribution) : Leads c (defect.add more) := by
  obtain ⟨e, first, own⟩ := leads.changeEvidence
  constructor
  case family => exact leads.family
  case changeEvidence => exact ⟨e, by rw [ActionableDefect.add, head?_union, first]; rfl, own⟩
  all_goals rw [ActionableDefect.add, head?_union]
  · rw [leads.witness]; rfl
  · rw [leads.location]; rfl
  · rw [leads.consequence]; rfl
  · rw [leads.repair]; rfl

theorem Leads.join (leads : Leads c defect) (more : ActionableDefect) :
    Leads c (defect.join more) := by
  obtain ⟨e, first, own⟩ := leads.changeEvidence
  constructor
  case family => exact leads.family
  case changeEvidence => exact ⟨e, by rw [ActionableDefect.join, head?_union, first]; rfl, own⟩
  all_goals rw [ActionableDefect.join, head?_union]
  · rw [leads.witness]; rfl
  · rw [leads.location]; rfl
  · rw [leads.consequence]; rfl
  · rw [leads.repair]; rfl

theorem unless_eq_nil {met : Bool} {reason : String} : unless_ met reason = [] ↔ met = true := by
  cases met <;> simp [unless_]

private theorem single_of_no_reasons {found : List CapabilityAdmission}
    (none : capabilityReasons found = []) : ∃ cap, found = [cap] := by
  match found with
  | [] => cases none
  | [cap] => exact ⟨cap, rfl⟩
  | _ :: _ :: _ => cases none

theorem evidence_of_no_reasons {delta : CandidateDelta} (none : noveltyReasons delta = []) :
    delta.changeEvidence ≠ [] := by
  rw [noveltyReasons] at none
  split at none
  · cases none
  · split at none
    · cases none
    · rw [unless_eq_nil, Bool.and_eq_true] at none
      exact of_decide_eq_true none.1

variable {candidate : AdmissionCandidate}

private theorem grounded_of_no_reasons {op : EvidenceOperation}
    {cap : CapabilityAdmission} (none : operationReasons candidate op (some cap) = []) :
    (∃ consequence, consequenceOf candidate op cap = some consequence) ∧
      ∃ repair, repairOf candidate op cap = some repair := by
  simp only [operationReasons, append_eq_nil_iff, unless_eq_nil] at none
  exact ⟨Option.isSome_iff_exists.mp none.2.1.2, Option.isSome_iff_exists.mp none.2.2⟩

theorem contribution_of_no_reasons {capabilities : List CapabilityAdmission}
    {defects : List (String × ActionableDefect)}
    (admitted : reasonsOf capabilities defects candidate = []) :
    ∃ c, (dispose capabilities defects candidate).contribution = some c ∧
      c.changeEvidence ≠ [] := by
  simp only [reasonsOf, append_eq_nil_iff] at admitted
  obtain ⟨⟨⟨⟨⟨⟨⟨⟨capability, -⟩, -⟩, novelty⟩, resolved⟩, operation⟩, -⟩, -⟩, -⟩ := admitted
  obtain ⟨cap, found⟩ := single_of_no_reasons capability
  rw [unless_eq_nil, Bool.and_eq_true, Option.isSome_iff_exists, Option.isSome_iff_exists] at resolved
  obtain ⟨⟨op, isOp⟩, witness, isWitness⟩ := resolved
  rw [isOp, found] at operation
  obtain ⟨⟨consequence, isConsequence⟩, repair, isRepair⟩ := grounded_of_no_reasons operation
  have contributed : (dispose capabilities defects candidate).contribution = some
      { family := candidate.delta.family, witness, location := (op.path, op.line)
        comparison := candidate.comparison, changeEvidence := candidate.delta.changeEvidence
        consequence, repair, evaluationId := cap.evaluationId } := by
    simp only [CandidateDisposition.contribution, dispose, isOp, isWitness, found, single,
      isConsequence, isRepair, Option.bind_eq_bind, Option.bind_some]
  exact ⟨_, contributed, evidence_of_no_reasons novelty⟩

structure Led (a : AdmissionResult) : Prop where
  leads : ∀ defect ∈ a.defects, ∃ d c,
    a.dispositions.find? (CandidateDisposition.supports defect.defectId) = some d ∧
      d.contribution = some c ∧ Leads c defect
  contributes : ∀ d ∈ a.dispositions, d.admitted = true → ∃ c, d.contribution = some c
  covered : ∀ d ∈ a.dispositions, d.admitted = true →
    ∃ defect ∈ a.defects, defect.defectId = d.defectId

structure LedSoFar (s : Admitting) : Prop where
  distinct : (Dicts.keys s.defects).Nodup
  leads : ∀ id defect, s.defects.lookup id = some defect → defect.defectId = id ∧ ∃ d c,
    s.dispositions.find? (CandidateDisposition.supports id) = some d ∧
      d.contribution = some c ∧ Leads c defect
  contributes : ∀ d ∈ s.dispositions, d.admitted = true → ∃ c, d.contribution = some c
  covered : ∀ d ∈ s.dispositions, d.admitted = true → d.defectId ∈ Dicts.keys s.defects

theorem not_supports {s : Admitting} (led : LedSoFar s) (absent : s.defects.lookup id = none) :
    s.dispositions.find? (CandidateDisposition.supports id) = none := by
  rw [List.find?_eq_none]
  intro d member supports
  rw [CandidateDisposition.supports, Bool.and_eq_true, decide_eq_true_eq] at supports
  exact Dicts.lookup_eq_none_iff.mp absent (supports.2 ▸ led.covered d member supports.1)

/-- One more candidate leaves each defect led by the first that supports it. -/
theorem LedSoFar.add {s : Admitting} (led : LedSoFar s) (capabilities : List CapabilityAdmission)
    (candidate : AdmissionCandidate) : LedSoFar (s.add capabilities candidate) := by
  rw [Admitting.add]
  cases admitted : (dispose capabilities s.defects candidate).admitted with
  | false =>
    -- a refused candidate supports no defect and changes none
    have passed (id : String) :
        (dispose capabilities s.defects candidate).supports id = false := by
      rw [CandidateDisposition.supports, admitted, Bool.false_and]
    constructor
    case distinct => exact led.distinct
    case leads =>
      intro id defect found
      obtain ⟨same, d, c, first, rest⟩ := led.leads id defect found
      exact ⟨same, d, c, by rw [List.find?_append, first]; rfl, rest⟩
    case contributes =>
      intro d member isAdmitted
      rcases mem_append.mp member with old | new
      · exact led.contributes d old isAdmitted
      · rw [mem_singleton.mp new, admitted] at isAdmitted
        cases isAdmitted
    case covered =>
      intro d member isAdmitted
      rcases mem_append.mp member with old | new
      · exact led.covered d old isAdmitted
      · rw [mem_singleton.mp new, admitted] at isAdmitted
        cases isAdmitted
  | true =>
    -- an admitted one makes a contribution to its defect
    obtain ⟨c, contributed, evidence⟩ :=
      contribution_of_no_reasons (List.isEmpty_iff.mp admitted)
    have supports (id : String) : (dispose capabilities s.defects candidate).supports id =
        decide (candidate.delta.defectId = id) := by
      rw [CandidateDisposition.supports, admitted, Bool.true_and]
      rfl
    rw [contributed]
    constructor
    case distinct => exact Dicts.nodup_set led.distinct _ _
    case leads =>
      intro id defect found
      dsimp only at found ⊢
      rw [Dicts.lookup_set] at found
      rw [List.find?_append]
      split at found
      next here =>
        subst here
        cases old : s.defects.lookup candidate.delta.defectId with
        | some previous =>
          rw [old] at found
          cases found
          -- the defect is known: the first disposition that supports it stays the first
          obtain ⟨same, d, c', first, isC, leads⟩ := led.leads _ _ old
          exact ⟨same, d, c', by rw [first]; rfl, isC, leads.add c⟩
        | none =>
          rw [old] at found
          cases found
          -- the defect is new, and this disposition is the first that supports it
          refine ⟨rfl, _, c, ?_, contributed, leads_defect evidence _⟩
          rw [not_supports led old, Option.none_or, List.find?_cons, supports, decide_eq_true rfl]
      next other =>
        obtain ⟨same, d, c', first, rest⟩ := led.leads id defect found
        exact ⟨same, d, c', by rw [first]; rfl, rest⟩
    case contributes =>
      intro d member isAdmitted
      rcases mem_append.mp member with old | new
      · exact led.contributes d old isAdmitted
      · exact ⟨c, by rw [mem_singleton.mp new, contributed]⟩
    case covered =>
      intro d member isAdmitted
      rw [Dicts.mem_keys_set]
      rcases mem_append.mp member with old | new
      · exact .inr (led.covered d old isAdmitted)
      · rw [mem_singleton.mp new]
        exact .inl rfl

private theorem admitCandidates_led (capabilities : List CapabilityAdmission)
    (candidates : List AdmissionCandidate) : Led (admitCandidates capabilities candidates) := by
  have all (s : Admitting) (led : LedSoFar s) :
      LedSoFar (candidates.foldl (Admitting.add capabilities) s) := by
    induction candidates generalizing s with
    | nil => exact led
    | cons candidate candidates ih => exact ih _ (led.add capabilities candidate)
  have start : LedSoFar {} := by
    constructor
    · exact nodup_nil
    · intro id defect found
      cases found
    · intro d member
      cases member
    · intro d member
      cases member
  have led := all {} start
  constructor
  case leads =>
    intro defect member
    obtain ⟨⟨id, _⟩, entry, rfl⟩ := mem_map.mp member
    obtain ⟨same, rest⟩ := led.leads id _ (Collections.lookup_of_nodup led.distinct entry)
    exact same ▸ rest
  case contributes => exact led.contributes
  case covered =>
    intro d member admitted
    obtain ⟨defect, found⟩ := Dicts.mem_keys_iff.mp (led.covered d member admitted)
    exact ⟨defect, mem_map_of_mem (Dicts.mem_of_lookup found), (led.leads _ _ found).1⟩

def hasId (id : String) (defect : ActionableDefect) : Bool := defect.defectId = id

variable {first : ActionableDefect}

section
variable (defects : List ActionableDefect)
include defects

theorem lookup_joinDefect
    (is : (start.lookup id).or (defects.find? (hasId id)) = some first) (same : first.defectId = id)
    (leads : Leads c first) :
    ∃ defect, (defects.foldl joinDefect start).lookup id = some defect ∧ defect.defectId = id ∧
      Leads c defect := by
  -- on the defects still to be joined, the dictionary growing with each
  induction defects generalizing start first with
  | nil => exact ⟨first, by simpa using is, same, leads⟩
  | cons next defects ih =>
    rw [foldl_cons]
    have after : (joinDefect start next).lookup id = if id = next.defectId then
        -- where the id is known already this defect joins the one that stands for it
        some ((start.lookup next.defectId).elim next (·.join next)) else start.lookup id := by
      rw [joinDefect, Dicts.lookup_set]
      cases start.lookup next.defectId <;> rfl
    by_cases here : id = next.defectId
    · rw [if_pos here] at after
      cases old : start.lookup id with
      | some previous =>
        rw [old, Option.some_or, Option.some.injEq] at is
        subst is
        rw [← here, old] at after
        have both : ((joinDefect start next).lookup id).or (defects.find? (hasId id)) =
            some (previous.join next) := by
          rw [after]
          rfl
        exact ih both same (leads.join next)
      | none =>
        -- the id is new: this defect is the first with it
        have found : hasId id next = true := decide_eq_true here.symm
        rw [old, Option.none_or, List.find?_cons, found] at is
        cases is
        rw [← here, old] at after
        exact ih (by rw [after]; rfl) same leads
    · have passed : hasId id next = false := decide_eq_false fun is => here is.symm
      rw [if_neg here] at after
      rw [List.find?_cons, passed] at is
      exact ih (by rw [after]; exact is) same leads

theorem find?_of_lookup_joinDefect
    (found : (defects.foldl joinDefect start).lookup id = some defect) :
    ∃ first, (start.lookup id).or (defects.find? (hasId id)) = some first := by
  induction defects generalizing start with
  | nil => exact ⟨defect, by simpa using found⟩
  | cons next defects ih =>
    obtain ⟨first, is⟩ := ih found
    by_cases here : next.defectId = id
    · have found : hasId id next = true := decide_eq_true here
      cases old : start.lookup id with
      | some previous => exact ⟨previous, rfl⟩
      | none => exact ⟨next, by rw [List.find?_cons, found]; rfl⟩
    · have passed : hasId id next = false := decide_eq_false here
      have after : (joinDefect start next).lookup id = start.lookup id := by
        rw [joinDefect, Dicts.lookup_set, if_neg fun is => here is.symm]
      refine ⟨first, ?_⟩
      rw [after] at is
      rw [List.find?_cons, passed]
      exact is

private theorem nodup_joinDefect (distinct : (Dicts.keys start).Nodup) :
    (Dicts.keys (defects.foldl joinDefect start)).Nodup := by
  induction defects generalizing start with
  | nil => exact distinct
  | cons next defects ih => exact ih (Dicts.nodup_set distinct _ _)

private theorem mem_keys_joinDefect :
    id ∈ Dicts.keys (defects.foldl joinDefect start) ↔
      id ∈ Dicts.keys start ∨ ∃ defect ∈ defects, defect.defectId = id := by
  induction defects generalizing start with
  | nil => simp
  | cons next defects ih =>
    rw [foldl_cons, ih, joinDefect, Dicts.mem_keys_set, exists_mem_cons_iff, or_assoc,
      or_left_comm, eq_comm]

end

variable {reports : List AdmissionResult}

theorem find?_flatMap_led (led : ∀ a ∈ reports, Led a)
    (found : (reports.flatMap (·.defects)).find? (hasId id) = some first) :
    first.defectId = id ∧ ∃ d c,
      (reports.flatMap (·.dispositions)).find? (CandidateDisposition.supports id) = some d ∧
        d.contribution = some c ∧ Leads c first := by
  have same : first.defectId = id := by
    have isId := List.find?_some found
    exact of_decide_eq_true isId
  refine ⟨same, ?_⟩
  induction reports with
  | nil => cases found
  | cons a reports ih =>
    rw [forall_mem_cons] at led
    rw [flatMap_cons, List.find?_append] at found ⊢
    cases own : a.defects.find? (hasId id) with
    | some defect =>
      rw [own] at found
      cases found
      obtain ⟨d, c, candidate, rest⟩ := led.1.leads first (mem_of_find?_eq_some own)
      exact ⟨d, c, by rw [← same, candidate]; rfl, rest⟩
    | none =>
      -- A report without the defect has admitted none of its candidates.
      have absent : a.dispositions.find? (CandidateDisposition.supports id) = none := by
        rw [List.find?_eq_none]
        intro d member supports
        rw [CandidateDisposition.supports, Bool.and_eq_true, decide_eq_true_eq] at supports
        obtain ⟨defect, there, is⟩ := led.1.covered d member supports.1
        exact List.find?_eq_none.mp own defect there (decide_eq_true (is.trans supports.2))
      rw [own, Option.none_or] at found
      rw [absent, Option.none_or]
      exact ih led.2 found

private theorem joinAdmissions_led (reasons : List String)
    (led : ∀ a ∈ reports, Led a) : Led (joinAdmissions reasons reports) := by
  have distinct : (Dicts.keys ((reports.flatMap (·.defects)).foldl joinDefect [])).Nodup :=
    nodup_joinDefect _ nodup_nil
  constructor
  case leads =>
    intro defect member
    obtain ⟨⟨id, _⟩, entry, rfl⟩ := mem_map.mp member
    have found := Collections.lookup_of_nodup distinct entry
    obtain ⟨first, is⟩ := find?_of_lookup_joinDefect _ found
    obtain ⟨same, d, c, candidate, isC, leads⟩ := find?_flatMap_led led (by simpa using is)
    obtain ⟨defect, stands, isId, leads⟩ := lookup_joinDefect _ is same leads
    cases found.symm.trans stands
    exact ⟨d, c, by rw [isId]; exact candidate, isC, leads⟩
  case contributes =>
    intro d member admitted
    obtain ⟨a, there, member⟩ := mem_flatMap.mp member
    exact (led a there).contributes d member admitted
  case covered =>
    intro d member admitted
    obtain ⟨a, there, member⟩ := mem_flatMap.mp member
    obtain ⟨own, inside, same⟩ := (led a there).covered d member admitted
    have key : d.defectId ∈ Dicts.keys ((reports.flatMap (·.defects)).foldl joinDefect []) := by
      rw [mem_keys_joinDefect]
      exact .inr ⟨own, mem_flatMap.mpr ⟨a, there, inside⟩, same⟩
    obtain ⟨defect, found⟩ := Dicts.mem_keys_iff.mp key
    obtain ⟨first, is⟩ := find?_of_lookup_joinDefect _ found
    obtain ⟨isId, _, _, _, _, leads⟩ := find?_flatMap_led led (by simpa using is)
    obtain ⟨joined, stands, isId, -⟩ := lookup_joinDefect _ is isId leads
    exact ⟨joined, mem_map_of_mem (Dicts.mem_of_lookup stands), isId⟩

inductive Made : AdmissionResult → Prop where
  | one (capabilities : List CapabilityAdmission) (candidates : List AdmissionCandidate) :
      Made (admitCandidates capabilities candidates)
  | joined (reasons : List String) (reports : List AdmissionResult) (each : ∀ a ∈ reports, Made a) :
      Made (joinAdmissions reasons reports)

theorem Made.led {a : AdmissionResult} (made : Made a) : Led a := by
  induction made with
  | one capabilities candidates => exact admitCandidates_led capabilities candidates
  | joined reasons reports _ ih => exact joinAdmissions_led reasons ih

/-- All that an alert shows is what one candidate contributed. -/
def Shown.Of (s : Shown) (d : CandidateDisposition) : Prop :=
  ∃ c, d.contribution = some c ∧ s.family = c.family ∧ s.location = c.location ∧
    s.witness = c.witness ∧ s.change = changeSentence d.candidate.delta.reason ∧
    s.changeEvidence ∈ c.changeEvidence ∧ s.consequence = c.consequence ∧ s.repair = c.repair

def OneCandidate (report : PushReport) (defect : ActionableDefect) : Prop :=
  ∃ s, report.shown defect = some s ∧ ∃ d ∈ report.supported defect, s.Of d

/-- A candidate has the witness, the place and the kind of change of the chosen one; a defect
stands in for what the chosen one lacks. -/
structure SameAlert (defect : ActionableDefect) (chosen d : CandidateDisposition)
    (c : Contribution) : Prop where
  witness : chosen.candidate.delta.witness.or defect.witnesses.head? = some c.witness
  location : (locationOf chosen.candidate.delta).or defect.locations.head? = some c.location
  change : changeSentence chosen.candidate.delta.reason = changeSentence d.candidate.delta.reason

structure Accounts (c : Contribution) (defect : ActionableDefect) : Prop where
  family : defect.family = c.family
  changeEvidence : ∃ e ∈ c.changeEvidence, defect.changeEvidence.head? = some e
  consequence : defect.consequences.head? = some c.consequence
  repair : defect.repairs.head? = some c.repair

theorem shown_eq_some {s : Shown} :
    report.shown defect = some s ↔ ∃ chosen, report.chosen defect = some chosen ∧
      s.family = defect.family ∧
      (∃ first, defect.locations.head? = some first ∧
        s.location = (locationOf chosen.candidate.delta).getD first) ∧
      defect.consequences.head? = some s.consequence ∧
      (∃ first, defect.witnesses.head? = some first ∧
        s.witness = chosen.candidate.delta.witness.getD first) ∧
      s.change = changeSentence chosen.candidate.delta.reason ∧
      defect.changeEvidence.head? = some s.changeEvidence ∧
      defect.repairs.head? = some s.repair := by
  rw [PushReport.shown]
  constructor
  · intro shown
    obtain ⟨chosen, isChosen, shown⟩ := Option.bind_eq_some_iff.mp shown
    obtain ⟨location, isLocation, shown⟩ := Option.bind_eq_some_iff.mp shown
    obtain ⟨consequence, isConsequence, shown⟩ := Option.bind_eq_some_iff.mp shown
    obtain ⟨witness, isWitness, shown⟩ := Option.bind_eq_some_iff.mp shown
    obtain ⟨evidence, isEvidence, shown⟩ := Option.bind_eq_some_iff.mp shown
    obtain ⟨repair, isRepair, shown⟩ := Option.bind_eq_some_iff.mp shown
    cases shown
    exact ⟨chosen, isChosen, rfl, ⟨location, isLocation, rfl⟩, isConsequence,
      ⟨witness, isWitness, rfl⟩, rfl, isEvidence, isRepair⟩
  · rintro ⟨chosen, isChosen, family, ⟨location, isLocation, at_⟩, isConsequence,
      ⟨witness, isWitness, by_⟩, change, isEvidence, isRepair⟩
    obtain ⟨_, _, _, _, _, _, _⟩ := s
    dsimp only at family at_ by_ change isConsequence isEvidence isRepair
    subst family at_ by_ change
    simp [isChosen, isLocation, isConsequence, isWitness, isEvidence, isRepair]

theorem or_some_eq {α : Type} (own : Option α) (first : α) :
    own.or (some first) = some (own.getD first) := by
  cases own <;> rfl

/-- An alert is one candidate's exactly where a supporter has all that it shows. -/
theorem oneCandidate_iff (member : defect ∈ report.admission.defects) :
    OneCandidate report defect ↔ ∃ chosen, report.chosen defect = some chosen ∧
      ∃ d ∈ report.supported defect, ∃ c, d.contribution = some c ∧
        SameAlert defect chosen d c ∧ Accounts c defect := by
  constructor
  · rintro ⟨s, shown, d, supports, c, isC, family, at_, by_, change, evidence, consequence, repair⟩
    obtain ⟨chosen, isChosen, family', ⟨location, isLocation, at'⟩, isConsequence,
      ⟨witness, isWitness, by'⟩, change', isEvidence, isRepair⟩ := shown_eq_some.mp shown
    refine ⟨chosen, isChosen, d, supports, c, isC, ?_, ?_⟩
    · constructor
      · rw [isWitness, or_some_eq, ← by', by_]
      · rw [isLocation, or_some_eq, ← at', at_]
      · rw [← change', change]
    · constructor
      · rw [← family', family]
      · exact ⟨s.changeEvidence, evidence, isEvidence⟩
      · rw [isConsequence, consequence]
      · rw [isRepair, repair]
  · rintro ⟨chosen, isChosen, d, supports, c, isC, alert, accounts⟩
    obtain ⟨witnesses, locations, -⟩ := report.summaries defect member
    obtain ⟨witness, _, isWitness⟩ := exists_cons_of_ne_nil witnesses
    obtain ⟨location, _, isLocation⟩ := exists_cons_of_ne_nil locations
    obtain ⟨e, evidence, isEvidence⟩ := accounts.changeEvidence
    have by_ := alert.witness
    have at_ := alert.location
    rw [isWitness, List.head?_cons, or_some_eq, Option.some.injEq] at by_
    rw [isLocation, List.head?_cons, or_some_eq, Option.some.injEq] at at_
    have shown : report.shown defect = some ⟨c.family, c.location, c.consequence, c.witness,
        changeSentence d.candidate.delta.reason, e, c.repair⟩ := by
      rw [shown_eq_some]
      exact ⟨chosen, isChosen, accounts.family.symm, ⟨location, by rw [isLocation]; rfl, at_.symm⟩,
        accounts.consequence, ⟨witness, by rw [isWitness]; rfl, by_.symm⟩, alert.change.symm,
        isEvidence, accounts.repair⟩
    exact ⟨_, shown, d, supports, c, isC, rfl, rfl, rfl, rfl, evidence, rfl, rfl⟩

structure SameSight (chosen d : CandidateDisposition) : Prop where
  witness : chosen.candidate.delta.witness = d.candidate.delta.witness
  location : locationOf chosen.candidate.delta = locationOf d.candidate.delta
  change : changeSentence chosen.candidate.delta.reason = changeSentence d.candidate.delta.reason

/-- A candidate has the consequence and the repair of the first one, and its first change
evidence. -/
def SameCause (first d : CandidateDisposition) : Prop :=
  ∃ c c', first.contribution = some c ∧ d.contribution = some c' ∧ c.family = c'.family ∧
    c.consequence = c'.consequence ∧ c.repair = c'.repair ∧
    ∃ e ∈ c'.changeEvidence, c.changeEvidence.head? = some e

variable {d : CandidateDisposition}

theorem contribution_sight (is : d.contribution = some c) :
    d.candidate.delta.witness = some c.witness ∧
      locationOf d.candidate.delta = some c.location := by
  obtain ⟨op, isOp, is⟩ := Option.bind_eq_some_iff.mp is
  obtain ⟨witness, isWitness, is⟩ := Option.bind_eq_some_iff.mp is
  obtain ⟨cap, -, is⟩ := Option.bind_eq_some_iff.mp is
  obtain ⟨consequence, -, is⟩ := Option.bind_eq_some_iff.mp is
  obtain ⟨repair, -, is⟩ := Option.bind_eq_some_iff.mp is
  cases is
  exact ⟨isWitness, by rw [locationOf, isOp]; rfl⟩

theorem mem_supported (supports : d ∈ report.supported defect) :
    d ∈ report.admission.dispositions ∧ d.admitted = true := by
  obtain ⟨member, is⟩ := mem_filter.mp supports
  exact ⟨member, (Bool.and_eq_true_iff.mp is).1⟩

theorem mem_supported_of_chosen {chosen : CandidateDisposition} (is : report.chosen defect = some chosen) :
    chosen ∈ report.supported defect := by
  rw [PushReport.chosen, Option.or_eq_some_iff] at is
  rcases is with found | ⟨-, first⟩
  · exact mem_of_find?_eq_some found
  · exact mem_of_mem_head? first

theorem oneCandidate_iff_of_made (member : defect ∈ report.admission.defects)
    (made : Made report.admission) :
    OneCandidate report defect ↔ ∃ first chosen, (report.supported defect).head? = some first ∧
      report.chosen defect = some chosen ∧
      ∃ d ∈ report.supported defect, SameSight chosen d ∧ SameCause first d := by
  have led := made.led
  -- the first disposition that supports the defect wrote its account
  obtain ⟨first, c, found, isC, leads⟩ := led.leads defect member
  have isFirst : (report.supported defect).head? = some first := by
    rw [PushReport.supported, List.head?_filter]
    exact found
  obtain ⟨e, isEvidence, own⟩ := leads.changeEvidence
  rw [oneCandidate_iff member]
  constructor
  · rintro ⟨chosen, isChosen, d, supports, c', isC', alert, accounts⟩
    obtain ⟨there, admitted⟩ := mem_supported (mem_supported_of_chosen isChosen)
    obtain ⟨cc, isCC⟩ := led.contributes chosen there admitted
    obtain ⟨chosenWitness, chosenLocation⟩ := contribution_sight isCC
    -- what a candidate shows of itself is what its contribution says
    obtain ⟨witness, location⟩ := contribution_sight isC'
    refine ⟨first, chosen, isFirst, isChosen, d, supports, ?_, c, c', isC, isC', ?_⟩
    · constructor
      · have same := alert.witness
        rw [chosenWitness, Option.some_or] at same
        rw [chosenWitness, witness, same]
      · have same := alert.location
        rw [chosenLocation, Option.some_or] at same
        rw [chosenLocation, location, same]
      · exact alert.change
    · obtain ⟨e', inside, isFirst'⟩ := accounts.changeEvidence
      have consequence := leads.consequence.symm.trans accounts.consequence
      have repair := leads.repair.symm.trans accounts.repair
      cases isEvidence.symm.trans isFirst'
      exact ⟨leads.family.symm.trans accounts.family, Option.some.inj consequence,
        Option.some.inj repair, e, inside, own⟩
  · rintro ⟨first', chosen, isFirst', isChosen, d, supports, sight, c'', c', isC'', isC', family,
      consequence, repair, e', inside, own'⟩
    cases isFirst.symm.trans isFirst'
    cases isC.symm.trans isC''
    cases own.symm.trans own'
    obtain ⟨witness, location⟩ := contribution_sight isC'
    refine ⟨chosen, isChosen, d, supports, c', isC', ?_, ?_⟩
    · constructor
      · rw [sight.witness, witness, Option.some_or]
      · rw [sight.location, location, Option.some_or]
      · exact sight.change
    · constructor
      · rw [leads.family, family]
      · exact ⟨e, inside, isEvidence⟩
      · rw [leads.consequence, consequence]
      · rw [leads.repair, repair]

theorem chosen_of_first (member : defect ∈ report.admission.defects) (made : Made report.admission)
    (selected : report.selection defect = 0) :
    ∃ first, (report.supported defect).head? = some first ∧ report.chosen defect = some first ∧
      SameCause first first := by
  obtain ⟨first, c, found, isC, leads⟩ := made.led.leads defect member
  have isFirst : (report.supported defect).head? = some first := by
    rw [PushReport.supported, List.head?_filter]
    exact found
  obtain ⟨e, -, own⟩ := leads.changeEvidence
  refine ⟨first, isFirst, ?_, c, c, isC, isC, rfl, rfl, rfl, e, mem_of_mem_head? own, own⟩
  obtain ⟨rest, is⟩ := List.head?_eq_some_iff.mp isFirst
  have own_witness : first.candidate.delta.witness = defect.witnesses[report.selection defect]? := by
    rw [selected, ← List.head?_eq_getElem?, leads.witness]
    exact (contribution_sight isC).1
  rw [PushReport.chosen, is, List.find?_cons, decide_eq_true own_witness]
  rfl

def shellKey : CapabilityKey :=
  ⟨"python", "cpython", "flask", "command_injection", .taint, "shell", "s1"⟩

def shellCapability : CapabilityAdmission where
  key := shellKey
  evaluationId := "evaluation"
  verdict := .pass
  consequenceTemplate := "Runs \x7boperation\x7d in a \x7bcontext\x7d."
  repairTemplate := "Quote the argument of \x7boperation\x7d for the \x7bcontext\x7d."
  enabled := true
  positiveControls := 1
  reviewedAlerts := 1
  calibrationArtifact := some "calibration"
  untouchedWorkload := some "workload"
  operationSymbols := ["os.system"]

def shellCandidate (path witness evidence : String) : AdmissionCandidate where
  delta :=
    { family := "command_injection", site := path ++ ":3:run", rung := "model_entailed"
      witness := some witness, defectId := "d1", novelty := .new
      reason := "source_connection_absent_from_comparable_base"
      headOperation := some
        { question := ⟨"repository", "python", path, some "run", "command_injection"⟩
          mechanism := .taint, path := path, line := 3, operation := "os.system(command)"
          source := "request", discharged := false, detail := [] }
      changeEvidence := [evidence], baseRevision := some "b", headRevision := some "h"
      semantics := some "s1" }
  capability := shellKey
  comparison := ⟨"h", some "b", "merge_base", ["refs/heads/main"]⟩

def mergedAdmission : AdmissionResult :=
  admitCandidates [shellCapability]
    [shellCandidate "app.py" "request.args -> os.system" "head:app.py:1-5",
      shellCandidate "jobs.py" "request.form -> os.system" "head:jobs.py:1-5"]

private theorem mergedAdmission_dispositions :
    mergedAdmission.dispositions.map (fun d => (d.admitted, d.defectId)) =
      [(true, "d1"), (true, "d1")] := by
  decide +kernel

def mergedReport (index : Int) : PushReport where
  admission := mergedAdmission
  actionableDefectIds := ["d1"]
  modelAssistance := [("selections", .obj [("d1", .int index)])]
  distinct := nodup_singleton _
  exact := by decide +kernel
  summaries := by decide +kernel
  retained id := by
    have listed : (∃ d ∈ mergedAdmission.dispositions, d.admitted = true ∧ d.defectId = id) ↔
        (true, id) ∈ mergedAdmission.dispositions.map fun d => (d.admitted, d.defectId) := by
      constructor
      · rintro ⟨d, member, admitted, same⟩
        exact mem_map.mpr ⟨d, member, by rw [admitted, same]⟩
      · intro member
        obtain ⟨d, there, is⟩ := mem_map.mp member
        exact ⟨d, there, congrArg Prod.fst is, congrArg Prod.snd is⟩
    rw [listed, mergedAdmission_dispositions]
    simp

def mixedAlert : Shown where
  family := "command_injection"
  location := ("jobs.py", 3)
  consequence := "Runs os.system(command) in a shell."
  witness := "request.form -> os.system"
  change := "This change connects input to the operation."
  changeEvidence := "head:app.py:1-5"
  repair := "app.py:3: Quote the argument of os.system(command) for the shell."

theorem second_witness_mixed :
    ¬ ∀ (report : PushReport) (defect : ActionableDefect), Made report.admission →
      defect ∈ report.printed → OneCandidate report defect := by
  intro all
  have shown : (mergedReport 1).printed.map (mergedReport 1).shown = [some mixedAlert] := by
    decide +kernel
  obtain ⟨defect, printed, is⟩ : ∃ defect ∈ (mergedReport 1).printed,
      (mergedReport 1).shown defect = some mixedAlert := by
    have member : some mixedAlert ∈ (mergedReport 1).printed.map (mergedReport 1).shown := by
      rw [shown]
      exact mem_singleton_self _
    exact mem_map.mp member
  obtain ⟨s, isShown, d, supports, c, isC, -, location, -, -, -, -, repair⟩ :=
    all (mergedReport 1) defect (.one _ _) printed
  cases is.symm.trans isShown
  -- No candidate has both the place and the repair.
  have apart : ∀ d ∈ mergedAdmission.dispositions, d.contribution.map (fun c =>
      (c.location, c.repair)) ≠ some (mixedAlert.location, mixedAlert.repair) := by
    decide +kernel
  exact apart d (mem_supported supports).1 (by rw [isC, Option.map_some, ← location, ← repair])

/-- An alert is one candidate exactly when one that has the witness, the place and the kind of
change of the chosen candidate contributed what stands first in the defect; in an admission that
candidates led to, exactly when such a one shares consequence, repair and first change evidence
with the defect's first candidate. -/
theorem shown_one_candidate (report : PushReport) {defect : ActionableDefect}
    (printed : defect ∈ report.printed) :
    (OneCandidate report defect ↔ ∃ chosen, report.chosen defect = some chosen ∧
      ∃ d ∈ report.supported defect, ∃ c, d.contribution = some c ∧
        SameAlert defect chosen d c ∧ Accounts c defect) ∧
    (Made report.admission →
      (OneCandidate report defect ↔
        ∃ first chosen, (report.supported defect).head? = some first ∧
          report.chosen defect = some chosen ∧
          ∃ d ∈ report.supported defect, SameSight chosen d ∧ SameCause first d)) := by
  have member := mem_of_mem_take printed
  exact ⟨oneCandidate_iff member, oneCandidate_iff_of_made member⟩

theorem first_witness_shown :
    ∃ defect ∈ (mergedReport 0).printed, OneCandidate (mergedReport 0) defect := by
  have ids : (mergedReport 0).printed.map (·.defectId) = ["d1"] := by decide +kernel
  obtain ⟨defect, printed, is⟩ : ∃ defect ∈ (mergedReport 0).printed, defect.defectId = "d1" := by
    have member : "d1" ∈ (mergedReport 0).printed.map (·.defectId) := by
      rw [ids]
      exact mem_singleton_self _
    exact mem_map.mp member
  have selected : (mergedReport 0).selection defect = 0 := by
    rw [PushReport.selection]
    change (match [("d1", Json.int 0)].lookup defect.defectId with
      | some (.int index) => if 0 ≤ index ∧ index < defect.witnesses.length then index.toNat else 0
      | _ => 0) = 0
    rw [is]
    simp
  obtain ⟨first, isFirst, isChosen, cause⟩ :=
    chosen_of_first (mem_of_mem_take printed) (.one _ _) selected
  have alert := (shown_one_candidate (mergedReport 0) printed).2 (.one _ _)
  refine ⟨defect, printed, alert.mpr ⟨first, first, isFirst, isChosen, first, ?_, ?_, cause⟩⟩
  · exact mem_of_mem_head? isFirst
  · exact ⟨rfl, rfl, rfl⟩

end OpenUltraSast.Push.Admission
