import OpenUltraSast.Semantic.Overlay

/-!
# Traced flows and the overlay

A line that a finding stands on keeps one taint path and one demotion, the first of each.
-/

namespace OpenUltraSast.Semantic.Overlay

open Collections Dicts Text Taint

/-- A demotion that its record may cite. -/
def Grounded (demotion : Demotion) : Prop :=
  demotion.dominatingFact ≠ "" ∨ demotion.sanitizers ≠ []

def Flow.Sound : Flow → Prop
  | .analysed _ flow => ∀ demotion ∈ flow.demotions, Grounded demotion
  | .unadjudicated _ _ => True

theorem grounded_of_analyzeCall {path : String} {call : CallSite} {env : Env} {facts : FlowFacts}
    {demotion : Demotion} (found : analyzeCall path call env facts = .demotion demotion) :
    Grounded demotion := by
  unfold analyzeCall at found
  split at found
  next => cases found
  next =>
    split at found
    next => cases found; exact .inr (by simp)
    next =>
      dsimp only at found
      split at found
      next => cases found
      next =>
        split at found
        next => cases found; exact .inl (by simp)
        next => cases found

private theorem grounded_of_analyzeIr {ir : FileIR} {facts : FlowFacts} :
    ∀ demotion ∈ (analyzeIr ir facts).demotions, Grounded demotion := by
  intro demotion member
  obtain ⟨verdict, among, here⟩ := List.mem_filterMap.mp member
  obtain ⟨function, -, inside⟩ := List.mem_flatMap.mp among
  obtain ⟨call, -, rfl⟩ := List.mem_map.mp inside
  split at here
  next found same => cases here; exact grounded_of_analyzeCall same
  next => cases here

section Flows
variable {engines : Engines} {factsFor : String → FlowFacts} {joernExtra : Option (List TaintPath)}

theorem flowOf_sound (target : FileTarget) :
    (flowOf engines factsFor joernExtra target).1.Sound := by
  rw [flowOf]
  dsimp only
  split
  next => trivial
  next => exact grounded_of_analyzeIr

theorem flowsFor_sound (targets : List FileTarget) :
    ∀ entry ∈ (flowsFor engines targets factsFor joernExtra).1, entry.2.Sound := by
  intro entry member
  obtain ⟨target, -, rfl⟩ := List.mem_map.mp (mem_of_mem_ofEntries member)
  exact flowOf_sound target

end Flows

section Matching
variable {lc : Lowercase}

private theorem sinkMatches_true (finding : StaticFinding) (sink : String) :
    sinkMatches lc finding sink = true := by
  have own : contains (lc.lower sink) (lc.lower sink) = true := by
    rw [contains, List.any_eq_true]
    exact ⟨_, (List.mem_tails _ _).mpr List.suffix_rfl, List.isPrefixOf_iff_prefix.mpr List.prefix_rfl⟩
  rw [sinkMatches, lc.space, contains_append own, Bool.true_or]

theorem firstMatch_eq {α : Type} (finding : StaticFinding) (path sink : α → String) (line : α → Nat)
    (items : List α) :
    firstMatch lc finding path sink line items =
      items.find? fun item => path item = finding.path && lineMatches finding.line (line item) := by
  rw [firstMatch]
  simp only [sinkMatches_true, Bool.and_true, Option.or_self]

end Matching

def firstTaint (flow : FileFlow) (path : String) (line : Nat) : Option TaintPath :=
  flow.taintPaths.find? fun item => item.path = path && item.sinkLine = line

def firstDemotion (flow : FileFlow) (path : String) (line : Nat) : Option Demotion :=
  flow.demotions.find? fun item => item.path = path && item.sinkLine = line

variable {t : TaintPath}

section Own
variable {lc : Lowercase} {finding : StaticFinding} {line : Nat}

theorem matchingTaint_eq (at_ : finding.line = some line) (flow : FileFlow) :
    matchingTaint lc finding flow = firstTaint flow finding.path line := by
  rw [matchingTaint, firstMatch_eq, firstTaint, at_]
  simp [lineMatches, @eq_comm _ line]

theorem matchingDemotion_eq (at_ : finding.line = some line) (flow : FileFlow) :
    matchingDemotion lc finding flow = firstDemotion flow finding.path line := by
  rw [matchingDemotion, firstMatch_eq, firstDemotion, at_]
  simp [lineMatches, @eq_comm _ line]

private theorem firstTaint_isSome {flow : FileFlow} (member : t ∈ flow.taintPaths) :
    ∃ first, firstTaint flow t.path t.sinkLine = some first := by
  rw [← Option.isSome_iff_exists, firstTaint, List.find?_isSome]
  exact ⟨t, member, by simp⟩

end Own

inductive Verdict (lc : Lowercase) (finding : StaticFinding) (flow : Option Flow) :
    OverlayRecord → Prop where
  | promote {r : OverlayRecord} (engine : String) (analysed : FileFlow) (taint : TaintPath)
      (read : flow = some (.analysed engine analysed))
      (first : matchingTaint lc finding analysed = some taint)
      (free : ∀ demotion, matchingDemotion lc finding analysed = some demotion →
        demotion.sanitizers = [])
      (is : r.disposition = .promote) (path : r.path = finding.path) (line : r.line = finding.line)
      (sinks : r.sinks = [taint.sink]) : Verdict lc finding flow r
  | demote {r : OverlayRecord} (engine : String) (analysed : FileFlow) (demotion : Demotion)
      (read : flow = some (.analysed engine analysed))
      (first : matchingDemotion lc finding analysed = some demotion)
      (over_ : matchingTaint lc finding analysed = none ∨ demotion.sanitizers ≠ [])
      (is : r.disposition = .demote) : Verdict lc finding flow r
  | unadjudicated {r : OverlayRecord}
      (silent : ∀ engine analysed, flow = some (.analysed engine analysed) →
        matchingTaint lc finding analysed = none ∧ matchingDemotion lc finding analysed = none)
      (is : r.disposition = .unadjudicated) : Verdict lc finding flow r

theorem checked_ok {r : OverlayRecord} (level : r.evidenceLevel = "static_corroboration")
    (grounded : r.disposition = .demote → r.dominatingFact.getD "" ≠ "" ∨ r.sanitizers ≠ [])
    (known : r.disposition = .unadjudicated → r.reason ∈ unadjudicatedReasons) :
    r.checked = .ok r := by
  have proof : r.evidenceLevel ∉ forbiddenEvidence := by rw [level]; decide
  have allowed : ¬ r.evidenceLevel ∉ allowedEvidence := by rw [level]; decide
  have demote : ¬ (r.disposition = .demote ∧ r.dominatingFact.getD "" = "" ∧ r.sanitizers = []) := by
    rintro ⟨is, fact, sanitizers⟩
    rcases grounded is with other | other
    · exact other fact
    · exact other sanitizers
  have reason : ¬ (r.disposition = .unadjudicated ∧ r.reason ∉ unadjudicatedReasons) :=
    fun ⟨is, other⟩ => other (known is)
  rw [OverlayRecord.checked, if_neg proof, if_neg allowed, if_neg demote, if_neg reason]

theorem recordForFinding_ok (lc : Lowercase) (finding : StaticFinding) (language function : String)
    {flow : Option Flow} (sound : ∀ f, flow = some f → f.Sound) :
    ∃ r, recordForFinding lc finding language flow function = .ok r ∧
      Verdict lc finding flow r := by
  unfold recordForFinding
  split
  next =>
    refine ⟨_, checked_ok rfl nofun fun _ => ?_, .unadjudicated nofun rfl⟩
    simp [unadjudicatedReasons]
  next reason engine =>
    refine ⟨_, checked_ok rfl nofun fun _ => ?_, .unadjudicated nofun rfl⟩
    dsimp only
    split
    next known => exact known
    next => simp [unadjudicatedReasons]
  next engine analysed =>
    -- a matching demotion is one of the flow, so it cites what it rests on
    have grounded {demotion : Demotion}
        (first : matchingDemotion lc finding analysed = some demotion) : Grounded demotion := by
      rw [matchingDemotion, firstMatch_eq] at first
      exact sound _ rfl demotion (List.mem_of_find?_eq_some first)
    split
    next demotion first none_ =>
      exact ⟨_, checked_ok rfl (fun _ => grounded first) nofun,
        .demote engine analysed demotion rfl first (.inl none_) rfl⟩
    -- both match: a taint that is not sanitized outweighs the demotion
    next demotion taint first reached =>
      split
      next free =>
        refine ⟨_, checked_ok rfl nofun nofun,
          .promote engine analysed taint rfl reached (fun other same => ?_) rfl rfl rfl rfl⟩
        cases first.symm.trans same
        exact free
      next sanitized =>
        exact ⟨_, checked_ok rfl (fun _ => grounded first) nofun,
          .demote engine analysed demotion rfl first (.inr sanitized) rfl⟩
    next taint none_ reached =>
      refine ⟨_, checked_ok rfl nofun nofun,
        .promote engine analysed taint rfl reached (fun other same => ?_) rfl rfl rfl rfl⟩
      cases none_.symm.trans same
    next none_ silent =>
      refine ⟨_, checked_ok rfl nofun fun _ => by simp [unadjudicatedReasons], .unadjudicated ?_ rfl⟩
      intro _ _ same
      cases same
      exact ⟨silent, none_⟩

private theorem covers_ok (traced : Traced) :
    ∃ r, covers traced = .ok r ∧ r.disposition = .coverage ∧ r.path = traced.taint.path ∧
      r.line = some traced.taint.sinkLine ∧ r.sinks = [traced.taint.sink] :=
  ⟨_, checked_ok rfl nofun nofun, rfl, rfl, rfl, rfl⟩

def Traced.key (traced : Traced) : Claim :=
  (traced.taint.path, some traced.taint.sinkLine, traced.taint.sink)

def Covers (r : OverlayRecord) (key : Claim) : Prop :=
  r.disposition = .coverage ∧ r.path = key.1 ∧ r.line = key.2.1 ∧ r.sinks = [key.2.2]

/-- Each traced flow that no finding is on was claimed or gets a record. -/
theorem coverage_ok (findings : List StaticFinding) : ∀ (list : List Traced) (claimed : List Claim),
    ∃ records, coverage findings claimed list = .ok records ∧
      (∀ traced ∈ list, onLine findings traced.taint = false →
        traced.key ∈ claimed ∨ ∃ r ∈ records, Covers r traced.key) ∧
      ∀ r ∈ records, ∃ traced ∈ list, onLine findings traced.taint = false ∧ Covers r traced.key
  | [], _ => ⟨[], rfl, nofun, nofun⟩
  | traced :: rest, claimed => by
    unfold coverage
    dsimp only
    split
    next skipped =>
      obtain ⟨records, ok, all, only⟩ := coverage_ok findings rest claimed
      refine ⟨records, ok, List.forall_mem_cons.mpr ⟨fun free => .inl ?_, all⟩, fun r member => ?_⟩
      · exact skipped.resolve_right (by simp [free])
      · obtain ⟨other, later, found⟩ := only r member
        exact ⟨other, List.mem_cons_of_mem _ later, found⟩
    next open_ =>
      obtain ⟨r, made, is⟩ := covers_ok traced
      obtain ⟨records, ok, all, only⟩ := coverage_ok findings rest (claimed ++ [traced.key])
      have free : onLine findings traced.taint = false := by
        simpa using fun on => open_ (.inr on)
      refine ⟨r :: records, ?_, List.forall_mem_cons.mpr ⟨fun _ => .inr ?_, ?_⟩, ?_⟩
      · rw [made]
        exact bind_eq_ok_iff.mpr ⟨r, rfl, bind_eq_ok_iff.mpr ⟨records, ok, rfl⟩⟩
      · exact ⟨r, List.mem_cons_self, is⟩
      · intro other later clear
        rcases all other later clear with among | ⟨record, member, covered⟩
        · rcases List.mem_append.mp among with before | same
          · exact .inl before
          · -- the same line and sink have just been covered
            rw [List.mem_singleton.mp same]
            exact .inr ⟨r, List.mem_cons_self, is⟩
        · exact .inr ⟨record, List.mem_cons_of_mem _ member, covered⟩
      · intro record member
        rcases List.mem_cons.mp member with rfl | member
        · exact ⟨traced, List.mem_cons_self, free, is⟩
        · obtain ⟨other, later, found⟩ := only record member
          exact ⟨other, List.mem_cons_of_mem _ later, found⟩

def flowsOf (engines : Engines) (targets : List FileTarget) (facts : Option (String → FlowFacts))
    (joernExtra : Option (List TaintPath)) : List (String × Flow) :=
  match facts with
  | none => []
  | some factsFor => (flowsFor engines targets factsFor joernExtra).1

/-- Every taint path is promoted or covered under its line and its sink, and no finding is demoted on
a line where a taint path of its file ends. -/
structure NoneSwallowed (findings : List StaticFinding) (flows : List (String × Flow))
    (records : List OverlayRecord) : Prop where
  traced : ∀ path engine flow, (path, Flow.analysed engine flow) ∈ flows → ∀ t ∈ flow.taintPaths,
    ∃ r ∈ records, (r.disposition = .promote ∨ r.disposition = .coverage) ∧ r.path = t.path ∧
      r.line = some t.sinkLine ∧ t.sink ∈ r.sinks
  demoted : ∀ (i : Nat) finding r line, findings[i]? = some finding → records[i]? = some r →
    r.disposition = .demote → finding.line = some line → ∀ engine flow,
      flows.lookup finding.path = some (.analysed engine flow) →
        ∀ t ∈ flow.taintPaths, t.path = finding.path → t.sinkLine ≠ line

/-- On every line with a finding, the taint paths all reach the sink of the first one in the flow of
their file, and no sanitizer comes first among the demotions beside a taint path. -/
structure SpokenFor (findings : List StaticFinding) (flows : List (String × Flow)) : Prop where
  sinks : ∀ path engine flow, (path, Flow.analysed engine flow) ∈ flows → ∀ t ∈ flow.taintPaths,
    onLine findings t = true → ∃ engine' own first,
      flows.lookup t.path = some (.analysed engine' own) ∧
        firstTaint own t.path t.sinkLine = some first ∧ first.sink = t.sink
  unsanitized : ∀ finding ∈ findings, ∀ line, finding.line = some line → ∀ engine flow,
    flows.lookup finding.path = some (.analysed engine flow) →
      ∀ first, firstTaint flow finding.path line = some first →
        ∀ demotion, firstDemotion flow finding.path line = some demotion → demotion.sanitizers = []

theorem onLine_iff {findings : List StaticFinding} :
    onLine findings t = true ↔
      ∃ finding ∈ findings, finding.path = t.path ∧ finding.line = some t.sinkLine := by
  simp [onLine]

private theorem exists_tracedPaths {languages : List (String × String)}
    {ranges : List (String × List FunctionRange)} {flows : List (String × Flow)} {path engine : String}
    {flow : FileFlow} (among : (path, Flow.analysed engine flow) ∈ flows)
    (member : t ∈ flow.taintPaths) : ∃ traced ∈ tracedPaths languages ranges flows, traced.taint = t := by
  refine ⟨_, List.mem_flatMap.mpr ⟨_, among, List.mem_map_of_mem member⟩, rfl⟩

section Records
variable {lc : Lowercase} {findings : List StaticFinding} {flows : List (String × Flow)}
  {own covered : List OverlayRecord} {list : List Traced}

/-- The records of the findings come first, and the coverage records are those of `coverage_ok`. -/
theorem noneSwallowed_iff
    (records : List.Forall₂ (fun finding r => Verdict lc finding (flows.lookup finding.path) r)
      findings own)
    (paths : ∀ path engine flow, (path, Flow.analysed engine flow) ∈ flows → ∀ t ∈ flow.taintPaths,
      ∃ traced ∈ list, traced.taint = t)
    (all : ∀ traced ∈ list, onLine findings traced.taint = false → ∃ r ∈ covered, Covers r traced.key)
    (only : ∀ r ∈ covered, ∃ traced ∈ list, onLine findings traced.taint = false ∧
      Covers r traced.key) :
    NoneSwallowed findings flows (own ++ covered) ↔ SpokenFor findings flows := by
  have ownRecord {i : Nat} {finding : StaticFinding} (at_ : findings[i]? = some finding) :
      ∃ r, own[i]? = some r ∧ (own ++ covered)[i]? = some r ∧
        Verdict lc finding (flows.lookup finding.path) r := by
    obtain ⟨r, found, verdict⟩ := exists_getElem?_of_forall₂ records at_
    have inside : i < own.length := (List.getElem?_eq_some_iff.mp found).1
    exact ⟨r, found, by rw [List.getElem?_append_left inside, found], verdict⟩
  constructor
  · rintro ⟨traced, demoted⟩
    constructor
    · intro path engine flow among t member on
      obtain ⟨r, held, shown, samePath, sameLine, names⟩ := traced path engine flow among t member
      rcases List.mem_append.mp held with mine | other
      · obtain ⟨finding, -, verdict⟩ := exists_left_of_forall₂ records mine
        cases verdict with
        | promote engine' analysed taint read first free is path_ line_ sinks =>
          rw [sinks, List.mem_singleton] at names
          rw [path_] at samePath
          rw [line_] at sameLine
          rw [matchingTaint_eq sameLine, samePath] at first
          exact ⟨engine', analysed, taint, samePath ▸ read, first, names.symm⟩
        | demote _ _ _ _ _ _ is => rw [is] at shown; simp at shown
        | unadjudicated _ is => rw [is] at shown; simp at shown
      · -- a coverage record is for a line that no finding stands on
        obtain ⟨other, -, free, -, path_, line_, -⟩ := only r other
        rw [samePath] at path_
        rw [sameLine] at line_
        obtain ⟨finding, among, file, at_⟩ := onLine_iff.mp on
        have onOther := onLine_iff.mpr ⟨finding, among, file.trans path_, at_.trans line_⟩
        rw [free] at onOther
        cases onOther
    · intro finding among line at_ engine flow read first reached demotion beside
      obtain ⟨i, index⟩ := List.mem_iff_getElem?.mp among
      obtain ⟨r, -, whole, verdict⟩ := ownRecord index
      rw [← matchingTaint_eq at_] at reached
      rw [← matchingDemotion_eq at_] at beside
      cases verdict with
      | promote _ analysed _ read' _ free =>
        cases read.symm.trans read'
        exact free demotion beside
      | demote _ _ _ _ _ _ is =>
        rw [matchingTaint_eq at_, firstTaint] at reached
        have ends := List.find?_some reached
        simp only [Bool.and_eq_true, decide_eq_true_eq] at ends
        exact absurd ends.2 (demoted i finding r line index whole is at_ engine flow read first
          (List.mem_of_find?_eq_some reached) ends.1)
      | unadjudicated silent =>
        cases reached.symm.trans (silent engine flow read).1
  · rintro ⟨sinks, unsanitized⟩
    constructor
    · intro path engine flow among t member
      cases on : onLine findings t with
      | false =>
        obtain ⟨traced, held, rfl⟩ := paths path engine flow among t member
        obtain ⟨r, inside, is, path_, line_, names⟩ := all traced held on
        exact ⟨r, List.mem_append_right own inside, .inr is, path_, line_, by rw [names]; simp [Traced.key]⟩
      | true =>
        obtain ⟨engine', analysed, first, read, reached, same⟩ := sinks path engine flow among t member on
        obtain ⟨finding, held, file, at_⟩ := onLine_iff.mp on
        obtain ⟨r, mine, verdict⟩ := exists_right_of_forall₂ records held
        rw [← file] at read reached
        have taint : matchingTaint lc finding analysed = some _ :=
          (matchingTaint_eq at_ analysed).trans reached
        cases verdict with
        | promote _ _ taint' read' first' _ is path_ line_ names =>
          cases read.symm.trans read'
          cases taint.symm.trans first'
          refine ⟨r, List.mem_append_left covered mine, .inl is, path_.trans file, line_.trans at_, ?_⟩
          rw [names, same]
          exact List.mem_singleton_self _
        | demote _ _ demotion read' first' over_ =>
          cases read.symm.trans read'
          rcases over_ with none_ | sanitized
          · cases taint.symm.trans none_
          · rw [matchingDemotion_eq at_] at first'
            exact absurd (unsanitized finding held _ at_ _ _ read first reached demotion first')
              sanitized
        | unadjudicated silent => cases taint.symm.trans (silent _ _ read).1
    · intro i finding r line index whole is at_ engine flow read t member file ends
      obtain ⟨r', -, whole', verdict⟩ := ownRecord index
      cases whole.symm.trans whole'
      obtain ⟨first, reached⟩ := firstTaint_isSome member
      rw [file, ends] at reached
      cases verdict with
      | promote _ _ _ _ _ _ is' => cases is.symm.trans is'
      | demote _ _ demotion read' first' over_ =>
        cases read.symm.trans read'
        rcases over_ with none_ | sanitized
        · rw [matchingTaint_eq at_, reached] at none_
          cases none_
        · rw [matchingDemotion_eq at_] at first'
          exact absurd (unsanitized finding (List.mem_of_getElem? index) line at_ engine flow read
            first reached demotion first') sanitized
      | unadjudicated _ is' => cases is.symm.trans is'

end Records

section Adjudication
variable (engines : Engines) (lc : Lowercase) (targets : List FileTarget)
  (findings : List StaticFinding) (facts : Option (String → FlowFacts))
  (joernExtra : Option (List TaintPath))

/-- The adjudication ends, and it swallows no traced flow if and only if each line with a finding is
spoken for by its first taint path and its first demotion. -/
theorem adjudicate_noneSwallowed_iff :
    ∃ records, adjudicate engines lc targets findings facts joernExtra = .ok records ∧
      (NoneSwallowed findings (flowsOf engines targets facts joernExtra) records ↔
        SpokenFor findings (flowsOf engines targets facts joernExtra)) := by
  cases facts with
  | none =>
    have made : ∀ finding ∈ findings, ∃ r, unadjudicated finding
        (((ofEntries (targets.map fun target => (target.path, target.language))).lookup
          finding.path).getD "") "facts_unavailable" "none" = .ok r :=
      fun finding _ => ⟨_, checked_ok rfl nofun fun _ => by simp [unadjudicatedReasons]⟩
    obtain ⟨records, all⟩ := exists_forall₂ made
    refine ⟨records, mapM_eq_ok_iff.mpr all, ?_⟩
    -- nothing is analysed
    constructor
    · intro _
      constructor
      · intro _ _ _ none_; cases none_
      · intro _ _ _ _ _ _ none_; cases none_
    · intro _
      constructor
      · intro _ _ _ none_; cases none_
      · intro _ _ _ _ _ _ _ _ _ _ none_; cases none_
  | some factsFor =>
    rcases analysed : flowsFor engines targets factsFor joernExtra with ⟨flows, ranges⟩
    have sound : ∀ entry ∈ flows, entry.2.Sound := by
      intro entry member
      apply @flowsFor_sound engines factsFor joernExtra targets entry
      rw [analysed]
      exact member
    have made := fun finding (_ : finding ∈ findings) =>
      recordForFinding_ok lc finding (((ofEntries (targets.map fun target =>
        (target.path, target.language))).lookup finding.path).getD "")
        (functionAt ((ranges.lookup finding.path).getD []) finding.line)
        (fun flow found => sound (finding.path, flow) (mem_of_lookup found))
    obtain ⟨own, all⟩ := exists_forall₂ made
    obtain ⟨covered, ok, each, only⟩ := coverage_ok findings
      (tracedPaths (ofEntries (targets.map fun target => (target.path, target.language))) ranges flows)
      (findings.map fun finding => (finding.path, finding.line, sinkHint finding))
    refine ⟨own ++ covered, ?_, ?_⟩
    · rw [adjudicate]
      dsimp only
      rw [analysed, mapM_eq_ok_iff.mpr (all.imp fun _ _ both => both.1)]
      exact bind_eq_ok_iff.mpr ⟨own, rfl, bind_eq_ok_iff.mpr ⟨covered, ok, rfl⟩⟩
    · rw [flowsOf, analysed]
      apply noneSwallowed_iff (all.imp fun _ _ both => both.2)
        (fun path engine flow among t member => exists_tracedPaths among member) _ only
      intro traced held free
      refine (each traced held free).resolve_left fun claimed => ?_
      obtain ⟨finding, among, same⟩ := List.mem_map.mp claimed
      simp only [Traced.key, Prod.mk.injEq] at same
      rw [onLine_iff.mpr ⟨finding, among, same.1, same.2.1⟩] at free
      cases free

end Adjudication

def asciiLowercase : Lowercase where
  lower text := String.ofList (text.toList.map Char.toLower)
  space front text := by simp [String.toList_append, String.append_assoc]

/-- `cursor.execute("... = %s", (name,)); os.system(name)` on one line of a function of `name`. -/
def queryThenCommand : FileIR where
  path := "app.py"
  language := "python"
  parseOk := true
  functions :=
    [{ name := "run", params := ["name"], startLine := 1, endLine := 2
       calls :=
        [{ name := "cursor.execute", line := 2, argTexts := ["\"... = %s\"", "(name,)"]
           argIsConstant := [true, false], argNames := [[], ["name"]], extraArgIsSequence := true },
         { name := "os.system", line := 2, argTexts := ["name"], argIsConstant := [false]
           argNames := [["name"]] }] }]

def commandFacts : FlowFacts where
  sources := []
  sinks := [⟨"py.sql.execute", "CWE-89", ["execute"]⟩, ⟨"py.command.system", "CWE-78", ["os.system"]⟩]
  sanitizers := [{ id := "py.sql.parameterized", calls := ["execute"], parameterized := true }]

def oneFile : Engines where
  text _ := ""
  parseFile _ _ _ := (queryThenCommand, "tree-sitter")
  rangesFromIr _ _ := [⟨"run", 1, 2, "function"⟩]
  joernFlow _ _ _ := []

def commandFinding : StaticFinding where
  findingId := "os-system:2"
  path := "app.py"
  title := "shell"
  rationale := "CWE-78"
  line := some 2

/-- The command that the parameter reaches is demoted for the parameterized query beside it. -/
theorem command_swallowed :
    ¬ ∀ (engines : Engines) (lc : Lowercase) (targets : List FileTarget)
      (findings : List StaticFinding) (facts : Option (String → FlowFacts))
      (joernExtra : Option (List TaintPath)),
      ∃ records, adjudicate engines lc targets findings facts joernExtra = .ok records ∧
        NoneSwallowed findings (flowsOf engines targets facts joernExtra) records := by
  intro none_
  obtain ⟨records, ok, -, demoted⟩ := none_ oneFile asciiLowercase [⟨"app.py", "python"⟩]
    [commandFinding] (some fun _ => commandFacts) none
  have made : (adjudicate oneFile asciiLowercase [⟨"app.py", "python"⟩] [commandFinding]
      (some fun _ => commandFacts) none).toOption.map (·.map (·.disposition)) = some [.demote] := by
    decide +kernel
  rw [ok] at made
  obtain ⟨r, rest, rfl, is, -⟩ := List.map_eq_cons_iff.mp (Option.some.inj made)
  have read : (flowsOf oneFile [⟨"app.py", "python"⟩] (some fun _ => commandFacts) none).lookup
      commandFinding.path
        = some (.analysed "tree-sitter" (analyzeIr queryThenCommand commandFacts)) := by
    decide +kernel
  have traced : (⟨"app.py", "parameter", "py.command.system", 2, ["name"], "CWE-78"⟩ : TaintPath) ∈
      (analyzeIr queryThenCommand commandFacts).taintPaths := by decide +kernel
  exact absurd rfl (demoted 0 commandFinding r 2 rfl rfl is rfl "tree-sitter" _ read _ traced rfl)

end OpenUltraSast.Semantic.Overlay
