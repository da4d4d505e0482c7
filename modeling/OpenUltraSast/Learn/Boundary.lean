import Mathlib.Data.List.ReduceOption
import OpenUltraSast.Learn.Prompts

/-!
# The evaluation boundary

Every example and demonstration of a prompt is eligible for its target, so the check of what has been
rendered never raises.
-/

namespace OpenUltraSast.Learn.Prompts

open Collections Examples Floats Folds Outcomes Retrieve Values List

variable {V F : Type} {tools : Tools V F} {program : Program V F} {candidate : Candidate V}
  {fold : Fold}

/-- The errors that are not the program's: a record or a vector that cannot be read. -/
def Excused (tools : Tools V F) (program : Program V F) (candidate : Candidate V) : Refusal → Prop
  | .record =>
    (∃ e ∈ program.memory,
      tools.gower program.spec.priors program.spec.inputs candidate.target e = none ∨
        tools.signals e.x e.instruments program.spec.profile program.spec.inputs = none) ∨
      tools.signals candidate.target.x candidate.target.instruments program.spec.profile
        program.spec.inputs = none
  | .embedding => ∃ mine, candidate.target.vector = some mine ∧
      ∃ entry ∈ program.vectors, tools.cosine mine entry.2 = none
  | .unknownDemo _ => False
  | .boundary _ => False

section Inside
variable [Floats F]

/-- An example may be shown to a target, its similarity taken into account. -/
def Allowed (tools : Tools V F) (program : Program V F) (target : Target V) (fold : Fold)
    (e : Example) : Prop :=
  ∃ cos, similarity tools.cosine program.vectors target e = .ok cos ∧
    eligible e target fold cos = true

structure Inside (tools : Tools V F) (program : Program V F) (target : Target V) (fold : Fold)
    (exclude : List String) (result : Prompt × Retrieval) : Prop where
  rendered : result.1.exampleIds = result.2.examples.map (·.id)
  examples : ∀ e ∈ result.2.examples, e ∈ program.memory ∧ Allowed tools program target fold e
  distinct : result.1.exampleIds.Nodup
  unused : ∀ id ∈ result.1.exampleIds, id ∉ exclude
  demos : ∀ id ∈ result.1.demoIds,
    ∃ e ∈ program.memory, e.id = id ∧ Allowed tools program target fold e
  checked : assertBoundary tools.cosine (result.1.exampleIds ++ result.1.demoIds) program.index
    target fold program.vectors = .ok ()

end Inside

variable {e : Example}

private theorem lookup_index (distinct : (program.memory.map (·.id)).Nodup)
    (member : e ∈ program.memory) : program.index.lookup e.id = some e := by
  have keys : Dicts.keys (program.memory.map fun e => (e.id, e)) = program.memory.map (·.id) := by
    rw [Dicts.keys, map_map]
    rfl
  rw [Program.index, Dicts.lookup_ofEntries (keys ▸ distinct)]
  exact lookup_of_nodup (by simpa [Function.comp_def] using distinct)
    (mem_map_of_mem (f := fun e : Example => (e.id, e)) member)

theorem mem_of_lookup_index {id : String} (found : program.index.lookup id = some e) :
    e ∈ program.memory ∧ e.id = id := by
  have entry := Dicts.mem_of_mem_ofEntries (Dicts.mem_of_lookup found)
  obtain ⟨other, member, same⟩ := mem_map.mp entry
  cases same
  exact ⟨member, rfl⟩

private theorem similarity_yields (e : Example) :
    Yields (fun cos => similarity tools.cosine program.vectors candidate.target e = .ok cos)
      (Excused tools program candidate)
      (similarity tools.cosine program.vectors candidate.target e) := by
  rw [similarity]
  split
  next mine other here there =>
    cases read : tools.cosine mine other with
    | some cos => exact rfl
    | none => exact ⟨mine, here, (e.excerptSha, other), Dicts.mem_of_lookup there, read⟩
  next => exact rfl

private theorem distances_yields {candidates : List Example}
    (inside : ∀ e ∈ candidates, e ∈ program.memory) :
    Yields (fun measured : List (F × Example) => measured.map (·.2) = candidates)
      (Excused tools program candidate)
      (distances (tools.gower program.spec.priors program.spec.inputs) candidate.target candidates) := by
  rw [distances]
  refine (yields_mapM (R := fun e pair => pair.2 = e) fun e member => ?_).mono ?_ fun _ => id
  · cases read : tools.gower program.spec.priors program.spec.inputs candidate.target e with
    | some distance => exact rfl
    | none => exact .inl ⟨e, inside e member, .inl read⟩
  · intro measured related
    rw [← forall₂_eq_eq_eq, forall₂_map_left_iff]
    exact related.flip

theorem perm_rankBy {K : Type} [LinearOrder K] (sha256 : String → String) (seed : Int)
    (scored : List (K × Example)) : (rankBy sha256 seed scored).Perm scored :=
  perm_insertionSort _ scored

theorem nearest_subperm (target : Target V) (n1 : Nat) (ranked : List (F × Example)) :
    (nearest target n1 ranked).Subperm ranked := by
  have halves := filter_append_perm (fun pair : F × Example => pair.2.family = target.family) ranked
  refine List.Subperm.trans (List.Sublist.subperm ?_) halves.subperm
  simp only [nearest, ne_eq, decide_not]
  exact (take_sublist _ _).append (take_sublist _ _)

theorem nodup_map_of_subperm {α β : Type} {f : α → β} {l m : List α} (part : l.Subperm m)
    (distinct : (m.map f).Nodup) : (l.map f).Nodup := by
  obtain ⟨other, perm, sublist⟩ := part
  exact (perm.map f).nodup_iff.mp (distinct.sublist (sublist.map f))

private theorem scores_sublist (reranked : List (Rerank F × Example)) :
    ((scores reranked).map (·.2)).Sublist (reranked.map (·.2)) := by
  rw [scores]
  induction reranked with
  | nil => exact .slnil
  | cons pair rest ih =>
    obtain ⟨rank, e⟩ := pair
    cases rank with
    | near => exact ih.cons _
    | scored => exact ih.cons_cons _

private theorem mem_scores {reranked : List (Rerank F × Example)}
    (member : e ∈ (scores reranked).map (·.2)) : ∃ pair ∈ reranked, pair.2 = e ∧ pair.1 ≠ .near := by
  obtain ⟨scored, among, rfl⟩ := mem_map.mp member
  obtain ⟨⟨rank, e⟩, inside, kept⟩ := mem_filterMap.mp among
  cases rank with
  | near => cases kept
  | scored score without =>
    cases kept
    exact ⟨_, inside, rfl, nofun⟩

theorem exampleText_yields (member : e ∈ program.memory) (sha : String) :
    Yields (fun _ => True) (Excused tools program candidate) (exampleText tools program e sha) := by
  rw [exampleText, caseText]
  split
  next unread => exact .inl ⟨e, member, .inr unread⟩
  next => trivial

private theorem render_yields {retrieved : List Example} {demos : List (Demo F)}
    (inside : ∀ e ∈ retrieved, e ∈ program.memory)
    (known : ∀ d ∈ demos, ∃ e, program.index.lookup d.exampleId = some e) :
    Yields (fun prompt : Prompt => prompt.exampleIds = retrieved.map (·.id) ∧
        prompt.demoIds = demos.map (·.exampleId))
      (Excused tools program candidate) (render tools program candidate retrieved demos) := by
  rw [render]
  -- the texts of the prompt do not matter here, only that they are rendered and whose they are
  refine yields_bind (P := fun _ => True) ?_ fun blocks _ => ?_
  · refine (yields_mapM (R := fun _ _ => True) fun block member => ?_).mono (fun _ _ => trivial) fun _ => id
    exact yields_bind (exampleText_yields (inside _ (fst_mem_of_mem_zipIdx member)) _)
      fun _ _ => trivial
  refine yields_bind (P := fun _ => True) ?_ fun own _ => ?_
  · rw [caseText]
    split
    next unread => exact .inr unread
    next => trivial
  refine yields_bind (P := fun _ => True) ?_ fun system _ => ⟨rfl, rfl⟩
  rw [renderPrefix]
  refine yields_bind (yields_mapM (R := fun _ _ => True) fun demo member => ?_) fun _ _ => trivial
  obtain ⟨e, found⟩ := known _ (fst_mem_of_mem_zipIdx member)
  rw [demoText]
  simp only [found]
  exact yields_bind (exampleText_yields (mem_of_lookup_index found).1 _) fun _ _ => trivial

variable [Floats F]

private theorem assertBoundary_of_allowed {ids : List String}
    (each : ∀ id ∈ ids, ∃ e, program.index.lookup id = some e ∧
      Allowed tools program candidate.target fold e) :
    assertBoundary tools.cosine ids program.index candidate.target fold program.vectors = .ok () := by
  rw [assertBoundary, forM_eq_ok_iff]
  intro id member
  obtain ⟨e, found, cos, similar, allowed⟩ := each id member
  have none_ : ineligible e candidate.target fold cos = none := Option.isNone_iff_eq_none.mp allowed
  simp only [found, similar, bind, Except.bind, none_]
  rfl

private theorem rerank_yields {search : Search V F} (vectors : search.vectors = program.vectors)
    {pair : F × Example}
    (open_ : eligible (F := F) pair.2 candidate.target fold none = true) :
    Yields (fun out => out.2 = pair.2 ∧
        (out.1 = .near ∨ Allowed tools program candidate.target fold pair.2))
      (Excused tools program candidate)
      (rerank tools.cosine candidate.target fold search pair) := by
  simp only [rerank, vectors]
  split
  next mine other here there =>
    have some_ : (if modeOf candidate.target program.vectors = .signalsOnly then none
        else program.vectors.lookup pair.2.excerptSha) = some other := there
    split at some_
    · cases some_
    · cases read : tools.cosine mine other with
      | none => exact ⟨mine, here, (pair.2.excerptSha, other), Dicts.mem_of_lookup some_, read⟩
      | some cos =>
        -- a near duplicate loses its score and with it its place
        by_cases allowed : eligible pair.2 candidate.target fold (some cos) = true
        · simp only [allowed]
          exact ⟨rfl, .inr ⟨some cos, by simp only [similarity, here, some_, read], allowed⟩⟩
        · simp only [allowed]
          exact ⟨rfl, .inl rfl⟩
  next apart =>
    refine ⟨rfl, .inr ⟨none, ?_, open_⟩⟩
    rw [similarity]
    split
    next mine other here there =>
      -- with both vectors the mode is the one that looks them up
      have some_ : program.vectors ≠ [] := by
        rintro empty
        rw [empty] at there
        cases there
      refine absurd ?_ (apart mine other here)
      have mode : modeOf candidate.target program.vectors = .signalsAndEmbeddings :=
        if_pos ⟨by rw [here]; rfl, some_⟩
      rw [mode, if_neg (by decide)]
      exact there
    next => rfl

private theorem retrieve_yields (distinct : (program.memory.map (·.id)).Nodup) (seed : Int)
    (exclude : List String) :
    Yields (fun got : Retrieval =>
        (∀ e ∈ got.examples, e ∈ program.memory ∧ e.id ∉ exclude ∧
          Allowed tools program candidate.target fold e) ∧
        (got.examples.map (·.id)).Nodup)
      (Excused tools program candidate)
      (retrieve tools.sha256 tools.cosine (tools.gower program.spec.priors program.spec.inputs)
        candidate.target program.memory fold (program.search seed exclude)) := by
  rw [retrieve]
  -- the candidates are allowed but for their similarity, which the second stage takes into account
  have open_ : ∀ e ∈ candidatesOf (F := F) candidate.target program.memory fold exclude,
      e ∈ program.memory ∧ e.id ∉ exclude ∧
        eligible (F := F) e candidate.target fold none = true := by
    intro e member
    have kept := mem_filter.mp member
    simp only [decide_eq_true_eq] at kept
    exact ⟨kept.1, kept.2.1, kept.2.2.2⟩
  refine yields_bind (distances_yields fun e member => (open_ e member).1) ?_
  intro measured measures
  have part : ∀ pair ∈ nearest candidate.target program.spec.n1
      (rankBy tools.sha256 seed measured), pair.2 ∈
        candidatesOf (F := F) candidate.target program.memory fold exclude := by
    intro pair member
    rw [Program.search] at measures
    rw [← measures]
    exact mem_map_of_mem
      ((perm_rankBy _ _ _).mem_iff.mp ((nearest_subperm _ _ _).subset member))
  refine yields_bind (yields_mapM fun pair member =>
    rerank_yields rfl (open_ pair.2 (part pair member)).2.2) ?_
  intro reranked related
  have chosen : ((balance ((rankBy tools.sha256 seed (scores reranked)).map (·.2))
      candidate.target.family program.spec.kRet).1).Sublist
        ((rankBy tools.sha256 seed (scores reranked)).map (·.2)) :=
    (balance_within _ _ _).1.sublist
  refine ⟨fun e member => ?_, ?_⟩
  · have among := ((perm_rankBy _ _ _).map _).mem_iff.mp (chosen.subset member)
    obtain ⟨pair, inside, rfl, kept⟩ := mem_scores among
    obtain ⟨own, member, same, allowed⟩ := exists_left_of_forall₂ related inside
    have first := open_ own.2 (part own member)
    rw [same]
    exact ⟨first.1, first.2.1, allowed.resolve_left kept⟩
  · have same : reranked.map (·.2) = (nearest candidate.target program.spec.n1
        (rankBy tools.sha256 seed measured)).map (·.2) := by
      rw [← forall₂_eq_eq_eq, forall₂_map_left_iff, forall₂_map_right_iff]
      exact (related.imp fun _ _ both => both.1).flip
    -- every stage only reorders and drops, so the ids stay apart
    have candidates : ((measured.map (·.2)).map (·.id)).Nodup := by
      rw [Program.search] at measures
      rw [measures]
      exact distinct.sublist (filter_sublist.map _)
    have ranked : (((rankBy tools.sha256 seed measured).map (·.2)).map (·.id)).Nodup :=
      (((perm_rankBy _ _ _).map _).map _).nodup_iff.mpr candidates
    have first : ((reranked.map (·.2)).map (·.id)).Nodup := by
      rw [map_map] at ranked
      rw [same, map_map]
      exact nodup_map_of_subperm (nearest_subperm _ _ _) ranked
    have kept : (((scores reranked).map (·.2)).map (·.id)).Nodup :=
      first.sublist ((scores_sublist reranked).map _)
    have last : (((rankBy tools.sha256 seed (scores reranked)).map (·.2)).map (·.id)).Nodup :=
      (((perm_rankBy _ _ _).map _).map _).nodup_iff.mpr kept
    exact last.sublist (chosen.map _)

/-- The example of a demonstration is in the memory, and allowed. -/
def Shown (tools : Tools V F) (program : Program V F) (target : Target V) (fold : Fold)
    (id : String) : Prop :=
  ∃ e, program.index.lookup id = some e ∧ Allowed tools program target fold e

theorem demoOk_yields (id : String) :
    Yields (fun ok => ok = true → Shown tools program candidate.target fold id)
      (Excused tools program candidate) (demoOk tools program candidate fold id) := by
  rw [demoOk]
  split
  next => exact nofun
  next e found =>
    refine yields_bind (similarity_yields e) fun cos similar => yields_pure fun allowed => ?_
    exact ⟨e, found, cos, similar, allowed⟩

private theorem demonstration_yields (demo : Demo F) :
    Yields (fun shown : Option (Demo F) => ∀ d ∈ shown,
        Shown tools program candidate.target fold d.exampleId)
      (Excused tools program candidate) (demonstration tools program candidate fold demo) := by
  rw [demonstration]
  refine yields_bind (demoOk_yields demo.exampleId) fun ok shown => ?_
  cases ok with
  | true =>
    rintro d ⟨⟩
    exact shown rfl
  | false =>
    cases alternate : demo.alternate with
    | none => exact nofun
    | some other =>
      refine yields_bind (demoOk_yields other.exampleId) fun ok shown => ?_
      cases ok with
      | true =>
        rintro d ⟨⟩
        exact shown rfl
      | false => exact nofun

private theorem demonstrationsFor_yields :
    Yields (fun demos : List (Demo F) => ∀ d ∈ demos,
        Shown tools program candidate.target fold d.exampleId)
      (Excused tools program candidate) (demonstrationsFor tools program candidate fold) := by
  rw [demonstrationsFor]
  refine yields_bind (yields_mapM fun demo _ => demonstration_yields demo) fun shown related => ?_
  refine yields_pure fun d member => ?_
  rw [List.reduceOption, mem_filterMap] at member
  obtain ⟨other, among, is⟩ := member
  obtain ⟨demo, -, each⟩ := exists_left_of_forall₂ related among
  exact each d is

theorem prepare_yields (distinct : (program.memory.map (·.id)).Nodup) (seed : Int)
    (exclude : List String) :
    Yields (Inside tools program candidate.target fold exclude) (Excused tools program candidate)
      (prepare tools program candidate fold seed exclude) := by
  rw [prepare]
  refine yields_bind (retrieve_yields distinct seed exclude) ?_
  rintro got ⟨examples, once⟩
  refine yields_bind demonstrationsFor_yields fun demos shown => ?_
  refine yields_bind (render_yields (fun e member => (examples e member).1) fun d member => ?_) ?_
  · obtain ⟨e, found, -⟩ := shown d member
    exact ⟨e, found⟩
  rintro prompt ⟨exampleIds, demoIds⟩
  have demoShown : ∀ id ∈ prompt.demoIds, Shown tools program candidate.target fold id := by
    rw [demoIds]
    intro id member
    obtain ⟨d, among, rfl⟩ := mem_map.mp member
    exact shown d among
  have checked : assertBoundary tools.cosine (prompt.exampleIds ++ prompt.demoIds) program.index
      candidate.target fold program.vectors = .ok () := by
    refine assertBoundary_of_allowed fun id member => ?_
    rcases mem_append.mp member with member | member
    · rw [exampleIds] at member
      obtain ⟨e, among, rfl⟩ := mem_map.mp member
      exact ⟨e, lookup_index distinct (examples e among).1, (examples e among).2.2⟩
    · exact demoShown id member
  simp only [checked, bind, Except.bind]
  refine ⟨exampleIds, fun e member => ⟨(examples e member).1, (examples e member).2.2⟩,
    exampleIds ▸ once, ?_, fun id member => ?_, checked⟩
  · rw [exampleIds]
    intro id member
    obtain ⟨e, among, rfl⟩ := mem_map.mp member
    exact (examples e among).2.1
  · obtain ⟨e, found, allowed⟩ := demoShown id member
    have entry := mem_of_lookup_index found
    exact ⟨e, entry.1, entry.2, allowed⟩

theorem prepareFrom_yields (distinct : (program.memory.map (·.id)).Nodup) (seed : Int) (left : Nat)
    (used : List String) :
    Yields (fun results => results.length = left ∧
        (∀ result ∈ results, Inside tools program candidate.target fold used result) ∧
        results.Pairwise fun a b => List.Disjoint a.1.exampleIds b.1.exampleIds)
      (Excused tools program candidate)
      (prepareFrom tools program candidate fold seed left used) := by
  -- the examples that are used up grow by each prompt, so the later prompts are disjoint from it
  induction left generalizing used with
  | zero => exact ⟨rfl, nofun, .nil⟩
  | succ left ih =>
    rw [prepareFrom]
    refine yields_bind (prepare_yields distinct seed used) fun result inside => ?_
    refine yields_bind (ih (used ++ result.1.exampleIds)) ?_
    rintro results ⟨size, each, apart⟩
    refine ⟨by rw [length_cons, size], forall_mem_cons.mpr ⟨inside, fun other member => ?_⟩,
      .cons (fun other member => ?_) apart⟩
    · have unused := (each other member).unused
      exact { each other member with
        unused := fun id mine before => unused id mine (mem_append_left _ before) }
    · intro id mine theirs
      exact (each other member).unused id theirs (mem_append_right _ mine)

/-- Every prompt stays inside the boundary, and the final check does not raise; the sets of an ensemble
are disjoint. Only a record or a vector that cannot be read stops a prompt. -/
theorem prepare_inside (tools : Tools V F) (program : Program V F) (candidate : Candidate V)
    (fold : Fold) (distinct : (program.memory.map (·.id)).Nodup) (seed : Int)
    (exclude : List String) :
    Yields (Inside tools program candidate.target fold exclude) (Excused tools program candidate)
        (prepare tools program candidate fold seed exclude) ∧
      Yields (fun results => results.length = program.spec.k ∧
          (∀ result ∈ results, Inside tools program candidate.target fold [] result) ∧
          results.Pairwise fun a b => List.Disjoint a.1.exampleIds b.1.exampleIds)
        (Excused tools program candidate)
        (prepareEnsemble tools program candidate fold seed) :=
  ⟨prepare_yields distinct seed exclude, prepareFrom_yields distinct seed program.spec.k []⟩

def dot (a b : List ℚ) : ℚ := (List.zipWith (· * ·) a b).sum

/-- The cosine of vectors whose lengths are fractions. -/
def cosineOf (a b : List ℚ) : Option ℚ :=
  if a.length ≠ b.length ∨ a = [] then none
  else
    let norm := Floats.sqrt (dot a a) * Floats.sqrt (dot b b)
    some (if norm = 0 then 0 else dot a b / norm)

/-- Records of which no instrument ran, and code without roles. -/
def plainTools : Tools (List ℚ) ℚ where
  sha256 := id
  cosine := cosineOf
  gower := fun _ _ _ _ => some 0
  signals := fun _ instruments _ _ =>
    some ("\n".intercalate (instruments.map fun entry => entry.1 ++ ": no coverage"))
  roles := fun _ => "none inferred"
  slice := fun _ _ _ => ""
  answer := fun demo =>
    "\x7b\"cited_lines\": [1], \"confidence\": 1.0, \"family\": \"" ++ demo.family ++
      "\", \"rationale\": \"" ++ demo.rationale ++ "\", \"verdict\": \"" ++ demo.verdict ++ "\"\x7d"
  lineNumbers := fun _ => [1]

def demoOn (id : String) (alternate : Option (Demo ℚ)) : Demo ℚ where
  exampleId := id
  excerptSha := id
  label := 0
  family := "xss"
  verdict := "not_vulnerable"
  confidence := 1
  rationale := "Line 1 escapes."
  citedLines := [1]
  alternate := alternate

/-- The first example is a near duplicate of the target, and the second is of the target's group. -/
def threeExamples : Program (List ℚ) ℚ where
  spec :=
    { instruction := "Decide.", lam := 1 / 2, k := 2, inputs := "v1"
      demos := [demoOn "a" (some (demoOn "c" none)), demoOn "b" none, demoOn "unknown" none] }
  memory := [rankedCase "xss" 0 "a", rankedCase "xss" 0 "b", rankedCase "xss" 0 "c"]
  excerptText := fun _ => some "1  eval(x)"
  vectors := [("a", [1, 0]), ("c", [0, 1])]

def candidateB : Candidate (List ℚ) where
  target :=
    { group := "b", family := "xss", profile := .static, x := [], instruments := []
      vector := some [1, 0] }
  code := "1  eval(x)"
  language := "python"

def outerFold : Fold where
  kind := "outer"
  name := "outer-0"
  evalGroups := ["b"]

theorem prepare_inside_threeExamples :
    ∃ result, prepare plainTools threeExamples candidateB outerFold 0 [] = .ok result ∧
      Inside plainTools threeExamples candidateB.target outerFold [] result := by
  have inside := (prepare_inside plainTools threeExamples candidateB outerFold (by decide) 0 []).1
  cases prepared : prepare plainTools threeExamples candidateB outerFold 0 [] with
  | ok result => exact ⟨result, rfl, yields_ok inside prepared⟩
  | error refusal =>
    have excused := yields_error inside prepared
    cases refusal with
    | record => simp [Excused, plainTools] at excused
    | embedding =>
      obtain ⟨mine, ⟨⟩, entry, member, unread⟩ := excused
      simp [threeExamples] at member
      rcases member with rfl | rfl <;> simp [plainTools, cosineOf] at unread
    | unknownDemo => exact excused.elim
    | boundary => exact excused.elim

end OpenUltraSast.Learn.Prompts
