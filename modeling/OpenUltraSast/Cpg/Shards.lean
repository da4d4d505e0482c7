import OpenUltraSast.Cpg.Payload

/-!
# Questions to several graphs

A batch of requests put to every graph of a repository, and a single question put to every one of
them.
-/

namespace OpenUltraSast.Cpg

open Values

/-- The rows of each id. -/
abbrev Answers := List (String × List Json)

structure Completed where
  returncode : Int
  stdout : List Char

/-- What happens in one invocation: whether the time lasts at its three checks, whether the script
is there, whether the requests could be staged, what the session printed, and the process that
runs where it printed nothing. -/
structure Turn where
  starts : Bool := true
  script : Bool := true
  stages : Bool := true
  staged : Bool := true
  session : Option (List Char) := none
  run : Option Completed := none
  ends : Bool := true

/-- What a batch reads: a process that failed counts once its fence was opened. -/
def Turn.body (t : Turn) : Option (List Char) :=
  if t.starts && t.script && t.stages && t.staged then
    t.session.or <| t.run.bind fun completed =>
      if completed.returncode = 0 || (find beginMark completed.stdout).isSome then
        some completed.stdout
      else none
  else none

/-- What a single question reads. -/
def Turn.printed (t : Turn) : Option (List Char) :=
  if t.starts && t.script then
    t.session.or <| t.run.bind fun completed =>
      if completed.returncode = 0 then some completed.stdout else none
  else none

def rowsOf : String × Json → Option (String × List Json)
  | (id, .arr rows) => if id ≠ partialKey then some (id, rows) else none
  | _ => none

variable (r : Reader)

def batchOnce (t : Turn) : Option Answers := do
  let stdout ← t.body
  match extractPayload r stdout with
  | some (.obj parsed) => if t.ends then some (Dicts.ofEntries (parsed.filterMap rowsOf)) else none
  | _ => none

/-- `query`. -/
def queryOne (t : Turn) : Option Json := do
  let stdout ← t.printed
  let parsed ← extractPayload r stdout
  if t.ends then some parsed else none

/-- What the engine does on a graph: the turn of each invocation of a batch, whether there is time
for each part of a split one, and the turn of a single question. -/
structure Graph (ρ : Type) where
  batch : Nat → List (String × ρ) → Turn := fun _ _ => {}
  timeLeft : Nat → Bool := fun _ => true
  single : Turn := {}

variable {ρ : Type}

def batchSplits : Nat := 8

def remaining (answered : Option Answers) (requests : List (String × ρ)) : List (String × ρ) :=
  requests.filter fun request => request.1 ∉ Dicts.keys (answered.getD [])

/-- The invocations for the parts of what is left, until the time runs out. -/
def Graph.parts (g : Graph ρ) (rest : List (String × ρ)) : List Turn :=
  let size := max 1 (rest.length / batchSplits)
  let starts := (List.range ((rest.length + size - 1) / size)).map (· * size)
  (starts.zipIdx.takeWhile fun start => g.timeLeft start.2).map fun start =>
    g.batch (start.2 + 1) ((rest.drop start.1).take size)

def splits (answered : Option Answers) (requests : List (String × ρ)) : Bool :=
  !requests.isEmpty && !(remaining answered requests).isEmpty && 1 < requests.length

def queryBatch (g : Graph ρ) (requests : List (String × ρ)) : Option Answers :=
  let answered := batchOnce r (g.batch 0 requests)
  if splits answered requests then
    let parts := (g.parts (remaining answered requests)).filterMap (batchOnce r)
    if !(answered.getD []).isEmpty || !parts.isEmpty then
      some (Dicts.mergeFirst (answered.getD []) parts)
    else none
  else answered

def Graph.answer (once : Bool) (requests : List (String × ρ)) (g : Graph ρ) : Option Answers :=
  if once then batchOnce r (g.batch 0 requests) else queryBatch r g requests

/-- What `query_batch_across` has merged so far. -/
structure Tally where
  merged : Answers := []
  methods : Int := 0
  files : Int := 0
  answered : Nat := 0
  fileNames : List String := []
  named : Bool := true

/-- `int(str(value) or 0)`; none is the `ValueError` of `int`. -/
def count (value : Json) : Option Int := if r.str value = "" then some 0 else r.int (r.str value)

def texts (items : List Json) : Option (List String) :=
  items.mapM fun
    | .str text => some text
    | _ => none

def Tally.addCensus (t : Tally) : Option (List Json) → Option Tally
  | some (.obj census :: _) => do
    let methods ← count r ((census.lookup "methods").getD (.str "0"))
    let files ← count r ((census.lookup "files").getD (.str "0"))
    let counted := { t with methods := t.methods + methods, files := t.files + files }
    match census.lookup "file_names" with
    | some (.arr items) =>
      match texts items with
      | some names => some { counted with fileNames := t.fileNames ++ names }
      | none => some { counted with named := false }
    | _ => some { counted with named := false }
  | _ => some { t with named := false }

/-- `one.pop("__census__", None)`, as what stays. -/
def withoutCensus (one : Answers) : Answers := one.filter fun entry => entry.1 ≠ censusKey

def Tally.add (t : Tally) (one : Answers) : Option Tally := do
  let counted ← t.addCensus r (one.lookup censusKey)
  some { counted with
    answered := t.answered + 1, merged := Dicts.extendAll t.merged (withoutCensus one) }

/-- The loop over the graphs. The outer `none` is a `ValueError`, the inner one the early return
that an execution budget asks for. -/
def gather (budgeted once : Bool) (requests : List (String × ρ)) :
    List (Graph ρ) → Tally → Option (Option Tally)
  | [], t => some (some t)
  | g :: graphs, t =>
    match g.answer r once requests with
    | none =>
      if budgeted then some none
      else gather budgeted once requests graphs { t with named := false }
    | some one => do gather budgeted once requests graphs (← t.add r one)

def Tally.total (t : Tally) (shards : Nat) : Json :=
  .obj ([("methods", .str (toString t.methods)), ("files", .str (toString t.files)),
    ("shards", .str (toString shards))] ++
    if t.named then [("file_names", .arr ((Collections.sortedSet t.fileNames).map .str))] else [])

def queryBatchAcross (budgeted once : Bool) (graphs : List (Graph ρ))
    (requests : List (String × ρ)) : Option (Option Answers) := do
  match ← gather r budgeted once requests graphs {} with
  | none => some none
  | some t =>
    if t.answered = 0 then some none
    else some (some (Dicts.set t.merged censusKey [t.total graphs.length]))

/-- The loop of `query_across`: the rows so far, and how many graphs answered. -/
def gatherOne (budgeted : Bool) : List (Graph ρ) → List Json × Nat → Option (List Json × Nat)
  | [], state => some state
  | g :: graphs, (merged, answered) =>
    match queryOne r g.single with
    | none => if budgeted then none else gatherOne budgeted graphs (merged, answered)
    | some (.arr rows) => gatherOne budgeted graphs (merged ++ rows, answered + 1)
    | some _ => gatherOne budgeted graphs (merged, answered + 1)

def queryAcross (budgeted : Bool) (graphs : List (Graph ρ)) (query : String) : Option Json :=
  if query = "census" then
    match graphs with
    | [g] => queryOne r g.single
    | _ => none
  else do
    let (merged, answered) ← gatherOne r budgeted graphs ([], 0)
    if answered = 0 then none else some (.arr merged)

end OpenUltraSast.Cpg

/-!
## Answers of every graph

Which rows a question to several graphs returns. A graph whose engine was killed still hands over
the answers it had printed, so an id comes back with the rows of the graphs that answered it.
-/

namespace OpenUltraSast.Cpg

open Values List

variable {ρ : Type} {r : Reader}

/-- An invocation handed over the rows of an id, and had printed them in full. -/
def Turn.Gave (r : Reader) (t : Turn) (id : String) (rows : List Json) : Prop :=
  ∃ stdout fields, t.body = some stdout ∧ t.ends = true ∧
    extractPayload r stdout = some (.obj fields) ∧ (id, .arr rows) ∈ fields ∧
    Complete r stdout id rows

variable {id : String} {once : Bool} {rows : List Json}

theorem rowsOf_eq_some {entry : String × Json} :
    rowsOf entry = some (id, rows) ↔ entry = (id, .arr rows) ∧ id ≠ partialKey := by
  obtain ⟨name, value⟩ := entry
  cases value with
  | arr items =>
    rw [rowsOf]
    split
    next free =>
      constructor
      · intro same
        cases same
        exact ⟨rfl, free⟩
      · rintro ⟨same, -⟩
        cases same
        rfl
    next taken =>
      constructor
      · nofun
      · rintro ⟨same, free⟩
        cases same
        exact absurd free taken
  | _ => simp [rowsOf]

theorem ne_partialKey (free : id ∉ reserved) : id ≠ partialKey := by
  rintro rfl
  exact free (by decide)

variable {t : Turn}

/-- One attempt answers with rows that the graph gave, and for each id that it gave rows for. -/
theorem batchOnce_spec {answers : Answers} (done : batchOnce r t = some answers) :
    (Dicts.keys answers).Nodup ∧ ∀ id, id ∉ reserved →
      (∀ rows, (id, rows) ∈ answers → t.Gave r id rows) ∧
      ((∃ rows, t.Gave r id rows) → id ∈ Dicts.keys answers) := by
  obtain ⟨stdout, body, done⟩ := Option.bind_eq_some_iff.mp done
  cases payload : extractPayload r stdout with
  | none => simp [payload] at done
  | some value =>
    cases value with
    | obj fields =>
      rw [payload] at done
      simp only [Option.ite_none_right_eq_some, Option.some.injEq] at done
      obtain ⟨ends, rfl⟩ := done
      refine ⟨Dicts.nodup_ofEntries _, fun id free => ⟨fun rows member => ?_, ?_⟩⟩
      · obtain ⟨entry, there, is⟩ := mem_filterMap.mp (Dicts.mem_of_mem_ofEntries member)
        obtain ⟨rfl, -⟩ := rowsOf_eq_some.mp is
        exact ⟨stdout, fields, body, ends, payload, there, complete_of_payload payload free there⟩
      · rintro ⟨rows, stdout', fields', body', -, payload', there, -⟩
        cases body.symm.trans body'
        cases payload.symm.trans payload'
        rw [Dicts.mem_keys_ofEntries]
        have entry : rowsOf (id, .arr rows) = some (id, rows) :=
          rowsOf_eq_some.mpr ⟨rfl, ne_partialKey free⟩
        exact mem_map_of_mem (f := (·.1)) (mem_filterMap.mpr ⟨_, there, entry⟩)
    | _ => simp [payload] at done

private theorem batchOnce_of_gave (gave : t.Gave r id rows) :
    ∃ answers, batchOnce r t = some answers := by
  obtain ⟨stdout, fields, body, ends, payload, -⟩ := gave
  rw [batchOnce, body]
  simp [payload, ends]

def Graph.turns (r : Reader) (once : Bool) (requests : List (String × ρ)) (g : Graph ρ) :
    List Turn :=
  let answered := batchOnce r (g.batch 0 requests)
  g.batch 0 requests ::
    if !once && splits answered requests then g.parts (remaining answered requests) else []

def Graph.Answers (r : Reader) (once : Bool) (requests : List (String × ρ)) (g : Graph ρ)
    (id : String) (rows : List Json) : Prop :=
  ∃ t ∈ g.turns r once requests, t.Gave r id rows

structure AnswersOf (r : Reader) (once : Bool) (requests : List (String × ρ)) (g : Graph ρ)
    (answers : Answers) : Prop where
  distinct : (Dicts.keys answers).Nodup
  given : ∀ id, id ∉ reserved → ∀ rows, (id, rows) ∈ answers → g.Answers r once requests id rows
  all : ∀ id, id ∉ reserved → ∀ rows, g.Answers r once requests id rows →
    id ∈ Dicts.keys answers

variable {requests : List (String × ρ)} {graphs : List (Graph ρ)} {g : Graph ρ}

theorem answersOf_first {answers : Answers}
    (done : batchOnce r (g.batch 0 requests) = some answers)
    (whole : g.turns r once requests = [g.batch 0 requests]) :
    AnswersOf r once requests g answers := by
  obtain ⟨distinct, spec⟩ := batchOnce_spec done
  have same (id : String) (rows : List Json) :
      g.Answers r once requests id rows ↔ (g.batch 0 requests).Gave r id rows := by
    rw [Graph.Answers, whole]
    simp
  constructor
  · exact distinct
  · intro id free rows member
    exact (same id rows).mpr ((spec id free).1 rows member)
  · intro id free rows answered
    exact (spec id free).2 ⟨rows, (same id rows).mp answered⟩

private theorem answersOf_merge {first : Option Answers} {parts : List Turn}
    (whole : g.turns r false requests = g.batch 0 requests :: parts)
    (done : batchOnce r (g.batch 0 requests) = first) :
    AnswersOf r false requests g
      (Dicts.mergeFirst (first.getD []) (parts.filterMap (batchOnce r))) := by
  -- An answer is one that the first invocation or one of the parts returned.
  have returned {id : String} {rows : List Json} (free : id ∉ reserved) :
      g.Answers r false requests id rows →
        ∃ t ∈ g.turns r false requests, ∃ answers, batchOnce r t = some answers ∧
          id ∈ Dicts.keys answers := by
    rintro ⟨t, member, gave⟩
    obtain ⟨answers, is⟩ := batchOnce_of_gave gave
    exact ⟨t, member, answers, is, ((batchOnce_spec is).2 id free).2 ⟨rows, gave⟩⟩
  constructor
  case distinct =>
    apply Dicts.nodup_mergeFirst
    cases first with
    | none => exact nodup_nil
    | some answers => exact (batchOnce_spec done).1
  case given =>
    intro id free rows member
    rcases Dicts.mem_mergeFirst member with own | ⟨answers, there, held⟩
    · cases first with
      | none => cases own
      | some answers =>
        have gave := ((batchOnce_spec done).2 id free).1 rows own
        exact ⟨_, whole ▸ mem_cons_self, gave⟩
    · obtain ⟨t, part, is⟩ := mem_filterMap.mp there
      have gave := ((batchOnce_spec is).2 id free).1 rows held
      exact ⟨t, whole ▸ mem_cons_of_mem _ part, gave⟩
  case all =>
    intro id free rows answered
    obtain ⟨t, member, answers, is, held⟩ := returned free answered
    rw [whole] at member
    rw [Dicts.mem_keys_mergeFirst]
    rcases mem_cons.mp member with rfl | part
    · rw [← done, is]
      exact .inl held
    · exact .inr ⟨answers, mem_filterMap.mpr ⟨t, part, is⟩, held⟩

theorem answer_spec {answers : Answers} (done : g.answer r once requests = some answers) :
    AnswersOf r once requests g answers := by
  cases once with
  | true => exact answersOf_first done rfl
  | false =>
    change queryBatch r g requests = some answers at done
    rw [queryBatch] at done
    split at done
    next split =>
      -- The batch was split: the parts that answered fill in what the first left out.
      have whole : g.turns r false requests = g.batch 0 requests ::
          g.parts (remaining (batchOnce r (g.batch 0 requests)) requests) := by
        rw [Graph.turns, if_pos (by simpa using split)]
      simp only [Option.ite_none_right_eq_some, Option.some.injEq] at done
      obtain ⟨-, rfl⟩ := done
      exact answersOf_merge whole rfl
    next split =>
      apply answersOf_first done
      rw [Graph.turns, if_neg (by simpa using split)]

theorem ne_censusKey (free : id ∉ reserved) : id ≠ censusKey := by
  rintro rfl
  exact free (by decide)

theorem lookup_withoutCensus (free : id ∉ reserved) (one : Answers) :
    (withoutCensus one).lookup id = one.lookup id := by
  have kept := Collections.lookup_filter_key (fun key => decide (key ≠ censusKey)) one id
  rw [if_pos (decide_eq_true (ne_censusKey free))] at kept
  exact kept

private theorem nodup_withoutCensus {one : Answers} (distinct : (Dicts.keys one).Nodup) :
    (Dicts.keys (withoutCensus one)).Nodup :=
  List.Nodup.sublist (filter_sublist.map _) distinct

/-- What is gathered is what each graph answers, in order, without its census. -/
theorem gather_spec {t t' : Tally} (done : gather r true once requests graphs t = some (some t')) :
    ∃ ones, List.Forall₂ (fun g one => g.answer r once requests = some one) graphs ones ∧
      t'.merged = Dicts.extendEach t.merged (ones.map withoutCensus) := by
  induction graphs generalizing t with
  | nil =>
    cases done
    exact ⟨[], .nil, rfl⟩
  | cons g graphs ih =>
    rw [gather] at done
    cases answered : g.answer r once requests with
    | none =>
      rw [answered] at done
      cases done
    | some one =>
      rw [answered] at done
      obtain ⟨next, added, done⟩ := Option.bind_eq_some_iff.mp done
      obtain ⟨counted, -, added⟩ := Option.bind_eq_some_iff.mp added
      cases added
      obtain ⟨ones, all, merged⟩ := ih done
      exact ⟨one :: ones, .cons answered all, merged⟩

def Whole (r : Reader) (once : Bool) (requests : List (String × ρ)) (graphs : List (Graph ρ))
    (id : String) (rows : List Json) : Prop :=
  ∃ given, List.Forall₂ (fun g part => g.Answers r once requests id part) graphs given ∧
    rows = given.flatten

def SameIds (r : Reader) (once : Bool) (requests : List (String × ρ)) (graphs : List (Graph ρ)) :
    Prop :=
  ∀ id, id ∉ reserved → (∃ g ∈ graphs, ∃ rows, g.Answers r once requests id rows) →
    ∀ g ∈ graphs, ∃ rows, g.Answers r once requests id rows

/-- The rows that come back for an id are those of all graphs in a row. -/
theorem returned_spec {merged : Answers}
    (returned : queryBatchAcross r true once graphs requests = some (some merged)) :
    ∃ ones, List.Forall₂ (AnswersOf r once requests) graphs ones ∧ ∀ id, id ∉ reserved →
      (id ∈ Dicts.keys merged ↔ ∃ one ∈ ones, id ∈ Dicts.keys one) ∧
      (merged.lookup id).getD [] = (ones.map fun one => (one.lookup id).getD []).flatten := by
  obtain ⟨answer, done, returned⟩ := Option.bind_eq_some_iff.mp returned
  cases answer with
  | none => cases returned
  | some t =>
    dsimp only at returned
    split at returned
    · cases returned
    cases returned
    obtain ⟨ones, all, is⟩ := gather_spec done
    have spec : List.Forall₂ (AnswersOf r once requests) graphs ones :=
      all.imp fun _ _ answered => answer_spec answered
    refine ⟨ones, spec, fun id free => ⟨?_, ?_⟩⟩
    · have none_yet : id ∉ Dicts.keys ({} : Tally).merged := not_mem_nil
      rw [Dicts.mem_keys_set, or_iff_right (ne_censusKey free), is, Dicts.mem_keys_extendEach,
        or_iff_right none_yet]
      simp only [mem_map, exists_exists_and_eq_and, Dicts.mem_keys_iff,
        lookup_withoutCensus free]
    · have distinct : ∀ one ∈ ones.map withoutCensus, (Dicts.keys one).Nodup := by
        intro one member
        obtain ⟨own, there, rfl⟩ := mem_map.mp member
        obtain ⟨_, _, of⟩ := Collections.exists_left_of_forall₂ spec there
        exact nodup_withoutCensus of.distinct
      rw [Dicts.lookup_set, if_neg (ne_censusKey free), is, Dicts.lookup_extendEach distinct,
        map_map]
      simp only [lookup_nil, Option.getD_none, nil_append, Function.comp_def,
        lookup_withoutCensus free]

theorem AnswersOf.answers {once : Bool} {requests : List (String × ρ)}
    {answers : Answers} (of : AnswersOf r once requests g answers) {id : String}
    (free : id ∉ reserved) (held : id ∈ Dicts.keys answers) :
    g.Answers r once requests id ((answers.lookup id).getD []) := by
  obtain ⟨rows, found⟩ := Dicts.mem_keys_iff.mp held
  rw [found]
  exact of.given id free rows (Dicts.mem_of_lookup found)

theorem whole_iff_sameIds {merged : Answers}
    (returned : queryBatchAcross r true once graphs requests = some (some merged)) :
    (∀ id, id ∉ reserved → ∀ rows, merged.lookup id = some rows →
      Whole r once requests graphs id rows) ↔ SameIds r once requests graphs := by
  obtain ⟨ones, spec, merges⟩ := returned_spec returned
  constructor
  · rintro whole id free ⟨g, member, rows, answered⟩ other there
    -- The id is in the result, so it has rows of every graph.
    obtain ⟨one, in_, of⟩ := Collections.exists_right_of_forall₂ spec member
    have held : id ∈ Dicts.keys merged :=
      (merges id free).1.mpr ⟨one, in_, of.all id free rows answered⟩
    obtain ⟨all, found⟩ := Dicts.mem_keys_iff.mp held
    obtain ⟨given, each, -⟩ := whole id free all found
    obtain ⟨part, -, own⟩ := Collections.exists_right_of_forall₂ each there
    exact ⟨part, own⟩
  · intro same id free rows found
    obtain ⟨one, in_, held⟩ := (merges id free).1.mp (Dicts.mem_keys_iff.mpr ⟨rows, found⟩)
    obtain ⟨g, member, of⟩ := Collections.exists_left_of_forall₂ spec in_
    have every := same id free ⟨g, member, _, of.answers free held⟩
    refine ⟨ones.map fun one => (one.lookup id).getD [], ?_, ?_⟩
    · rw [forall₂_map_right_iff]
      apply Collections.forall₂_imp_mem spec
      intro other theirs there _ of
      obtain ⟨part, answered⟩ := every other there
      exact of.answers free (of.all id free part answered)
    · rw [← (merges id free).2, found]
      rfl

/-- An invocation gave a list of rows, printed in full between both fences. -/
def Turn.GaveOne (r : Reader) (t : Turn) (rows : List Json) : Prop :=
  ∃ stdout body, t.printed = some stdout ∧ t.ends = true ∧
    extractPayload r stdout = some (.arr rows) ∧ fenced stdout = some (body, true) ∧
    decodedJson r body = some (.arr rows)

theorem queryOne_eq_list :
    queryOne r t = some (.arr rows) ↔ t.GaveOne r rows := by
  constructor
  · intro done
    obtain ⟨stdout, printed, done⟩ := Option.bind_eq_some_iff.mp done
    obtain ⟨parsed, payload, done⟩ := Option.bind_eq_some_iff.mp done
    simp only [Option.ite_none_right_eq_some, Option.some.injEq] at done
    obtain ⟨ends, rfl⟩ := done
    obtain ⟨⟨body, closed⟩, fence, read⟩ := Option.bind_eq_some_iff.mp payload
    dsimp only at read
    split at read
    · cases read
    · split at read
      next whole =>
        rw [whole] at fence
        exact ⟨stdout, body, printed, ends, payload, fence, read⟩
      next => cases read
  · rintro ⟨stdout, _, printed, ends, payload, -⟩
    rw [queryOne, printed, Option.bind_eq_bind, Option.bind_some, payload, Option.bind_eq_bind,
      Option.bind_some, if_pos ends]

/-- The rows of a single question are those of all graphs, in their order; the census of one graph
is passed on. -/
def WholeOne (r : Reader) (graphs : List (Graph ρ)) (query : String) (payload : Json) : Prop :=
  if query = "census" then ∃ g, graphs = [g] ∧ queryOne r g.single = some payload
  else ∃ given, List.Forall₂ (fun g rows => Turn.GaveOne r (g : Graph ρ).single rows) graphs given ∧
    payload = .arr given.flatten

def Lists (r : Reader) (graphs : List (Graph ρ)) (query : String) : Prop :=
  query ≠ "census" → ∀ g ∈ graphs, ∃ rows, Turn.GaveOne r g.single rows

/-- Under a budget the loop comes to its end only when every graph answered, and it keeps the
rows of those that answered with a list. -/
theorem gatherOne_spec {state state' : List Json × Nat}
    (done : gatherOne r true graphs state = some state') :
    (∀ g ∈ graphs, ∃ payload, queryOne r g.single = some payload) ∧
      ∀ given, List.Forall₂ (fun g rows => queryOne r (g : Graph ρ).single = some (.arr rows))
        graphs given → state'.1 = state.1 ++ given.flatten := by
  induction graphs generalizing state with
  | nil =>
    cases done
    refine ⟨nofun, fun given none => ?_⟩
    cases none
    simp
  | cons g graphs ih =>
    obtain ⟨merged, answered⟩ := state
    rw [gatherOne] at done
    split at done
    · cases done
    next rows one =>
      obtain ⟨all, sums⟩ := ih done
      refine ⟨forall_mem_cons.mpr ⟨⟨_, one⟩, all⟩, fun given each => ?_⟩
      cases each with
      | cons first rest =>
        cases one.symm.trans first
        rw [sums _ rest, flatten_cons, append_assoc]
    next payload other one =>
      obtain ⟨all, sums⟩ := ih done
      refine ⟨forall_mem_cons.mpr ⟨⟨_, one⟩, all⟩, fun given each => ?_⟩
      cases each with
      | cons first rest => exact absurd (Option.some.inj (one.symm.trans first)) (other _)

theorem wholeOne_iff_lists {query : String} {payload : Json}
    (returned : queryAcross r true graphs query = some payload) :
    WholeOne r graphs query payload ↔ Lists r graphs query := by
  unfold queryAcross at returned
  rw [WholeOne, Lists]
  split
  next census =>
    rw [if_pos census] at returned
    refine ⟨fun _ other => absurd census other, fun _ => ?_⟩
    split at returned
    · exact ⟨_, rfl, returned⟩
    · cases returned
  next other =>
    rw [if_neg other] at returned
    obtain ⟨⟨merged, answered⟩, done, returned⟩ := Option.bind_eq_some_iff.mp returned
    dsimp only at returned
    split at returned
    · cases returned
    cases returned
    obtain ⟨-, sums⟩ := gatherOne_spec done
    constructor
    · rintro ⟨given, each, -⟩ - g member
      obtain ⟨rows, -, gave⟩ := Collections.exists_right_of_forall₂ each member
      exact ⟨rows, gave⟩
    · intro lists
      obtain ⟨given, each⟩ := Collections.exists_forall₂ (lists other)
      refine ⟨given, each, ?_⟩
      have printed := sums given (each.imp fun _ _ gave => queryOne_eq_list.mpr gave)
      exact congrArg Json.arr printed

def lineReader : Reader where
  loads text :=
    if text = "\x7b\"id\":\"a\",\"rows\":[1]\x7d".toList then
      some (.obj [("id", .str "a"), ("rows", .arr [.int 1])])
    else if text = "\x7b\"id\":\"b\",\"rows\":[2]\x7d".toList then
      some (.obj [("id", .str "b"), ("rows", .arr [.int 2])])
    else none
  rawDecode text := if text = "[3]".toList then some (.arr [.int 3]) else none
  repr _ := ""
  int _ := none

def printedLines (lines : List String) (last : List Char) : List Char :=
  beginMark ++ lines.flatMap (fun line => '\n' :: line.toList) ++ '\n' :: last

def wholeGraph : Graph Unit where
  batch _ _ := { run := some ⟨0, printedLines
    ["\x7b\"id\":\"a\",\"rows\":[1]\x7d", "\x7b\"id\":\"b\",\"rows\":[2]\x7d"] endMark⟩ }
  single := { run := some ⟨0, printedLines ["[3]"] endMark⟩ }

def killedGraph : Graph Unit where
  batch _ _ := { run := some ⟨-1, printedLines ["\x7b\"id\":\"a\",\"rows\":[1]\x7d"] "\x7b\"id\":".toList⟩ }
  timeLeft _ := false
  single := wholeGraph.single

def bothRequests : List (String × Unit) := [("a", ()), ("b", ())]

def noCensus : Json :=
  .obj [("methods", .str "0"), ("files", .str "0"), ("shards", .str "2")]

/-- The second request comes back with the rows of the graph that was not killed. -/
theorem killed_graph_left_out :
    ¬ ∀ once merged,
      queryBatchAcross lineReader true once [wholeGraph, killedGraph] bothRequests =
          some (some merged) →
        ∀ id, id ∉ reserved → ∀ rows, merged.lookup id = some rows →
          Whole lineReader once bothRequests [wholeGraph, killedGraph] id rows := by
  intro whole
  have run : queryBatchAcross lineReader true true [wholeGraph, killedGraph] bothRequests =
      some (some [("a", [.int 1, .int 1]), ("b", [.int 2]), (censusKey, [noCensus])]) := by
    decide +kernel
  obtain ⟨given, each, -⟩ := whole true _ run "b" (by decide) [.int 2] rfl
  -- The killed graph would have to have answered the second request.
  obtain ⟨rows, -, answered⟩ := Collections.exists_right_of_forall₂ each
    (mem_cons_of_mem _ mem_cons_self)
  have answer : killedGraph.answer lineReader true bothRequests = some [("a", [.int 1])] := by
    decide +kernel
  exact absurd ((answer_spec answer).all "b" (by decide) rows answered) (by decide)

/-- Under an execution budget the rows that a call returns are those of every graph exactly when
the graphs it merged answered the same ids, and for a single question when each of them printed a
list. -/
theorem every_graph_answered_iff (r : Reader) (graphs : List (Graph ρ))
    (requests : List (String × ρ)) (query : String) :
    (∀ once merged, queryBatchAcross r true once graphs requests = some (some merged) →
      ((∀ id, id ∉ reserved → ∀ rows, merged.lookup id = some rows →
        Whole r once requests graphs id rows) ↔ SameIds r once requests graphs)) ∧
    ∀ payload, queryAcross r true graphs query = some payload →
      (WholeOne r graphs query payload ↔ Lists r graphs query) := by
  constructor
  · intro once merged returned
    exact whole_iff_sameIds returned
  · intro payload returned
    exact wholeOne_iff_lists returned

theorem both_graphs_answered :
    (∀ id, id ∉ reserved → ∀ rows,
      [("a", [.int 1, .int 1]), ("b", [.int 2, .int 2]), (censusKey, [noCensus])].lookup id =
          some rows →
        Whole lineReader true bothRequests [wholeGraph, wholeGraph] id rows) ∧
    WholeOne lineReader [wholeGraph, wholeGraph] "taint" (.arr [.int 3, .int 3]) := by
  obtain ⟨batch, single⟩ :=
    every_graph_answered_iff lineReader [wholeGraph, wholeGraph] bothRequests "taint"
  have is {g : Graph Unit} (member : g ∈ [wholeGraph, wholeGraph]) : g = wholeGraph := by
    simpa using member
  constructor
  · apply (batch true _ (by decide +kernel)).mpr
    rintro id - ⟨g, member, answered⟩ other there
    rw [is there]
    exact is member ▸ answered
  · apply (single _ (by decide +kernel)).mpr
    rintro - g member
    rw [is member]
    exact ⟨[.int 3], queryOne_eq_list.mp (by decide +kernel)⟩

end OpenUltraSast.Cpg
