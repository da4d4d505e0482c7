import OpenUltraSast.Cpg.Shards
import OpenUltraSast.Library.Portions

/-!
# Attempts of a batch

What a batch asks the engine, attempt by attempt, and what it makes of the answers.
-/

namespace OpenUltraSast.Cpg

open Values List

variable {ρ : Type} {r : Reader}

/-- One invocation of a batch, with the requests it was given. -/
structure Attempt (ρ : Type) where
  asked : List (String × ρ)
  turn : Turn

def Attempt.answers (r : Reader) (a : Attempt ρ) : Answers := (batchOnce r a.turn).getD []

/-- The parts that the requests left over are asked in. -/
def portions (rest : List (String × ρ)) : List (List (String × ρ)) :=
  Portions.portions (max 1 (rest.length / batchSplits)) rest

def Graph.leftOver (r : Reader) (requests : List (String × ρ)) (g : Graph ρ) :
    List (String × ρ) :=
  remaining (batchOnce r (g.batch 0 requests)) requests

/-- The invocations for the parts that there is time for. -/
def Graph.retries (r : Reader) (requests : List (String × ρ)) (g : Graph ρ) : List (Attempt ρ) :=
  if splits (batchOnce r (g.batch 0 requests)) requests then
    ((portions (g.leftOver r requests)).zipIdx.takeWhile fun part => g.timeLeft part.2).map
      fun part => ⟨part.1, g.batch (part.2 + 1) part.1⟩
  else []

def Graph.attempts (r : Reader) (requests : List (String × ρ)) (g : Graph ρ) : List (Attempt ρ) :=
  ⟨requests, g.batch 0 requests⟩ :: g.retries r requests

private theorem parts_eq (g : Graph ρ) (rest : List (String × ρ)) :
    g.parts rest =
      ((portions rest).zipIdx.takeWhile fun part => g.timeLeft part.2).map fun part =>
        g.batch (part.2 + 1) part.1 := by
  rw [Graph.parts, portions, Portions.portions, zipIdx_map, zipIdx_map,
    takeWhile_map, takeWhile_map, map_map, map_map]
  rfl

private theorem turns_eq (g : Graph ρ) (requests : List (String × ρ)) :
    g.turns r false requests = (g.attempts r requests).map (·.turn) := by
  rw [Graph.turns, Graph.attempts, map_cons, Graph.retries]
  cases splits (batchOnce r (g.batch 0 requests)) requests with
  | true => simp [parts_eq, Graph.leftOver, Function.comp_def]
  | false => rfl

theorem retries_asked (g : Graph ρ) (requests : List (String × ρ)) :
    ∃ k, (g.retries r requests).map (·.asked) = (portions (g.leftOver r requests)).take k ∧
      (splits (batchOnce r (g.batch 0 requests)) requests = true →
        (portions (g.leftOver r requests)).take k = portions (g.leftOver r requests) ∨
          g.timeLeft (g.retries r requests).length = false) := by
  rw [Graph.retries]
  cases splits (batchOnce r (g.batch 0 requests)) requests with
  | false => exact ⟨0, rfl, nofun⟩
  | true =>
    obtain ⟨k, taken, ended⟩ :=
      Portions.takeWhile_zipIdx (portions (g.leftOver r requests)) g.timeLeft 0
    refine ⟨k, ?_, fun _ => ?_⟩
    · rw [if_pos rfl, taken, map_map]
      exact zipIdx_map_fst 0 _
    · rw [if_pos rfl, taken, length_map, length_zipIdx]
      rwa [Nat.zero_add] at ended

theorem flatten_portions (rest : List (String × ρ)) : (portions rest).flatten = rest :=
  Portions.flatten_portions (Nat.lt_of_lt_of_le Nat.zero_lt_one (Nat.le_max_left _ _)) rest

variable {requests : List (String × ρ)}

variable {g : Graph ρ} {given : List Streamed} {id : String}

private theorem asked_again (several : 1 < requests.length)
    (left : id ∈ Dicts.keys (g.leftOver r requests)) :
    (∃ a ∈ g.retries r requests, id ∈ Dicts.keys a.asked) ∨
      g.timeLeft (g.retries r requests).length = false := by
  obtain ⟨k, asked, ended⟩ := retries_asked (r := r) g requests
  have some_left : g.leftOver r requests ≠ [] := by
    rintro none
    rw [none] at left
    cases left
  have split : splits (batchOnce r (g.batch 0 requests)) requests = true := by
    have some_asked : requests ≠ [] := ne_nil_of_length_pos (by omega)
    simpa [splits, several, some_asked, Graph.leftOver] using some_left
  refine (ended split).imp_left fun all => ?_
  obtain ⟨request, there, rfl⟩ := mem_map.mp left
  rw [← flatten_portions (g.leftOver r requests), ← all, ← asked] at there
  obtain ⟨part, member, held⟩ := mem_flatten.mp there
  obtain ⟨a, retry, rfl⟩ := mem_map.mp member
  exact ⟨a, retry, mem_map_of_mem held⟩

/-- An invocation answers none but the requests it was given. -/
def Attempt.Own (r : Reader) (a : Attempt ρ) : Prop :=
  ∀ id ∈ Dicts.keys (a.answers r), id ∉ reserved → id ∈ Dicts.keys a.asked

private theorem nodup_leftOver (distinct : (Dicts.keys requests).Nodup) :
    (Dicts.keys (g.leftOver r requests)).Nodup :=
  List.Nodup.sublist (filter_sublist.map _) distinct

private theorem retries_apart (distinct : (Dicts.keys requests).Nodup) :
    (g.retries r requests).Pairwise fun a b => ∀ id ∈ Dicts.keys a.asked, id ∉ Dicts.keys b.asked := by
  obtain ⟨k, asked, -⟩ := retries_asked (r := r) g requests
  have left := nodup_leftOver (r := r) (g := g) distinct
  rw [Dicts.keys, ← flatten_portions (g.leftOver r requests), map_flatten,
    nodup_flatten] at left
  have apart := pairwise_map.mp left.2
  have taken := apart.sublist (take_sublist k _)
  rw [← asked] at taken
  apply (pairwise_map.mp taken).imp
  intro a b disjoint id here there
  exact disjoint here there

variable {a : Attempt ρ}

theorem leftOver_of_retry (retry : a ∈ g.retries r requests)
    (asked : id ∈ Dicts.keys a.asked) : id ∈ Dicts.keys (g.leftOver r requests) := by
  obtain ⟨k, parts, -⟩ := retries_asked (r := r) g requests
  have part : a.asked ∈ portions (g.leftOver r requests) := by
    apply mem_of_mem_take (i := k)
    rw [← parts]
    exact mem_map_of_mem retry
  obtain ⟨request, held, rfl⟩ := mem_map.mp asked
  apply mem_map_of_mem
  rw [← flatten_portions (g.leftOver r requests)]
  exact mem_flatten.mpr ⟨a.asked, part, held⟩

private theorem answered_not_asked (distinct : (Dicts.keys requests).Nodup)
    (own : ∀ a ∈ g.attempts r requests, a.Own r) :
    (g.attempts r requests).Pairwise fun a b =>
      ∀ id ∈ Dicts.keys (a.answers r), id ∉ reserved → id ∉ Dicts.keys b.asked := by
  rw [Graph.attempts, forall_mem_cons] at own
  rw [Graph.attempts, pairwise_cons]
  constructor
  · intro b retry id answered _ asked
    obtain ⟨request, left, rfl⟩ := mem_map.mp (leftOver_of_retry retry asked)
    have unanswered := (mem_filter.mp left).2
    exact of_decide_eq_true unanswered answered
  · apply (retries_apart (r := r) distinct).imp_of_mem
    intro a b first _ apart id answered free
    exact apart id (own.2 a first id answered free)

private theorem findSome?_filterMap_batchOnce (turns : List Turn) (id : String) :
    ((turns.filterMap (batchOnce r)).findSome? fun one => one.lookup id) =
      turns.findSome? fun t => ((batchOnce r t).getD []).lookup id := by
  induction turns with
  | nil => rfl
  | cons t turns ih =>
    cases answered : batchOnce r t with
    | none => simp [answered, ih]
    | some one => simp [answered, ih, List.findSome?_cons]

theorem queryBatch_lookup (g : Graph ρ) (requests : List (String × ρ)) (id : String) :
    ((queryBatch r g requests).getD []).lookup id =
      (g.attempts r requests).findSome? fun a => (a.answers r).lookup id := by
  have first : (g.attempts r requests).findSome? (fun a => (a.answers r).lookup id) =
      (((batchOnce r (g.batch 0 requests)).getD []) ::
        ((g.retries r requests).map (·.turn)).filterMap (batchOnce r)).findSome?
          fun one => one.lookup id := by
    rw [Graph.attempts, List.findSome?_cons, List.findSome?_cons, findSome?_filterMap_batchOnce,
      List.findSome?_map]
    rfl
  have turns : (g.retries r requests).map (·.turn) = (g.turns r false requests).tail := by
    rw [turns_eq, Graph.attempts]
    rfl
  rw [first, turns, Graph.turns, queryBatch]
  cases split : splits (batchOnce r (g.batch 0 requests)) requests with
  | false => cases answered : batchOnce r (g.batch 0 requests) <;> simp
  | true =>
    simp only [Bool.not_false, Bool.true_and, tail_cons, if_pos]
    split
    next => rw [Option.getD_some, Dicts.lookup_mergeFirst]
    next none =>
      -- Nothing was answered at all.
      simp only [Bool.or_eq_true, Bool.not_eq_true', not_or, Bool.not_eq_false,
        List.isEmpty_iff] at none
      rw [none.1, none.2]
      rfl

/-- An answer on a line of its own, and what it cost. -/
structure Streamed where
  id : String
  rows : List Json
  ms : ℚ

def Streamed.cost (s : Streamed) : Json := .obj [("id", .str s.id), ("ms", .float s.ms)]

structure Streamed.Line (r : Reader) (s : Streamed) (document : Fields) : Prop where
  named : ∃ name, document.lookup streamId = some name ∧ r.str name = s.id
  held : document.lookup streamRows = some (.arr s.rows)
  timed : (Json.field document "ms").number = some s.ms
  isNumber : ∀ value, Json.field document "ms" ≠ .bool value

/-- The documents of a stream and the answers among them; the census is one of the others. -/
inductive Prints (r : Reader) : List Fields → List Streamed → Prop where
  | nothing : Prints r [] []
  | other {document : Fields} {documents : List Fields} {given : List Streamed}
      (apart : document.lookup streamId = none ∨ document.lookup streamRows = none)
      (rest : Prints r documents given) : Prints r (document :: documents) given
  | answer {document : Fields} {documents : List Fields} {s : Streamed} {given : List Streamed}
      (line : s.Line r document) (rest : Prints r documents given) :
      Prints r (document :: documents) (s :: given)

structure Holds (given : List Streamed) (answers : Fields) : Prop where
  distinct : (Dicts.keys answers).Nodup
  rows : ∀ id, id ∉ reserved →
    answers.lookup id = (given.find? fun s => s.id = id).map fun s => .arr s.rows
  costs : answers.lookup timingKey =
    if given = [] then none else some (.arr (given.map Streamed.cost))

theorem Holds.nothing : Holds [] [] where
  distinct := nodup_nil
  rows _ _ := rfl
  costs := rfl

variable {answers : Fields}

theorem Holds.set_reserved (held : Holds given answers) {key : String}
    (taken : key ∈ reserved) (other : key ≠ timingKey) (value : Json) :
    Holds given (Dicts.set answers key value) where
  distinct := Dicts.nodup_set held.distinct key value
  rows id free := by
    rw [Dicts.lookup_set, if_neg, held.rows id free]
    rintro rfl
    exact free taken
  costs := by rw [Dicts.lookup_set, if_neg other.symm, held.costs]

private theorem addCost_eq {name cost : Json} {ms : ℚ} (timed : cost.number = some ms)
    (isNumber : ∀ value, cost ≠ .bool value) {timing : List Json}
    (listed : answers.lookup timingKey = if timing = [] then none else some (.arr timing)) :
    addCost r answers name cost = Dicts.set answers timingKey
      (.arr (timing ++ [.obj [("id", .str (r.str name)), ("ms", .float ms)]])) := by
  unfold addCost
  split
  next none => exact absurd (none.symm.trans timed) nofun
  next value _ => exact absurd rfl (isNumber value)
  next found =>
    cases found.symm.trans timed
    rw [listed]
    cases timing with
    | nil => rfl
    | cons first timing => rfl

theorem Holds.answer {given : List Streamed} (held : Holds given answers)
    {s : Streamed} (free : s.id ∉ reserved) (new : ∀ old ∈ given, old.id ≠ s.id) {name cost : Json}
    (is : r.str name = s.id) (timed : cost.number = some s.ms)
    (isNumber : ∀ value, cost ≠ .bool value) :
    Holds (given ++ [s]) (addCost r (Dicts.set answers s.id (.arr s.rows)) name cost) := by
  have untimed : timingKey ≠ s.id := by
    rintro same
    exact free (same ▸ by decide)
  have listed : (Dicts.set answers s.id (.arr s.rows)).lookup timingKey =
      if given.map Streamed.cost = [] then none else some (.arr (given.map Streamed.cost)) := by
    rw [Dicts.lookup_set, if_neg untimed, held.costs]
    simp
  rw [addCost_eq timed isNumber listed, is]
  constructor
  case distinct => exact Dicts.nodup_set (Dicts.nodup_set held.distinct _ _) _ _
  case costs => simp [Streamed.cost]
  case rows =>
    intro id other
    have apart : id ≠ timingKey := by
      rintro rfl
      exact other (by decide)
    rw [Dicts.lookup_set, if_neg apart, Dicts.lookup_set, held.rows id other, List.find?_append]
    by_cases here : id = s.id
    · have absent : (given.find? fun s => s.id = id) = none := by
        rw [List.find?_eq_none]
        intro old member
        rw [here]
        simpa using new old member
      simp [here ▸ absent, here]
    · have there : s.id ≠ id := fun same => here same.symm
      simp [here, there]

/-- Printed documents leave the answers with what was streamed, one document at a time. -/
theorem Prints.holds {documents : List Fields} {given : List Streamed}
    (prints : Prints r documents given) {before : List Streamed} {s : Stream}
    (held : Holds before s.answers) (free : ∀ one ∈ given, one.id ∉ reserved)
    (distinct : ((before ++ given).map (·.id)).Nodup) :
    Holds (before ++ given) (documents.foldl (Stream.add r) s).answers := by
  induction prints generalizing before s with
  | nothing => simpa using held
  | @other document documents given apart rest ih =>
    apply ih _ free distinct
    rw [Stream.add]
    split
    · exact held.set_reserved (by decide) (by decide) _
    · split
      next named rowed =>
        rw [named, rowed] at apart
        exact absurd apart (by simp)
      next => exact held
  | @answer document documents one given line rest ih =>
    rw [forall_mem_cons] at free
    obtain ⟨name, named, is⟩ := line.named
    have new : ∀ old ∈ before, old.id ≠ one.id := by
      intro old member same
      rw [map_append, nodup_append] at distinct
      exact distinct.2.2 _ (mem_map_of_mem member) _ (mem_map_of_mem mem_cons_self)
        same
    have added : (Stream.add r s document).answers =
        addCost r (Dicts.set s.answers one.id (.arr one.rows)) name
          (Json.field document "ms") := by
      rw [Stream.add, if_neg, named, line.held, ← is]
      -- A census alone has no id.
      intro census
      have absent : streamId ∉ Dicts.keys document := by
        rw [census]
        decide
      rw [Dicts.lookup_eq_none_iff.mpr absent] at named
      cases named
    have next : Holds (before ++ [one]) (Stream.add r s document).answers := by
      rw [added]
      exact held.answer free.1 new is line.timed line.isNumber
    have rest := ih next free.2 (by simpa using distinct)
    simpa using rest

/-- An invocation prints a stream of answers to some of the requests, each once and with its
cost. The closing fence may be missing. -/
def Turn.Streams (r : Reader) (t : Turn) (asked : List String) (given : List Streamed) : Prop :=
  ∃ stdout body closed fields, t.body = some stdout ∧ t.ends = true ∧
    fenced stdout = some (body, closed) ∧ streamed r body closed = some fields ∧
    Prints r ((splitLines body).filterMap (documentOf r)) given ∧
    (given.map (·.id)).Nodup ∧ ∀ s ∈ given, s.id ∈ asked

/-- An invocation returns nothing, or streams answers. -/
def Attempt.Gives (r : Reader) (a : Attempt ρ) (given : List Streamed) : Prop :=
  (batchOnce r a.turn = none ∧ given = []) ∨ a.turn.Streams r (Dicts.keys a.asked) given

def rowsIn : Json → Option (List Json)
  | .arr rows => some rows
  | _ => none

private theorem lookup_filterMap_rowsOf {fields : Fields} (distinct : (Dicts.keys fields).Nodup)
    (free : id ≠ partialKey) :
    (fields.filterMap rowsOf).lookup id = (fields.lookup id).bind rowsIn := by
  induction fields with
  | nil => rfl
  | cons entry fields ih =>
    obtain ⟨key, value⟩ := entry
    rw [Dicts.keys, map_cons, nodup_cons] at distinct
    have rest := ih distinct.2
    by_cases here : id = key
    · subst here
      have absent : fields.lookup id = none := Dicts.lookup_eq_none_iff.mpr distinct.1
      rw [absent] at rest
      cases value with
      | arr rows => simp [rowsOf, rowsIn, free]
      | _ =>
        rw [filterMap_cons_none rfl, rest, List.lookup_cons_self]
        rfl
    · rw [lookup_cons, beq_false_of_ne here, filterMap_cons]
      cases kept : rowsOf (key, value) with
      | none => exact rest
      | some one =>
        obtain ⟨name, rows⟩ := one
        obtain ⟨same, -⟩ := rowsOf_eq_some.mp kept
        cases same
        simpa [lookup_cons, beq_false_of_ne here] using rest

private theorem keys_filterMap_rowsOf (fields : Fields) :
    (Dicts.keys (fields.filterMap rowsOf)).Sublist (Dicts.keys fields) := by
  induction fields with
  | nil => exact .slnil
  | cons entry fields ih =>
    cases kept : rowsOf entry with
    | none =>
      rw [filterMap_cons_none kept]
      exact ih.cons _
    | some one =>
      obtain ⟨name, rows⟩ := one
      obtain ⟨rfl, -⟩ := rowsOf_eq_some.mp kept
      rw [filterMap_cons_some kept]
      exact ih.cons_cons _

/-- An attempt answers with the rows that were streamed under each id. -/
theorem batchOnce_of_streams {t : Turn} {asked : List String} (streams : t.Streams r asked given)
    (free : ∀ id ∈ asked, id ∉ reserved) :
    ∃ answers, batchOnce r t = some answers ∧
      (∀ id, id ∉ reserved →
        answers.lookup id = (given.find? fun s => s.id = id).map (·.rows)) ∧
      answers.lookup timingKey = if given = [] then none else some (given.map Streamed.cost) := by
  obtain ⟨stdout, body, closed, fields, printed, ends, fence, stream, prints, distinct, own⟩ :=
    streams
  have free_given : ∀ s ∈ given, s.id ∉ reserved := fun s member => free _ (own s member)
  have lines : Holds given
      (((splitLines body).filterMap (documentOf r)).foldl (Stream.add r) {}).answers :=
    @Prints.holds r _ given prints [] {} Holds.nothing free_given distinct
  -- The mark of a body that was cut is no answer and no cost.
  have held : Holds given fields := by
    rw [streamed] at stream
    split at stream
    · cases stream
    · split at stream
      · cases stream
        exact lines.set_reserved (by decide) (by decide) _
      · cases stream
        exact lines
  have kept (id : String) (other : id ≠ partialKey) :
      (Dicts.ofEntries (fields.filterMap rowsOf)).lookup id = (fields.lookup id).bind rowsIn := by
    rw [Dicts.lookup_ofEntries (held.distinct.sublist (keys_filterMap_rowsOf fields)),
      lookup_filterMap_rowsOf held.distinct other]
  refine ⟨Dicts.ofEntries (fields.filterMap rowsOf), ?_, fun id other => ?_, ?_⟩
  · simp [batchOnce, printed, extractPayload, fence, stream, ends]
  · rw [kept id (ne_partialKey other), held.rows id other]
    cases given.find? fun s => s.id = id <;> rfl
  · rw [kept timingKey (by decide), held.costs]
    split <;> rfl

theorem Attempt.Gives.lookup (gives : a.Gives r given)
    (free : ∀ id ∈ Dicts.keys a.asked, id ∉ reserved) :
    (∀ id, id ∉ reserved →
      (a.answers r).lookup id = (given.find? fun s => s.id = id).map (·.rows)) ∧
    (a.answers r).lookup timingKey =
      if given = [] then none else some (given.map Streamed.cost) := by
  rcases gives with ⟨silent, rfl⟩ | streams
  · rw [Attempt.answers, silent]
    exact ⟨fun _ _ => rfl, rfl⟩
  · obtain ⟨answers, is, spec⟩ := batchOnce_of_streams streams free
    rw [Attempt.answers, is]
    exact spec

theorem Attempt.Gives.own {given : List Streamed} (gives : a.Gives r given)
    (free : ∀ id ∈ Dicts.keys a.asked, id ∉ reserved) : a.Own r := by
  intro id answered other
  obtain ⟨rows, found⟩ := Dicts.mem_keys_iff.mp answered
  rw [(gives.lookup free).1 id other, Option.map_eq_some_iff] at found
  obtain ⟨s, found, -⟩ := found
  have member := mem_of_find?_eq_some found
  have is : s.id = id := by simpa using List.find?_some found
  rcases gives with ⟨-, rfl⟩ | ⟨_, _, _, _, _, _, _, _, _, _, own⟩
  · cases member
  · exact is ▸ own s member

def costId : Json → Option String
  | .obj fields =>
    match fields.lookup "id" with
    | some (.str id) => some id
    | _ => none
  | _ => none

def OneAnswered (given : List (List Streamed)) : Prop :=
  (given.filter fun one => !one.isEmpty).length ≤ 1

theorem findSome?_of_forall₂ {α β γ : Type} {f : α → Option γ} {h : β → Option γ} {l : List α}
    {m : List β} (same : List.Forall₂ (fun a b => f a = h b) l m) :
    l.findSome? f = m.findSome? h := by
  induction same with
  | nil => rfl
  | cons first _ ih => rw [List.findSome?_cons, List.findSome?_cons, first, ih]

theorem OneAnswered.costs {given : List (List Streamed)} (one : OneAnswered given) :
    (given.flatten = [] ∨ given.flatten ∈ given) ∧
      (given.findSome? fun one => if one = [] then none else some (one.map Streamed.cost)).getD [] =
        given.flatten.map Streamed.cost := by
  induction given with
  | nil => exact ⟨.inl rfl, rfl⟩
  | cons first given ih =>
    cases first with
    | nil =>
      obtain ⟨whole, listed⟩ := ih one
      exact ⟨whole.imp_right (mem_cons_of_mem _), by simpa using listed⟩
    | cons s first =>
      -- No attempt after the first that answered gave anything.
      have rest : given.flatten = [] := by
        have none : (given.filter fun one => !one.isEmpty).length = 0 := by
          simpa [OneAnswered] using one
        simpa using none
      simp [rest]

theorem filter_cost (distinct : (given.map (·.id)).Nodup) {s : Streamed} (member : s ∈ given) :
    ((given.map Streamed.cost).filter fun entry => costId entry = some s.id) = [s.cost] := by
  induction given with
  | nil => cases member
  | cons first given ih =>
    rw [map_cons, nodup_cons] at distinct
    have named (one : Streamed) : costId one.cost = some one.id := rfl
    rw [map_cons, filter_cons]
    rcases mem_cons.mp member with rfl | later
    · have others : ((given.map Streamed.cost).filter fun entry => costId entry = some s.id) = [] := by
        rw [filter_eq_nil_iff]
        intro entry listed
        obtain ⟨other, there, rfl⟩ := mem_map.mp listed
        have apart : other.id ≠ s.id := fun same => distinct.1 (same ▸ mem_map_of_mem there)
        simpa [named] using apart
      simp [named, others]
    · have apart : first.id ≠ s.id := fun same => distinct.1 (same ▸ mem_map_of_mem later)
      simpa [named, apart] using ih distinct.2 later

/-- Every id has the rows of the first attempt that answered it. -/
def KeepsRows (r : Reader) (g : Graph ρ) (requests : List (String × ρ))
    (given : List (List Streamed)) : Prop :=
  ∀ id, id ∉ reserved → ((queryBatch r g requests).getD []).lookup id =
    given.findSome? fun one => (one.find? fun s => s.id = id).map (·.rows)

/-- No id is asked again after it was answered. -/
def AsksOnce (r : Reader) (g : Graph ρ) (requests : List (String × ρ)) : Prop :=
  (g.attempts r requests).Pairwise fun a b =>
    ∀ id ∈ Dicts.keys (a.answers r), id ∉ reserved → id ∉ Dicts.keys b.asked

/-- Every id that the first attempt left over is asked again, unless there was no time left once
the parts before it had been asked. -/
def AsksAgain (r : Reader) (g : Graph ρ) (requests : List (String × ρ)) : Prop :=
  ∀ id ∈ Dicts.keys (g.leftOver r requests),
    (∃ a ∈ g.retries r requests, id ∈ Dicts.keys a.asked) ∨
      g.timeLeft (g.retries r requests).length = false

def ListsCosts (r : Reader) (g : Graph ρ) (requests : List (String × ρ))
    (given : List (List Streamed)) : Prop :=
  ∀ s ∈ given.flatten,
    ((((queryBatch r g requests).getD []).lookup timingKey).getD []).filter
      (fun entry => costId entry = some s.id) = [s.cost]

def silentGraph : Graph Unit := {}

/-- A batch of one request is not asked again, though nothing came back. -/
theorem single_not_asked_again :
    ¬ ∀ (r : Reader) (g : Graph Unit) (requests : List (String × Unit))
        (given : List (List Streamed)), (Dicts.keys requests).Nodup →
      (∀ id ∈ Dicts.keys requests, id ∉ reserved) →
      List.Forall₂ (Attempt.Gives r) (g.attempts r requests) given →
        KeepsRows r g requests given ∧ AsksOnce r g requests ∧ AsksAgain r g requests ∧
          ListsCosts r g requests given := by
  intro keeps
  have silent : List.Forall₂ (Attempt.Gives lineReader)
      (silentGraph.attempts lineReader [("a", ())]) [[]] :=
    .cons (.inl ⟨rfl, rfl⟩) .nil
  obtain ⟨-, -, again, -⟩ :=
    keeps lineReader silentGraph [("a", ())] [[]] (by decide) (by decide) silent
  rcases again "a" (by decide) with ⟨a, retry, -⟩ | out
  · cases retry
  · cases out

private theorem asked_of_attempt (attempt : a ∈ g.attempts r requests)
    (asked : id ∈ Dicts.keys a.asked) : id ∈ Dicts.keys requests := by
  rcases mem_cons.mp attempt with rfl | retry
  · exact asked
  · have left := leftOver_of_retry retry asked
    exact (filter_sublist.map _).subset left

/-- A batch keeps the rows that came first and asks nothing again that was answered. With several
requests it asks what was left over again while there is time, and where a single attempt answered,
each cost is listed once. -/
theorem queryBatch_keeps (r : Reader) (g : Graph ρ) (requests : List (String × ρ))
    (given : List (List Streamed)) (distinct : (Dicts.keys requests).Nodup)
    (free : ∀ id ∈ Dicts.keys requests, id ∉ reserved)
    (gives : List.Forall₂ (Attempt.Gives r) (g.attempts r requests) given) :
    KeepsRows r g requests given ∧ AsksOnce r g requests ∧
      (1 < requests.length → AsksAgain r g requests) ∧
      (OneAnswered given → ListsCosts r g requests given) := by
  have asked (a : Attempt ρ) (attempt : a ∈ g.attempts r requests) :
      ∀ id ∈ Dicts.keys a.asked, id ∉ reserved :=
    fun id member => free id (asked_of_attempt attempt member)
  refine ⟨fun id other => ?_, ?_, fun several id left => asked_again several left, ?_⟩
  case _ =>
    rw [queryBatch_lookup]
    apply findSome?_of_forall₂
    apply Collections.forall₂_imp_mem gives
    intro a one attempt _ gave
    exact (gave.lookup (asked a attempt)).1 id other
  case _ =>
    apply answered_not_asked distinct
    intro a attempt
    obtain ⟨one, -, gave⟩ := Collections.exists_right_of_forall₂ gives attempt
    exact gave.own (asked a attempt)
  case _ =>
    intro one s member
    obtain ⟨whole, listed⟩ := one.costs
    -- the costs are under their own key, which no request has
    have timing : (((queryBatch r g requests).getD []).lookup timingKey).getD [] =
        given.flatten.map Streamed.cost := by
      rw [queryBatch_lookup, ← listed]
      congr 1
      apply findSome?_of_forall₂
      apply Collections.forall₂_imp_mem gives
      intro a one attempt _ gave
      exact (gave.lookup (asked a attempt)).2
    -- all rows came from one attempt, so they are those of its answer
    have answered : given.flatten ∈ given := by
      rcases whole with none | there
      · rw [none] at member
        cases member
      · exact there
    obtain ⟨a, -, gave⟩ := Collections.exists_left_of_forall₂ gives answered
    have apart : (given.flatten.map (·.id)).Nodup := by
      rcases gave with ⟨-, none⟩ | ⟨_, _, _, _, _, _, _, _, _, apart, _⟩
      · rw [none] at member
        cases member
      · exact apart
    rw [timing]
    exact filter_cost apart member

def timedDocument : Fields := [("id", .str "a"), ("rows", .arr [.int 1]), ("ms", .int 5)]

def timedLine : String := "\x7b\"id\":\"a\",\"rows\":[1],\"ms\":5\x7d"

def timedReader : Reader where
  loads text := if text = timedLine.toList then some (.obj timedDocument) else none
  rawDecode _ := none
  repr _ := ""
  int _ := none

def timedGraph : Graph Unit where
  batch
    | 0, _ => { run := some ⟨-1, printedLines [timedLine] "\x7b\"id\":".toList⟩ }
    | _, _ => {}

def killedBody : List Char := timedLine.toList ++ '\n' :: "\x7b\"id\":".toList

theorem killed_batch_keeps :
    KeepsRows timedReader timedGraph bothRequests [[⟨"a", [.int 1], 5⟩], []] ∧
      AsksOnce timedReader timedGraph bothRequests ∧
      AsksAgain timedReader timedGraph bothRequests ∧
      ListsCosts timedReader timedGraph bothRequests [[⟨"a", [.int 1], 5⟩], []] := by
  have documents : (splitLines killedBody).filterMap (documentOf timedReader) =
      [timedDocument] := by
    decide +kernel
  have line : Streamed.Line timedReader ⟨"a", [.int 1], 5⟩ timedDocument :=
    ⟨⟨_, rfl, rfl⟩, rfl, by decide +kernel, nofun⟩
  have first : Turn.Streams timedReader (timedGraph.batch 0 bothRequests) ["a", "b"]
      [⟨"a", [.int 1], 5⟩] := by
    refine ⟨printedLines [timedLine] "\x7b\"id\":".toList, killedBody, false,
      [("a", .arr [.int 1]), (timingKey, .arr [Streamed.cost ⟨"a", [.int 1], 5⟩]),
        (partialKey, .bool true)], by decide +kernel, rfl, by decide +kernel, by decide +kernel,
      ?_, by decide, by decide⟩
    rw [documents]
    exact .answer line .nothing
  have answered : batchOnce timedReader (timedGraph.batch 0 bothRequests) =
      some [("a", [.int 1]), (timingKey, [Streamed.cost ⟨"a", [.int 1], 5⟩])] := by
    decide +kernel
  have attempts : timedGraph.attempts timedReader bothRequests =
      [⟨bothRequests, timedGraph.batch 0 bothRequests⟩, ⟨[("b", ())], {}⟩] := by
    rw [Graph.attempts, Graph.retries, Graph.leftOver, answered]
    rfl
  have gives : List.Forall₂ (Attempt.Gives timedReader)
      (timedGraph.attempts timedReader bothRequests) [[⟨"a", [.int 1], 5⟩], []] := by
    rw [attempts]
    exact .cons (.inr first) (.cons (.inl ⟨rfl, rfl⟩) .nil)
  obtain ⟨rows, once, again, costs⟩ := queryBatch_keeps timedReader timedGraph bothRequests _
    (by decide) (by decide) gives
  exact ⟨rows, once, again (by decide), costs (Nat.le_refl 1)⟩

end OpenUltraSast.Cpg
