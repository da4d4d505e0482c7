import OpenUltraSast.Model.PortionTermination

/-!
# Portions lose and duplicate nothing

What is left to ask, what was answered and what was refused when asked alone are the
requests, each one once, after every turn.
-/

namespace OpenUltraSast.Model

open Collections List

variable {ρ σ : Type} (load : Workload) (requests : Requests ρ)

theorem ids_append (l m : Requests ρ) : ids (l ++ m) = ids l ++ ids m := by
  simp only [ids, map_append]

theorem ids_filter (p : String → Bool) (l : Requests ρ) :
    ids (l.filter fun entry => p entry.1) = (ids l).filter p := by
  simp only [ids, filter_map]
  rfl

theorem ids_single {requests : Requests ρ} (distinct : (ids requests).Nodup) {rid : String}
    (known : rid ∈ ids requests) : ids (requests.filter (·.1 = rid)) = [rid] := by
  rw [ids_filter (fun id => decide (id = rid)), filter_eq,
    count_eq_one_of_mem distinct known]
  rfl

def Reply.rows (reply : Reply σ) (rid : String) : Option σ :=
  reply.answer.bind fun answer => answer.rows.lookup rid

theorem Reply.answers_iff (reply : Reply σ) (rid : String) :
    reply.answers rid = (reply.rows rid).isSome := by
  cases answered : reply.answer <;> simp [Reply.answers, Reply.rows, answered]

namespace Batch

variable {batch : Batch ρ σ} {reply : Reply σ}

def asked (batch : Batch ρ σ) : List String :=
  match batch.next load requests with
  | none => []
  | some (chunk, _, _) => ids chunk

def refused (asked : List String) (reply : Reply σ) : List String :=
  if asked.length = 1 then asked.filter fun rid => !reply.answers rid else []

theorem answered_perm (asked : List String) (reply : Reply σ) :
    (asked.filter reply.answers ++ asked.filter fun rid => !reply.answers rid).Perm asked :=
  filter_append_perm reply.answers asked

theorem ids_remainder (chunk : Requests ρ) (reply : Reply σ) :
    ids (remainder chunk reply) = (ids chunk).filter fun rid => !reply.answers rid :=
  ids_filter (fun rid => !reply.answers rid) chunk

theorem left_of_isolated {rid : String} {others : List String} (queue : batch.queue = [])
    (isolated : batch.isolated = rid :: others) : batch.left = rid :: others := by
  simp [left, queue, isolated, ids]

theorem left_of_queue {behind : Batch ρ σ} {chunk : Requests ρ} {pending : List (Requests ρ)}
    (queue : batch.queue = chunk :: pending)
    (queue' : behind.queue = (batch.sizer.fit load chunk pending).2)
    (isolated : behind.isolated = batch.isolated) :
    batch.left = ids (batch.sizer.fit load chunk pending).1 ++ behind.left := by
  rw [left, left, queue, queue', isolated, flatten_cons,
    ← batch.sizer.fit_append load chunk pending, ids_append, append_assoc]

private theorem asked_left (known : ∀ rid ∈ batch.left, rid ∈ ids requests)
    (distinct : (ids requests).Nodup) : ∃ rest, batch.left = batch.asked load requests ++ rest := by
  rcases next_cases load requests batch with ⟨next, -⟩ |
    ⟨rid, others, behind, queue, isolated, next, -⟩ |
    ⟨chunk, pending, behind, queue, next, queue', isolated', -⟩
  · exact ⟨batch.left, by simp [asked, next]⟩
  · have all := left_of_isolated queue isolated
    refine ⟨others, ?_⟩
    simp only [asked, next]
    rw [ids_single distinct (known rid (all ▸ mem_cons_self)), all]
    rfl
  · refine ⟨behind.left, ?_⟩
    simp only [asked, next]
    exact left_of_queue load queue queue' isolated'

private theorem turn_left (known : ∀ rid ∈ batch.left, rid ∈ ids requests)
    (distinct : (ids requests).Nodup) (apart : batch.left.Nodup) (reply : Reply σ) :
    ((batch.asked load requests).filter reply.answers ++
      refused (batch.asked load requests) reply ++
      (batch.turn load requests reply).left).Perm batch.left := by
  rcases next_cases load requests batch with ⟨next, -⟩ |
    ⟨rid, others, behind, queue, isolated, next, queue', isolated', -⟩ |
    ⟨chunk, pending, behind, queue, next, queue', isolated', -⟩
  · simp [asked, turn, next, refused]
  · -- One isolated request is asked.
    have all := left_of_isolated queue isolated
    have single := ids_single distinct (known rid (all ▸ mem_cons_self))
    have after : (behind.settle load (requests.filter (·.1 = rid)) true reply).left = others := by
      rcases settle_cases load behind (requests.filter (·.1 = rid)) true reply with
        ⟨queue'', isolated'', -⟩ | ⟨company, -⟩ | ⟨_, _, _, company, -⟩
      · simp [left, queue'', isolated'', queue', isolated', ids]
      · cases company
      · cases company
    simp only [asked, turn, next]
    rw [after, single, all, refused, if_pos (length_singleton ..)]
    exact (answered_perm [rid] reply).append_right others
  · -- A portion of the queue is asked.
    have all := left_of_queue load queue queue' isolated'
    simp only [asked, turn, next]
    generalize (batch.sizer.fit load chunk pending).1 = kept at all next
    rw [all] at apart ⊢
    rcases settle_cases load behind kept false reply with ⟨queue'', isolated'', why⟩ |
      ⟨-, several, -, -, queue'', isolated''⟩ |
      ⟨_, first, others, -, several, -, unanswered, queue'', isolated''⟩
    · have same : (behind.settle load kept false reply).left = behind.left := by
        rw [left, left, queue'', isolated'']
      rw [same]
      refine List.Perm.append_right _ ?_
      rcases why with nothing | company | single
      · have unanswered := ids_remainder kept reply
        rw [nothing] at unanswered
        have parts := answered_perm (ids kept) reply
        rw [← unanswered] at parts
        rw [refused, ← unanswered]
        split <;> exact parts
      · cases company
      · rw [refused, if_pos (by simpa [ids] using single)]
        exact answered_perm (ids kept) reply
    · have again : (behind.settle load kept false reply).left =
          (ids kept).filter (fun rid => !reply.answers rid) ++ behind.left := by
        rw [left, left, queue'', isolated'', flatten_cons, ids_append, ids_remainder,
          append_assoc]
      rw [again, refused, if_neg (by simpa [ids] using several), append_nil,
        ← append_assoc]
      exact (answered_perm (ids kept) reply).append_right _
    · have ids_unanswered := ids_remainder kept reply
      rw [unanswered] at ids_unanswered
      -- The killed request occurs once in its portion.
      have once : (first :: others).map (·.1) |>.Nodup := by
        have portion : (ids kept).Nodup := (nodup_append.mp apart).1
        have part := portion.filter fun rid => !reply.answers rid
        rwa [← ids_unanswered] at part
      have rest : others.filter (fun entry => decide (entry.1 ≠ first.1)) = others := by
        rw [filter_eq_self]
        intro entry member
        rw [map_cons, nodup_cons] at once
        exact decide_eq_true fun same => once.1 (same ▸ mem_map_of_mem member)
      have again : (behind.settle load kept false reply).left =
          ids others ++ ids behind.queue.flatten ++ (behind.isolated ++ [first.1]) := by
        rw [left, queue'', isolated'', rest]
        split
        · rw [flatten_cons, ids_append]
        next none_ =>
          rw [ne_eq, not_not] at none_
          rw [none_]
          rfl
      have moved : (ids others ++ ids behind.queue.flatten ++
          (behind.isolated ++ [first.1])).Perm (ids (first :: others) ++ behind.left) := by
        rw [← append_assoc, append_assoc (ids others)]
        exact perm_append_singleton first.1 (ids others ++ behind.left)
      rw [again, refused, if_neg (by simpa [ids] using several), append_nil]
      refine (moved.append_left _).trans ?_
      rw [ids_unanswered, ← append_assoc]
      exact (answered_perm (ids kept) reply).append_right _

theorem merged_settle (batch : Batch ρ σ) (chunk : Requests ρ) (alone : Bool) (reply : Reply σ) :
    (batch.settle load chunk alone reply).merged =
      ((reply.answer.map (·.rows)).getD []).filter (fun entry => entry.1 ∈ ids chunk) ++
        batch.merged := by
  simp only [settle]
  split
  · rfl
  · split
    · split <;> rfl
    · rfl

private theorem turn_merged (batch : Batch ρ σ) (reply : Reply σ) (rid : String) :
    (batch.turn load requests reply).merged.lookup rid =
      ((if rid ∈ batch.asked load requests then reply.rows rid else none).or
        (batch.merged.lookup rid)) := by
  have given (asked : List String) :
      (((reply.answer.map (·.rows)).getD []).filter (fun entry => entry.1 ∈ asked)).lookup rid =
        if rid ∈ asked then reply.rows rid else none := by
    rw [lookup_filter_key (fun id => decide (id ∈ asked))]
    cases answered : reply.answer <;> simp [Reply.rows, answered]
  rcases next_cases load requests batch with ⟨next, -⟩ |
    ⟨_, _, behind, -, -, next, -, -, -, merged⟩ | ⟨_, _, behind, -, next, -, -, -, merged⟩ <;>
    simp only [turn, asked, next]
  · simp
  · rw [merged_settle, lookup_append, given, merged]
  · rw [merged_settle, lookup_append, given, merged]

theorem settle_again (batch : Batch ρ σ) (chunk : Requests ρ) (alone : Bool) (reply : Reply σ) :
    (∃ again, ids (batch.settle load chunk alone reply).queue.flatten =
        again ++ ids batch.queue.flatten ∧ ∀ rid ∈ again, rid ∈ ids chunk) ∧
      ∀ rid ∈ (batch.settle load chunk alone reply).isolated,
        rid ∈ batch.isolated ∨ rid ∈ ids chunk := by
  -- Only unanswered requests of the portion go back.
  have part : ∀ rid ∈ ids (remainder chunk reply), rid ∈ ids chunk := by
    intro rid member
    rw [ids_remainder] at member
    exact mem_of_mem_filter member
  rcases settle_cases load batch chunk alone reply with ⟨queue, isolated, -⟩ |
    ⟨-, -, -, -, queue, isolated⟩ | ⟨_, first, others, -, -, -, unanswered, queue, isolated⟩ <;>
    rw [queue, isolated]
  · exact ⟨⟨[], rfl, by simp⟩, fun rid member => .inl member⟩
  · refine ⟨⟨ids (remainder chunk reply), ?_, part⟩, fun rid member => .inl member⟩
    rw [flatten_cons, ids_append]
  · rw [unanswered] at part
    constructor
    · -- The first goes to be asked alone, the others to the queue.
      refine ⟨ids (others.filter fun entry => decide (entry.1 ≠ first.1)), ?_, ?_⟩
      · split
        · rw [flatten_cons, ids_append]
        next empty =>
          rw [ne_eq, not_not] at empty
          rw [empty]
          rfl
      · intro rid member
        obtain ⟨entry, kept, rfl⟩ := mem_map.mp member
        exact part _ (mem_map_of_mem (mem_cons_of_mem _ (mem_of_mem_filter kept)))
    · intro rid member
      rcases mem_append.mp member with old | new
      · exact .inl old
      · rw [mem_singleton.mp new]
        exact .inr (part _ mem_cons_self)

/-- Rows were merged only from an answer. -/
def Reported (batch : Batch ρ σ) : Prop := batch.merged ≠ [] → batch.answeredAny = true

theorem settle_reported (reported : batch.Reported) (chunk : Requests ρ) (alone : Bool) :
    (batch.settle load chunk alone reply).Reported := by
  intro rows
  rw [merged_settle] at rows
  -- Settling a portion records whether the engine answered.
  have any : (batch.settle load chunk alone reply).answeredAny =
      (batch.answeredAny || reply.answer.isSome) := by
    simp only [settle]
    split
    · rfl
    · split
      · split <;> rfl
      · rfl
  rw [any]
  cases answered : reply.answer with
  | none =>
    rw [answered] at rows
    rw [reported (by simpa using rows)]
    rfl
  | some answer => exact Bool.or_true _

private theorem turn_reported (reported : batch.Reported) (reply : Reply σ) :
    (batch.turn load requests reply).Reported := by
  cases next : batch.next load requests with
  | none => simpa only [turn, next] using reported
  | some portion =>
    obtain ⟨chunk, alone, behind⟩ := portion
    simp only [turn, next]
    apply settle_reported
    simp only [Batch.next] at next
    split at next <;> cases next <;> exact reported

end Batch

section
variable (replies : Nat → Reply σ)

def answeredAt (n : Nat) : List String :=
  (askedAt load requests replies n).filter (replies n).answers

def refusedAt (n : Nat) : List String :=
  Batch.refused (askedAt load requests replies n) (replies n)

def before (idsAt : Nat → List String) (n : Nat) : List String := (List.range n).flatMap idsAt

theorem before_succ (idsAt : Nat → List String) (n : Nat) :
    before idsAt (n + 1) = before idsAt n ++ idsAt n := by
  simp [before, range_succ]

theorem mem_before {idsAt : Nat → List String} {n : Nat} {rid : String} :
    rid ∈ before idsAt n ↔ ∃ k < n, rid ∈ idsAt k := by
  simp [before]

variable {requests} (distinct : (ids requests).Nodup)
include distinct

theorem shares (n : Nat) :
    (before (answeredAt load requests replies) n ++ before (refusedAt load requests replies) n ++
      (stateAfter load requests replies n).left).Perm (ids requests) := by
  induction n with
  | zero =>
    simp [before, stateAfter, Batch.start, Batch.left, sizedBatches_flatten]
  | succ n ih =>
    -- Nothing is left that was not requested, and nothing twice.
    have known : ∀ rid ∈ (stateAfter load requests replies n).left, rid ∈ ids requests :=
      fun rid member => ih.subset (mem_append_right _ member)
    have apart := (nodup_append.mp (ih.nodup_iff.mpr distinct)).2.1
    have turn := Batch.turn_left load requests known distinct apart (replies n)
    rw [before_succ, before_succ, stateAfter_succ]
    refine List.Perm.trans ?_ ((turn.append_left _).trans ih)
    simp only [append_assoc]
    exact (perm_append_comm_assoc ..).append_left _

theorem known_left (n : Nat) :
    ∀ rid ∈ (stateAfter load requests replies n).left, rid ∈ ids requests :=
  fun _ member => (shares load replies distinct n).subset (mem_append_right _ member)

theorem left_apart (n : Nat) :
    (stateAfter load requests replies n).left.Nodup ∧
      ∀ rid ∈ (stateAfter load requests replies n).left,
        rid ∉ before (answeredAt load requests replies) n ∧
        rid ∉ before (refusedAt load requests replies) n := by
  have apart := nodup_append.mp ((shares load replies distinct n).nodup_iff.mpr distinct)
  refine ⟨apart.2.1, fun rid member => ⟨fun answered => ?_, fun refused => ?_⟩⟩
  · exact apart.2.2 rid (mem_append_left _ answered) rid member rfl
  · exact apart.2.2 rid (mem_append_right _ refused) rid member rfl

theorem asked_new {j n : Nat} (earlier : j < n) {rid : String}
    (settled : rid ∈ answeredAt load requests replies j ∨ rid ∈ refusedAt load requests replies j) :
    rid ∉ askedAt load requests replies n := by
  intro again
  obtain ⟨rest, left⟩ := Batch.asked_left load requests (known_left load replies distinct n) distinct
  have member : rid ∈ (stateAfter load requests replies n).left :=
    left ▸ mem_append_left _ again
  obtain ⟨unanswered, unrefused⟩ := (left_apart load replies distinct n).2 rid member
  -- What is asked is left, and what is left was neither answered nor refused.
  rcases settled with answered | refused
  · exact unanswered (mem_before.mpr ⟨j, earlier, answered⟩)
  · exact unrefused (mem_before.mpr ⟨j, earlier, refused⟩)

private theorem merged_rows (n : Nat) (rid : String) (rows : σ) :
    (stateAfter load requests replies n).merged.lookup rid = some rows ↔
      ∃ k < n, rid ∈ askedAt load requests replies k ∧ (replies k).rows rid = some rows := by
  induction n with
  | zero => simp [stateAfter, Batch.start]
  | succ n ih =>
    rw [stateAfter_succ, Batch.turn_merged, Option.or_eq_some_iff, ih]
    constructor
    · rintro (now | ⟨-, k, earlier, given⟩)
      · split at now
        next asked => exact ⟨n, Nat.lt_succ_self n, asked, now⟩
        · cases now
      · exact ⟨k, Nat.lt_succ_of_lt earlier, given⟩
    · rintro ⟨k, earlier, asked, given⟩
      rcases Nat.lt_succ_iff_lt_or_eq.mp earlier with before_ | rfl
      · right
        -- It was answered before, so it is not asked in this turn.
        have answered : rid ∈ answeredAt load requests replies k := by
          rw [answeredAt, mem_filter, Reply.answers_iff, given]
          exact ⟨asked, rfl⟩
        have new := asked_new load replies distinct before_ (.inl answered)
        exact ⟨if_neg new, k, before_, asked, given⟩
      · exact .inl ((if_pos asked).trans given)

omit distinct in
theorem stateAfter_reported (n : Nat) : (stateAfter load requests replies n).Reported := by
  induction n with
  | zero => exact fun rows => absurd rfl rows
  | succ n ih => exact Batch.turn_reported load requests ih (replies n)

def once (asked : List String) : List String := asked.filter fun rid => asked.count rid = 1

omit distinct in
theorem once_append {asked again fresh : List String} (old : ∀ rid ∈ again, rid ∈ asked) :
    (once (asked ++ (again ++ fresh))).Sublist (once asked ++ fresh) := by
  -- An id that occurs once in all occurs once in what was asked before.
  have fewer : ∀ rid ∈ asked, (asked ++ (again ++ fresh)).count rid = 1 → asked.count rid = 1 := by
    intro rid member single
    have present := count_pos_iff.mpr member
    rw [count_append] at single
    omega
  rw [once, filter_append, filter_append]
  refine List.Sublist.append ?_ ?_
  · have twice : asked.filter (fun rid => decide ((asked ++ (again ++ fresh)).count rid = 1)) =
        (once asked).filter fun rid => decide ((asked ++ (again ++ fresh)).count rid = 1) := by
      rw [once, filter_filter]
      apply filter_congr
      intro rid member
      by_cases single : (asked ++ (again ++ fresh)).count rid = 1
      · simp only [single, fewer rid member single, decide_true, Bool.and_true]
      · simp only [single, decide_false, Bool.false_and]
    rw [twice]
    exact filter_sublist
  · -- What is asked again occurs twice.
    have gone : again.filter (fun rid => decide ((asked ++ (again ++ fresh)).count rid = 1)) = [] := by
      rw [filter_eq_nil_iff]
      intro rid member single
      have first := count_pos_iff.mpr (old rid member)
      have second := count_pos_iff.mpr member
      rw [decide_eq_true_eq, count_append, count_append] at single
      omega
    rw [gone, nil_append]
    exact filter_sublist

variable (requests) in
/-- The queue holds requests that were asked and then, in order, those that were not. -/
def Ordered (n : Nat) : Prop :=
  ∃ seen retried fresh, ids requests = seen ++ fresh ∧
    ids (stateAfter load requests replies n).queue.flatten = retried ++ fresh ∧
    (∀ rid ∈ retried, rid ∈ before (askedAt load requests replies) n) ∧
    (∀ rid ∈ (stateAfter load requests replies n).isolated,
      rid ∈ before (askedAt load requests replies) n) ∧
    (once (before (askedAt load requests replies) n)).Sublist seen

private theorem ordered_turn {n : Nat} (ordered : Ordered load requests replies n) :
    Ordered load requests replies (n + 1) := by
  obtain ⟨seen, retried, fresh, order, queued, old, oldIsolated, single⟩ := ordered
  rw [Ordered, before_succ, stateAfter_succ]
  rcases Batch.next_cases load requests (stateAfter load requests replies n) with ⟨next, -⟩ |
    ⟨rid, others, behind, queue, isolated, next, queue', isolated', -⟩ |
    ⟨chunk, pending, behind, queue, next, queue', isolated', -⟩
  · have nothing : askedAt load requests replies n = [] := by simp only [askedAt, next]
    simp only [nothing, append_nil, Batch.turn, next]
    exact ⟨seen, retried, fresh, order, queued, old, oldIsolated, single⟩
  · -- An isolated request was asked before.
    have all := Batch.left_of_isolated queue isolated
    have known := known_left load replies distinct n rid (all ▸ mem_cons_self)
    have asked : askedAt load requests replies n = [rid] := by
      simp only [askedAt, next]
      exact ids_single distinct known
    have repeated : ∀ id ∈ [rid], id ∈ before (askedAt load requests replies) n := by
      intro id member
      rw [mem_singleton.mp member]
      exact oldIsolated rid (isolated ▸ mem_cons_self)
    obtain ⟨⟨again, queued', back⟩, isolated''⟩ := Batch.settle_again load behind
      (requests.filter (·.1 = rid)) true (replies n)
    rw [ids_single distinct known] at back isolated''
    rw [queue] at queued
    have empty := append_eq_nil_iff.mp queued.symm
    simp only [Batch.turn, next]
    refine ⟨seen, again, [], by rw [order, empty.2], ?_, ?_, ?_, ?_⟩
    · rw [queued', queue']
      rfl
    · exact fun id member => mem_append_left _ (repeated id (back id member))
    · intro id member
      rcases isolated'' id member with waiting | asked
      · rw [isolated'] at waiting
        exact mem_append_left _ (oldIsolated id (isolated ▸ mem_cons_of_mem _ waiting))
      · exact mem_append_left _ (repeated id asked)
    · have kept := @once_append _ _ [] repeated
      rw [append_nil, append_nil] at kept
      rw [asked]
      exact kept.trans single
  · -- The portion and what is behind it are the queue.
    have parts := congrArg ids ((stateAfter load requests replies n).sizer.fit_append load chunk
      pending)
    rw [ids_append, ← queue', ← flatten_cons, ← queue, queued] at parts
    have asked : askedAt load requests replies n =
        ids ((stateAfter load requests replies n).sizer.fit load chunk pending).1 := by
      simp only [askedAt, next]
    obtain ⟨⟨again, queued', back⟩, isolated''⟩ := Batch.settle_again load behind
      ((stateAfter load requests replies n).sizer.fit load chunk pending).1 false (replies n)
    rw [← asked] at parts back isolated''
    obtain ⟨repeated, new, waiting, later, portion, rest, split, oldRepeated, oldWaiting⟩ :
        ∃ repeated new waiting later, askedAt load requests replies n = repeated ++ new ∧
          ids behind.queue.flatten = waiting ++ later ∧ fresh = new ++ later ∧
          (∀ rid ∈ repeated, rid ∈ before (askedAt load requests replies) n) ∧
          ∀ rid ∈ waiting, rid ∈ before (askedAt load requests replies) n := by
      rcases append_eq_append_iff.mp parts with ⟨waiting, shared, rest⟩ |
        ⟨new, portion, rest⟩
      · refine ⟨askedAt load requests replies n, [], waiting, fresh, by simp, rest, rfl, ?_, ?_⟩
        · exact fun rid member => old rid (shared ▸ mem_append_left _ member)
        · exact fun rid member => old rid (shared ▸ mem_append_right _ member)
      · exact ⟨retried, new, [], ids behind.queue.flatten, portion, rfl, rest, old, by simp⟩
    simp only [Batch.turn, next]
    refine ⟨seen ++ new, again ++ waiting, later, ?_, ?_, ?_, ?_, ?_⟩
    · rw [order, split, append_assoc]
    · rw [queued', rest, append_assoc]
    · intro rid member
      rcases mem_append.mp member with returned | waited
      · exact mem_append_right _ (back rid returned)
      · exact mem_append_left _ (oldWaiting rid waited)
    · intro rid member
      rcases isolated'' rid member with waited | killed
      · rw [isolated'] at waited
        exact mem_append_left _ (oldIsolated rid waited)
      · exact mem_append_right _ killed
    · rw [portion]
      exact (once_append oldRepeated).trans (single.append_right new)

/-- After any number of turns what was asked is in the order of the requests. -/
theorem ordered_run (n : Nat) : Ordered load requests replies n := by
  induction n with
  | zero =>
    refine ⟨[], [], ids requests, rfl, ?_, by simp, ?_, by simp [before, once]⟩
    · simp [stateAfter, Batch.start, sizedBatches_flatten]
    · simp [stateAfter, Batch.start]
  | succ n ih => exact ordered_turn load replies distinct ih

end

section
variable (replies : Nat → Reply σ) (turns : Nat) (rid : String)

def Answered : Prop :=
  ∃ merged rows, (result load requests replies turns).1 = some merged ∧
    merged.lookup rid = some rows ∧
    ∃ k < turns, rid ∈ askedAt load requests replies k ∧ (replies k).rows rid = some rows

def Refused : Prop :=
  ∃ k < turns, askedAt load requests replies k = [rid] ∧ (replies k).rows rid = none

/-- The id is reported in `unasked`. -/
def Unasked : Prop := rid ∈ (result load requests replies turns).2

end

section
variable {requests} (replies : Nat → Reply σ) (distinct : (ids requests).Nodup)
include distinct

theorem answered_iff (turns : Nat) (rid : String) :
    Answered load requests replies turns rid ↔
      rid ∈ before (answeredAt load requests replies) turns := by
  rw [mem_before]
  constructor
  · rintro ⟨-, rows, -, -, k, earlier, asked, given⟩
    refine ⟨k, earlier, mem_filter.mpr ⟨asked, ?_⟩⟩
    rw [Reply.answers_iff, given]
    rfl
  · rintro ⟨k, earlier, answered⟩
    obtain ⟨asked, answers⟩ := mem_filter.mp answered
    rw [Reply.answers_iff] at answers
    obtain ⟨rows, given⟩ := Option.isSome_iff_exists.mp answers
    have merged := (merged_rows load replies distinct turns rid rows).mpr
      ⟨k, earlier, asked, given⟩
    refine ⟨_, rows, ?_, merged, k, earlier, asked, given⟩
    refine if_pos (stateAfter_reported load replies turns ?_)
    intro empty
    rw [empty] at merged
    cases merged

omit distinct in
theorem refused_iff (turns : Nat) (rid : String) :
    Refused load requests replies turns rid ↔
      rid ∈ before (refusedAt load requests replies) turns := by
  rw [mem_before]
  constructor
  · rintro ⟨k, earlier, asked, nothing⟩
    refine ⟨k, earlier, ?_⟩
    simp [refusedAt, Batch.refused, asked, Reply.answers_iff, nothing]
  · rintro ⟨k, earlier, refused⟩
    simp only [refusedAt, Batch.refused] at refused
    split at refused
    next single =>
      obtain ⟨id, asked⟩ := length_eq_one_iff.mp single
      rw [asked] at refused
      obtain ⟨member, unanswered⟩ := mem_filter.mp refused
      rw [mem_singleton.mp member] at unanswered ⊢
      rw [Reply.answers_iff] at unanswered
      exact ⟨k, earlier, asked, by simpa using unanswered⟩
    · cases refused

/-- However the engine behaves and whenever the loop stops, each request is answered,
refused when asked alone, or reported as unasked, and only one of these; what was
answered is not asked again; and the ids asked once are asked in the order of the
requests. -/
theorem portions_conserve (turns : Nat) :
    (∀ rid ∈ ids requests,
      (Answered load requests replies turns rid ∧ ¬ Refused load requests replies turns rid ∧
          ¬ Unasked load requests replies turns rid) ∨
      (¬ Answered load requests replies turns rid ∧ Refused load requests replies turns rid ∧
          ¬ Unasked load requests replies turns rid) ∨
      (¬ Answered load requests replies turns rid ∧ ¬ Refused load requests replies turns rid ∧
          Unasked load requests replies turns rid)) ∧
    (result load requests replies turns).2.Nodup ∧
    (∀ j k rid, j < k → k < turns → rid ∈ askedAt load requests replies j →
      ((replies j).rows rid).isSome → rid ∉ askedAt load requests replies k) ∧
    (once (before (askedAt load requests replies) turns)).Sublist (ids requests) := by
  have parts := shares load replies distinct turns
  have apart := nodup_append.mp (parts.nodup_iff.mpr distinct)
  refine ⟨fun rid member => ?_, apart.2.1, fun j k rid earlier _ asked answered => ?_, ?_⟩
  · rw [answered_iff load replies distinct, refused_iff load replies]
    have leftApart := (left_apart load replies distinct turns).2 rid
    have settledApart := (nodup_append.mp apart.1).2.2 rid
    have some_ := parts.symm.subset member
    rw [mem_append, mem_append] at some_
    -- Each request has one of the three shares, and the shares have no id in common.
    rcases some_ with (answered | refused) | left
    · exact .inl ⟨answered, fun refused => settledApart answered rid refused rfl,
        fun left => (leftApart left).1 answered⟩
    · exact .inr (.inl ⟨fun answered => settledApart answered rid refused rfl, refused,
        fun left => (leftApart left).2 refused⟩)
    · exact .inr (.inr ⟨(leftApart left).1, (leftApart left).2, left⟩)
  · refine asked_new load replies distinct earlier (.inl (mem_filter.mpr ⟨asked, ?_⟩))
    rw [Reply.answers_iff, answered]
  · obtain ⟨seen, -, fresh, order, -, -, -, single⟩ := ordered_run load replies distinct turns
    rw [order]
    exact single.trans (sublist_append_left _ _)

end

/-- The engine answers the first of four requests and is killed on the second. -/
theorem portions_conserve_four :
    (ids fourRequests).Nodup ∧
      (once (before (askedAt plainLoad fourRequests dies) 3)).Sublist (ids fourRequests) :=
  ⟨by decide, (portions_conserve plainLoad dies (by decide) 3).2.2.2⟩

end OpenUltraSast.Model
