import Mathlib.Data.List.Perm.Subperm
import OpenUltraSast.Plane.Manifests

/-!
# Runs without a cycle

Where `_find_cycle` finds no cycle, the order in which its visits finish puts the producers of
every task before it.
-/

namespace OpenUltraSast.Plane.Run

open List

variable {run : Run}

inductive Ordered (run : Run) : List String → Prop where
  | nil : Ordered run []
  | snoc {order : List String} {name : String} (before : Ordered run order)
      (producers : ∀ producer ∈ run.producersOf name, producer ∈ order) :
      Ordered run (order ++ [name])

/-- What the marks say while the names of `path` are visited and those of `order` are finished. -/
structure Marked (run : Run) (path order : List String) (marks : Marks) : Prop where
  onPath : ∀ name, marks name = some .onPath ↔ name ∈ path
  finished : ∀ name, marks name = some .finished ↔ name ∈ order
  ordered : Ordered run order

/-- A step of a loop that found no cycle: more names are finished, `dep` among them. -/
def Finishes (run : Run) (path order : List String) (dep : String)
    (result : Marks × Option (List String)) : Prop :=
  result.2 = none → ∃ more, Marked run path (order ++ more) result.1 ∧ dep ∈ order ++ more

theorem foldl_finishes {body : Marks × Option (List String) → String → Marks × Option (List String)}
    {path names : List String} (stays : ∀ marks cycle name, (body (marks, some cycle) name).2 ≠ none)
    (finishes : ∀ marks order, Marked run path order marks → ∀ name ∈ names,
      Finishes run path order name (body (marks, none) name))
    {marks : Marks} {order : List String} (marked : Marked run path order marks)
    (free : (names.foldl body (marks, none)).2 = none) :
    ∃ more, Marked run path (order ++ more) (names.foldl body (marks, none)).1 ∧
      ∀ name ∈ names, name ∈ order ++ more := by
  -- Once there is a cycle, there is one to the end.
  have found (rest : List String) : ∀ state : Marks × Option (List String), state.2 ≠ none →
      (rest.foldl body state).2 ≠ none := by
    induction rest with
    | nil => exact fun _ cycle => cycle
    | cons name rest ih =>
      rintro ⟨marks, cycle⟩ isSome
      obtain ⟨cycle, rfl⟩ := Option.ne_none_iff_exists'.mp isSome
      exact ih _ (stays marks cycle name)
  induction names generalizing marks order with
  | nil => exact ⟨[], by simpa using marked, by simp⟩
  | cons name rest ih =>
    rw [foldl_cons] at free ⊢
    have first : (body (marks, none) name).2 = none := by
      by_contra cycle
      exact found rest _ cycle free
    obtain ⟨more, after, finished⟩ := finishes marks order marked name mem_cons_self first
    have again : body (marks, none) name = ((body (marks, none) name).1, none) :=
      Prod.ext rfl first
    rw [again] at free ⊢
    obtain ⟨others, last, all⟩ := ih
      (fun marks order marked name member =>
        finishes marks order marked name (mem_cons_of_mem _ member)) after free
    rw [append_assoc] at last all
    refine ⟨more ++ others, last, fun other member => ?_⟩
    rcases mem_cons.mp member with rfl | later
    · rw [← append_assoc]
      exact mem_append_left _ finished
    · exact all other later

/-- A visit that finds no cycle finishes its task, producers first. -/
theorem visit_finishes (known : ∀ name, ∀ producer ∈ run.producersOf name, producer ∈ run.names) :
    ∀ (fuel : Nat) (path order : List String) (marks : Marks) (name : String),
      Marked run path order marks → path.Nodup → path ⊆ run.names →
      run.tasks.length < fuel + path.length → marks name = none → name ∈ run.names →
      Finishes run path order name (run.visit fuel marks path name)
  | 0, path, _, _, _, _, distinct, inside, enough, _, _ => by
    -- More names are on the path than there are tasks.
    have few := (distinct.subperm inside).length_le
    rw [names, length_map] at few
    omega
  | fuel + 1, path, order, marks, name, marked, distinct, inside, enough, fresh, task => by
    have offPath : name ∉ path := fun member => by
      rw [(marked.onPath name).mpr member] at fresh
      cases fresh
    have here : Marked run (path ++ [name]) order
        (fun other => if other = name then some .onPath else marks other) := by
      refine ⟨fun other => ?_, fun other => ?_, marked.ordered⟩
      · by_cases same : other = name
        · simp [same]
        · simp [same, marked.onPath]
      · by_cases same : other = name
        · subst same
          simp [← marked.finished, fresh]
        · simp [same, marked.finished]
    intro free
    rw [visit] at free ⊢
    split at free
    next => cases free
    next after result =>
      have distinctHere : (path ++ [name]).Nodup :=
        (perm_append_singleton _ _).nodup_iff.mpr (nodup_cons.mpr ⟨offPath, distinct⟩)
      have insideHere : path ++ [name] ⊆ run.names := by
        intro other member
        rcases mem_append.mp member with old | new
        · exact inside old
        · exact mem_singleton.mp new ▸ task
      have enoughHere : run.tasks.length < fuel + (path ++ [name]).length := by
        rw [length_append, length_singleton]
        omega
      have each : ∀ marks order, Marked run (path ++ [name]) order marks →
          ∀ dep ∈ run.producersOf name, Finishes run (path ++ [name]) order dep
            (descend (fun marks dep => run.visit fuel marks (path ++ [name]) dep) (path ++ [name])
              (marks, none) dep) := by
        intro marks order marked dep producer free
        rw [descend] at free ⊢
        split at free
        next => cases free
        next done => exact ⟨[], by simpa using marked, by simpa using (marked.finished dep).mp done⟩
        next fresh =>
          exact visit_finishes known fuel _ order marks dep marked distinctHere insideHere
            enoughHere fresh (known name dep producer) free
      obtain ⟨more, last, finished⟩ := foldl_finishes (by simp [descend]) each here (congrArg Prod.snd result)
      rw [result] at last
      refine ⟨more ++ [name], ⟨fun other => ?_, fun other => ?_, ?_⟩, by simp⟩
      · by_cases same : other = name
        · subst same
          simp [offPath]
        · simp [same, last.onPath]
      · by_cases same : other = name
        · simp [same]
        · simp [same, last.finished]
      · rw [← append_assoc]
        exact last.ordered.snoc finished

theorem exists_task_of_producersOf {name producer : String}
    (produces : producer ∈ run.producersOf name) :
    ∃ entry ∈ run.tasks, entry.name = name ∧ producer ∈ entry.producers := by
  unfold producersOf at produces
  cases found : run.tasks.find? (·.name = name) with
  | none =>
    rw [found] at produces
    cases produces
  | some entry =>
    rw [found] at produces
    exact ⟨entry, mem_of_find?_eq_some found, by simpa using List.find?_some found, produces⟩

/-- Where no cycle is found the tasks have an order with producers first. -/
theorem exists_ordered
    (known : ∀ entry ∈ run.tasks, ∀ producer ∈ entry.producers, producer ∈ run.names)
    (free : run.findCycle = none) :
    ∃ order, Ordered run order ∧ ∀ entry ∈ run.tasks, entry.name ∈ order := by
  have known : ∀ name, ∀ producer ∈ run.producersOf name, producer ∈ run.names := by
    intro name producer produces
    obtain ⟨entry, task, -, produced⟩ := exists_task_of_producersOf produces
    exact known entry task producer produced
  have start : Marked run [] [] (fun _ => none) := ⟨by simp, by simp, Ordered.nil⟩
  have each : ∀ marks order, Marked run [] order marks →
      ∀ name ∈ run.names, Finishes run [] order name (run.explore (marks, none) name) := by
    intro marks order marked name task free
    rw [explore] at free ⊢
    split at free
    next isSome =>
      rw [if_pos isSome]
      refine ⟨[], by simpa using marked, ?_⟩
      obtain ⟨mark, marks⟩ := Option.isSome_iff_exists.mp isSome
      cases mark with
      | onPath => cases (marked.onPath name).mp marks
      | finished => simpa using (marked.finished name).mp marks
    next isNone =>
      rw [if_neg isNone]
      exact visit_finishes known _ [] order marks name marked nodup_nil (nil_subset _)
        (by simp) (by simpa using isNone) task free
  obtain ⟨order, last, finished⟩ := foldl_finishes (by simp [explore]) each start free
  exact ⟨order, last.ordered, fun entry task => finished entry.name (mem_map_of_mem task)⟩

theorem Accepted.exists_ordered (accepted : run.Accepted) :
    ∃ order, Ordered run order ∧ ∀ entry ∈ run.tasks, entry.name ∈ order :=
  Run.exists_ordered (fun _ task _ produces => accepted.known task produces) accepted.acyclic

end OpenUltraSast.Plane.Run
