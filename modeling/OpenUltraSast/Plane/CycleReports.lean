import Mathlib.Data.List.Chain
import OpenUltraSast.Plane.RunCycles

/-!
# What a reported cycle says

`_find_cycle` reports a cycle of the dependencies of a run whenever there is one, and what it reports
is one. Its visits go no deeper than there are tasks.
-/

namespace OpenUltraSast.Plane.Run

open List

variable (run : Run)

/-- A task directly depends on another: it names it in `dependsOn` or takes an input from it. -/
def DependsOn (name producer : String) : Prop :=
  ∃ entry ∈ run.tasks, entry.name = name ∧ producer ∈ entry.producers

/-- No task depends on itself, however indirectly. -/
def Acyclic : Prop := ∀ name, ¬ Relation.TransGen run.DependsOn name name

/-- A sequence of tasks in which each directly depends on the next, back to the first. -/
structure IsCycle (cycle : List String) : Prop where
  closed : ∃ name, cycle.head? = some name ∧ cycle.getLast? = some name
  several : 2 ≤ cycle.length
  depends : cycle.IsChain run.DependsOn

/-- `explore` with some fuel. -/
def exploreWithin (fuel : Nat) : Marks × Option (List String) → String → Marks × Option (List String)
  | (marks, some cycle), _ => (marks, some cycle)
  | (marks, none), name =>
    if (marks name).isSome then (marks, none) else run.visit fuel marks [] name

/-- `findCycle` with some fuel for each visit. -/
def findCycleWithin (fuel : Nat) : Option (List String) :=
  (run.names.foldl (run.exploreWithin fuel) (fun _ => none, none)).2

theorem findCycleWithin_eq : run.findCycleWithin (run.tasks.length + 1) = run.findCycle := by
  have same : run.exploreWithin (run.tasks.length + 1) = run.explore := by
    funext state name
    obtain ⟨marks, cycle⟩ := state
    cases cycle <;> rfl
  rw [findCycleWithin, findCycle, same]

variable {run}

/-- What a loop has come to: a cycle if it reports one, and else marks that name only the path. -/
def Truthful (run : Run) (path : List String) (state : Marks × Option (List String)) : Prop :=
  match state.2 with
  | some cycle => run.IsCycle cycle
  | none => ∀ name, state.1 name = some .onPath → name ∈ path

variable {path : List String}

private theorem dropWhile_of_mem {name : String} (member : name ∈ path) :
    ∃ before after, path = before ++ name :: after ∧ path.dropWhile (· ≠ name) = name :: after := by
  induction path with
  | nil => cases member
  | cons first rest ih =>
    by_cases here : first = name
    · exact ⟨[], rest, by rw [here]; rfl, by simp [here]⟩
    · obtain ⟨before, after, split, dropped⟩ := ih (mem_of_ne_of_mem (Ne.symm here) member)
      refine ⟨first :: before, after, by rw [split]; rfl, ?_⟩
      rw [dropWhile_cons_of_pos (by simpa using here)]
      exact dropped

private theorem isCycle_dropWhile {name dep : String}
    (chain : (path ++ [name]).IsChain run.DependsOn) (depends : run.DependsOn name dep)
    (onPath : dep ∈ path ++ [name]) :
    run.IsCycle ((path ++ [name]).dropWhile (· ≠ dep) ++ [dep]) := by
  obtain ⟨before, after, split, dropped⟩ := dropWhile_of_mem onPath
  rw [dropped]
  have last : (dep :: after).getLast? = some name := by
    have whole := congrArg List.getLast? split
    rw [List.getLast?_concat, List.getLast?_append_of_ne_nil _ (cons_ne_nil _ _)] at whole
    exact whole.symm
  rw [split] at chain
  constructor
  · exact ⟨dep, rfl, List.getLast?_concat⟩
  · simp
  · refine isChain_append.mpr ⟨chain.right_of_append, isChain_singleton _, ?_⟩
    intro final isFinal first isFirst
    rw [last] at isFinal
    cases isFinal
    cases isFirst
    exact depends

/-- A visit comes to a true cycle, or to marks that name only its path. -/
theorem visit_truthful : ∀ (fuel : Nat) (path : List String) (marks : Marks) (name : String),
    (path ++ [name]).IsChain run.DependsOn → Truthful run path (marks, none) →
      Truthful run path (run.visit fuel marks path name)
  | 0, _, _, _, _, truthful => truthful
  | fuel + 1, path, marks, name, chain, truthful => by
    have each : ∀ state, Truthful run (path ++ [name]) state → ∀ dep ∈ run.producersOf name,
        Truthful run (path ++ [name]) (descend
          (fun marks dep => run.visit fuel marks (path ++ [name]) dep) (path ++ [name]) state dep) := by
      rintro ⟨marks, cycle⟩ truthful dep produces
      have depends : run.DependsOn name dep := exists_task_of_producersOf produces
      cases cycle with
      | some cycle => exact truthful
      | none =>
        rw [descend]
        split
        next marked => exact isCycle_dropWhile chain depends (truthful dep marked)
        next => exact truthful
        next =>
          apply visit_truthful fuel _ marks dep _ truthful
          refine isChain_append.mpr ⟨chain, isChain_singleton _, ?_⟩
          intro final isFinal first isFirst
          rw [List.getLast?_concat] at isFinal
          cases isFinal
          cases isFirst
          exact depends
    have begins : Truthful run (path ++ [name])
        (fun other => if other = name then some .onPath else marks other, none) := by
      intro other marked
      dsimp only at marked
      split at marked
      next same => simp [same]
      next => exact mem_append_left _ (truthful other marked)
    have ends := List.foldlRecOn _ _ begins each
    rw [visit]
    generalize (run.producersOf name).foldl _ _ = result at ends ⊢
    obtain ⟨after, cycle⟩ := result
    cases cycle with
    | some cycle => exact ends
    | none =>
      -- the visited name is finished, so the marks of the path are those of the names before it
      intro other marked
      dsimp only at marked
      split at marked
      next => cases marked
      next apart => exact (mem_append.mp (ends other marked)).resolve_right (by simpa using apart)

variable {cycle : List String}

theorem findCycle_isCycle (found : run.findCycle = some cycle) :
    run.IsCycle cycle := by
  have each : ∀ state, Truthful run [] state → ∀ name ∈ run.names,
      Truthful run [] (run.explore state name) := by
    rintro ⟨marks, cycle⟩ truthful name -
    cases cycle with
    | some cycle => exact truthful
    | none =>
      rw [explore]
      split
      next => exact truthful
      next => exact visit_truthful _ [] marks name (isChain_singleton _) truthful
  have begins : Truthful run [] (fun _ => none, none) := fun _ marked => by cases marked
  have ends := List.foldlRecOn run.names run.explore begins each
  unfold Truthful at ends
  rw [findCycle] at found
  rw [found] at ends
  exact ends

section Acyclic
variable {order : List String} (distinct : run.names.Nodup)
include distinct

variable {name producer : String}

theorem mem_producersOf_iff :
    producer ∈ run.producersOf name ↔ run.DependsOn name producer := by
  constructor
  · exact exists_task_of_producersOf
  · rintro ⟨entry, task, rfl, produces⟩
    rwa [producersOf_name distinct task]

theorem Ordered.mem_of_depends (ordered : Ordered run order)
    (member : name ∈ order) (depends : run.DependsOn name producer) : producer ∈ order := by
  induction ordered with
  | nil => cases member
  | snoc _ producers ih =>
    apply mem_append_left
    rcases mem_append.mp member with before | last
    · exact ih before
    · rw [mem_singleton.mp last] at depends
      exact producers producer ((mem_producersOf_iff distinct).mpr depends)

theorem Ordered.mem_of_leads (ordered : Ordered run order)
    (member : name ∈ order) (leads : Relation.TransGen run.DependsOn name producer) :
    producer ∈ order := by
  induction leads with
  | single depends => exact ordered.mem_of_depends distinct member depends
  | tail _ depends ih => exact ordered.mem_of_depends distinct ih depends

theorem Ordered.acyclic (ordered : Ordered run order) {name : String} (member : name ∈ order) :
    ¬ Relation.TransGen run.DependsOn name name := by
  induction ordered generalizing name with
  | nil => cases member
  | @snoc order last before producers ih =>
    intro leads
    by_cases early : name ∈ order
    · exact ih early leads
    · -- the first step from the last name goes before it, where the way stays
      have isLast : name = last :=
        mem_singleton.mp ((mem_append.mp member).resolve_left early)
      obtain ⟨next, depends, rest⟩ := Relation.TransGen.head'_iff.mp leads
      have inside : next ∈ order :=
        producers next ((mem_producersOf_iff distinct).mpr (isLast ▸ depends))
      rcases Relation.reflTransGen_iff_eq_or_transGen.mp rest with same | further
      · exact early (same ▸ inside)
      · exact early (before.mem_of_leads distinct inside further)

private theorem acyclic_of_findCycle
    (known : ∀ entry ∈ run.tasks, ∀ producer ∈ entry.producers, producer ∈ run.names)
    (free : run.findCycle = none) : run.Acyclic := by
  obtain ⟨order, ordered, all⟩ := exists_ordered known free
  intro name leads
  obtain ⟨next, ⟨entry, task, named, -⟩, -⟩ := Relation.TransGen.head'_iff.mp leads
  exact ordered.acyclic distinct (named ▸ all entry task) leads

end Acyclic

theorem IsCycle.leads (isCycle : run.IsCycle cycle) :
    ∃ name, Relation.TransGen run.DependsOn name name := by
  obtain ⟨name, first, last⟩ := isCycle.closed
  obtain ⟨next, rest, rfl⟩ : ∃ next rest, cycle = name :: next :: rest := by
    match cycle, first, isCycle.several with
    | _ :: next :: rest, rfl, _ => exact ⟨next, rest, rfl⟩
  refine ⟨name, Relation.TransGen.head' (isChain_cons_cons.mp isCycle.depends).1 ?_⟩
  apply relationReflTransGen_of_exists_isChain_cons rest
    (isChain_cons_cons.mp isCycle.depends).2
  rw [List.getLast?_cons_cons, List.getLast?_eq_some_getLast (cons_ne_nil _ _)] at last
  exact Option.some.inj last

def AllMarked (path : List String) (state : Marks × Option (List String)) : Prop :=
  ∀ name ∈ path, (state.1 name).isSome = true

theorem AllMarked.mark {marks : Marks}
    (marked : AllMarked path (marks, none)) (name : String) (mark : Mark) :
    AllMarked (path ++ [name]) (fun other => if other = name then some mark else marks other, none) := by
  intro other member
  dsimp only
  split
  next => rfl
  next apart => exact marked other ((mem_append.mp member).resolve_right (by simpa using apart))

theorem visit_keeps {before : List String} :
    ∀ (fuel : Nat) (path : List String) (marks : Marks) (name : String),
      AllMarked before (marks, none) → AllMarked before (run.visit fuel marks path name)
  | 0, _, _, _, marked => marked
  | fuel + 1, path, marks, name, marked => by
    have each : ∀ state, AllMarked before state → ∀ dep ∈ run.producersOf name,
        AllMarked before (descend (fun marks dep => run.visit fuel marks (path ++ [name]) dep)
          (path ++ [name]) state dep) := by
      rintro ⟨marks, cycle⟩ marked dep -
      cases cycle with
      | some cycle => exact marked
      | none =>
        rw [descend]
        split
        next => exact marked
        next => exact marked
        next => exact visit_keeps fuel _ marks dep marked
    have begins : AllMarked before
        (fun other => if other = name then some .onPath else marks other, none) :=
      fun other member => marked.mark name .onPath other (mem_append_left _ member)
    have ends := List.foldlRecOn _ _ begins each
    rw [visit]
    generalize (run.producersOf name).foldl _ _ = result at ends ⊢
    obtain ⟨after, cycle⟩ := result
    cases cycle with
    | some cycle => exact ends
    | none =>
      exact fun other member => AllMarked.mark ends name .finished other
        (mem_append_left _ member)

/-- More fuel than there are tasks changes nothing. -/
theorem visit_add (known : ∀ name, ∀ producer ∈ run.producersOf name, producer ∈ run.names)
    (more : Nat) : ∀ (fuel : Nat) (path : List String) (marks : Marks) (name : String),
      path.Nodup → path ⊆ run.names → AllMarked path (marks, none) →
      run.tasks.length < fuel + path.length → marks name = none → name ∈ run.names →
      run.visit (fuel + more) marks path name = run.visit fuel marks path name
  | 0, path, _, _, distinct, inside, _, enough, _, _ => by
    have few := (distinct.subperm inside).length_le
    rw [names, length_map] at few
    omega
  | fuel + 1, path, marks, name, distinct, inside, marked, enough, fresh, task => by
    have offPath : name ∉ path := fun member => by
      have isSome : (marks name).isSome = true := marked name member
      rw [fresh] at isSome
      cases isSome
    have distinctHere : (path ++ [name]).Nodup :=
      (perm_append_singleton _ _).nodup_iff.mpr (nodup_cons.mpr ⟨offPath, distinct⟩)
    have insideHere : path ++ [name] ⊆ run.names :=
      append_subset.mpr ⟨inside, by simpa using task⟩
    have enoughHere : run.tasks.length < fuel + (path ++ [name]).length := by
      rw [length_append, length_singleton]
      omega
    -- both loops are in one state, whose marks are on the whole path
    have each : ∀ dep ∈ run.producersOf name, ∀ state other,
        state = other ∧ AllMarked (path ++ [name]) state →
        descend (fun marks dep => run.visit (fuel + more) marks (path ++ [name]) dep)
            (path ++ [name]) state dep =
          descend (fun marks dep => run.visit fuel marks (path ++ [name]) dep)
            (path ++ [name]) other dep ∧
        AllMarked (path ++ [name])
          (descend (fun marks dep => run.visit (fuel + more) marks (path ++ [name]) dep)
            (path ++ [name]) state dep) := by
      rintro dep produces ⟨marks, cycle⟩ _ ⟨rfl, marked⟩
      cases cycle with
      | some cycle => exact ⟨rfl, marked⟩
      | none =>
        rw [descend, descend]
        split
        next => exact ⟨rfl, marked⟩
        next => exact ⟨rfl, marked⟩
        next fresh =>
          have same := visit_add known more fuel _ marks dep distinctHere insideHere marked
            enoughHere fresh (known name dep produces)
          exact ⟨same, visit_keeps _ _ marks dep marked⟩
    have same := (foldl_rel ⟨rfl, marked.mark name .onPath⟩ each).1
    rw [Nat.add_right_comm, visit, visit]
    rw [same]

private theorem findCycleWithin_of_le
    (known : ∀ entry ∈ run.tasks, ∀ producer ∈ entry.producers, producer ∈ run.names)
    {fuel : Nat} (enough : run.tasks.length < fuel) : run.findCycleWithin fuel = run.findCycle := by
  have known : ∀ name, ∀ producer ∈ run.producersOf name, producer ∈ run.names := by
    intro name producer produces
    obtain ⟨entry, task, -, produced⟩ := exists_task_of_producersOf produces
    exact known entry task producer produced
  obtain ⟨more, rfl⟩ := Nat.exists_eq_add_of_le (Nat.succ_le_of_lt enough)
  rw [← findCycleWithin_eq, findCycleWithin, findCycleWithin]
  have each : ∀ name ∈ run.names, ∀ state other, state = other →
      run.exploreWithin (run.tasks.length.succ + more) state name =
        run.exploreWithin (run.tasks.length + 1) other name := by
    rintro name task ⟨marks, cycle⟩ _ rfl
    cases cycle with
    | some cycle => rfl
    | none =>
      rw [exploreWithin, exploreWithin]
      split
      next => rfl
      next fresh =>
        exact visit_add known more _ [] marks name nodup_nil (nil_subset _) nofun
          (by simp) (by simpa using fresh) task
  exact congrArg Prod.snd (foldl_rel (r := Eq) rfl each)

/-- The search finds no cycle exactly where the dependencies of a run have none; what it reports is
one; and its visits go no deeper than there are tasks, which is stated by their fuel: more of it than
that changes nothing. -/
theorem findCycle_spec (run : Run) (distinct : run.names.Nodup)
    (known : ∀ entry ∈ run.tasks, ∀ producer ∈ entry.producers, producer ∈ run.names) :
    (run.findCycle = none ↔ run.Acyclic) ∧
      (∀ cycle, run.findCycle = some cycle → run.IsCycle cycle) ∧
      ∀ fuel, run.tasks.length < fuel → run.findCycleWithin fuel = run.findCycle := by
  refine ⟨⟨acyclic_of_findCycle distinct known, fun acyclic => ?_⟩,
    fun cycle found => findCycle_isCycle found, fun fuel enough => findCycleWithin_of_le known enough⟩
  by_contra reported
  obtain ⟨cycle, found⟩ := Option.ne_none_iff_exists'.mp reported
  obtain ⟨name, leads⟩ := (findCycle_isCycle found).leads
  exact acyclic name leads

def waiting : Run :=
  ⟨[{ name := "a" }, { name := "b", dependsOn := ["a"], inputs := [("in", "c/report")] },
    { name := "c", dependsOn := ["b"] }]⟩

theorem waiting_findCycle : waiting.findCycle = some ["b", "c", "b"] ∧ waiting.IsCycle ["b", "c", "b"] := by
  have found : waiting.findCycle = some ["b", "c", "b"] := by decide
  exact ⟨found, (findCycle_spec waiting (by decide) (by decide)).2.1 _ found⟩

end OpenUltraSast.Plane.Run
