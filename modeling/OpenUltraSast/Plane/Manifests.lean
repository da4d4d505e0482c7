import Mathlib.Data.List.Nodup
import OpenUltraSast.Library.Text

/-!
# Run manifests

The tasks of a `Run` and the checks of its graph.
-/

namespace OpenUltraSast.Plane

open List

structure RunTask where
  name : String
  dependsOn : List String := []
  inputs : List (String × String) := []
  serialize : Option String := none
deriving DecidableEq

structure Run where
  tasks : List RunTask

def RunTask.producers (entry : RunTask) : List String :=
  (entry.dependsOn ++ entry.inputs.map fun input => Text.firstPart '/' input.2).eraseDups

namespace Run

variable (run : Run)

def names : List String := run.tasks.map (·.name)

def producersOf (name : String) : List String :=
  ((run.tasks.find? (·.name = name)).map RunTask.producers).getD []

inductive Mark where
  | onPath
  | finished
deriving DecidableEq

abbrev Marks := String → Option Mark

/-- The body of the loop over the producers: the marks, and the cycle if one is found. -/
def descend (visitNext : Marks → String → Marks × Option (List String)) (path : List String) :
    Marks × Option (List String) → String → Marks × Option (List String)
  | (marks, some cycle), _ => (marks, some cycle)
  | (marks, none), dep =>
    match marks dep with
    | some .onPath => (marks, some (path.dropWhile (· ≠ dep) ++ [dep]))
    | some .finished => (marks, none)
    | none => visitNext marks dep

/-- `visit` of `_find_cycle`. A visit goes down once for each task at most, which the fuel allows
for. -/
def visit : Nat → Marks → List String → String → Marks × Option (List String)
  | 0, marks, _, _ => (marks, none)
  | fuel + 1, marks, path, name =>
    let here := path ++ [name]
    let marked := fun other => if other = name then some .onPath else marks other
    match (run.producersOf name).foldl
      (descend (fun marks dep => visit fuel marks here dep) here) (marked, none) with
    | (after, some cycle) => (after, some cycle)
    | (after, none) => (fun other => if other = name then some .finished else after other, none)

/-- The body of the loop of `_find_cycle`. -/
def explore : Marks × Option (List String) → String → Marks × Option (List String)
  | (marks, some cycle), _ => (marks, some cycle)
  | (marks, none), name =>
    if (marks name).isSome then (marks, none) else run.visit (run.tasks.length + 1) marks [] name

def findCycle : Option (List String) := (run.names.foldl run.explore (fun _ => none, none)).2

structure Refusal where
  path : String
  rule : String
deriving DecidableEq

def quoted (text : String) : String := "\"" ++ text ++ "\""

/-- The first loop of `_check_run_graph`: no two tasks share a name. -/
def definedTwice : Option Refusal :=
  run.tasks.zipIdx.findSome? fun (entry, index) =>
    if entry.name ∈ (run.tasks.take index).map (·.name) then
      some ⟨s!"spec.tasks[{index}].name", quoted entry.name ++ " is defined twice"⟩
    else none

def unknownTask (index : Nat) (field ref name : String) : Option Refusal :=
  if name ∈ run.names then none
  else some ⟨s!"spec.tasks[{index}].{field}", quoted ref ++ " names no task in the Run"⟩

/-- The second loop: what a task depends on or takes as an input comes from a task of the run. -/
def unknownProducer : Option Refusal :=
  run.tasks.zipIdx.findSome? fun (entry, index) =>
    (entry.dependsOn.zipIdx.findSome? fun (dep, depIndex) =>
      run.unknownTask index s!"dependsOn[{depIndex}]" dep dep).or
    (entry.inputs.findSome? fun (input, ref) =>
      run.unknownTask index s!"inputs.{input}" ref (Text.firstPart '/' ref))

def checkRunGraph : Option Refusal :=
  (run.definedTwice.or run.unknownProducer).or <| run.findCycle.map fun cycle =>
    let index := run.names.idxOf (cycle.headD "")
    ⟨s!"spec.tasks[{index}].dependsOn", "closes a cycle: " ++ " -> ".intercalate cycle⟩

/-- What the manifest parser lets through, as far as the scheduler reads it. -/
structure Accepted : Prop where
  tasks : run.tasks ≠ []
  named : ∀ entry ∈ run.tasks, entry.name ≠ ""
  labelled : ∀ entry ∈ run.tasks, entry.serialize ≠ some ""
  graph : run.checkRunGraph = none

variable {run}

private theorem nodup_of_definedTwice (once : run.definedTwice = none) : run.names.Nodup := by
  rw [definedTwice, List.findSome?_eq_none_iff] at once
  rw [names, nodup_iff_pairwise_ne, pairwise_iff_getElem]
  intro first second firstInside secondInside before same
  rw [length_map] at firstInside secondInside
  rw [getElem_map, getElem_map] at same
  have member : (run.tasks[second], second) ∈ run.tasks.zipIdx :=
    mk_mem_zipIdx_iff_getElem?.mpr (List.getElem?_eq_getElem secondInside)
  have earlier : run.tasks[first].name ∈ (run.tasks.take second).map (·.name) := by
    apply mem_map_of_mem
    rw [mem_take_iff_getElem]
    exact ⟨first, Nat.lt_min.mpr ⟨before, firstInside⟩, rfl⟩
  have refused := once _ member
  simp only [same ▸ earlier, if_true] at refused
  cases refused

variable {entry : RunTask} {producer : String}

private theorem known_of_unknownProducer (known : run.unknownProducer = none)
    (task : entry ∈ run.tasks) (produces : producer ∈ entry.producers) :
    producer ∈ run.names := by
  rw [unknownProducer, List.findSome?_eq_none_iff] at known
  obtain ⟨index, inside, rfl⟩ := mem_iff_getElem.mp task
  have refused := known (run.tasks[index], index)
    (mk_mem_zipIdx_iff_getElem?.mpr (List.getElem?_eq_getElem inside))
  dsimp only at refused
  rw [Option.or_eq_none_iff, List.findSome?_eq_none_iff, List.findSome?_eq_none_iff] at refused
  rw [RunTask.producers, mem_eraseDups, mem_append] at produces
  rcases produces with dep | input
  · obtain ⟨depIndex, depInside, rfl⟩ := mem_iff_getElem.mp dep
    have named := refused.1 _
      (mk_mem_zipIdx_iff_getElem?.mpr (List.getElem?_eq_getElem depInside))
    simpa [unknownTask] using named
  · obtain ⟨⟨name, ref⟩, member, rfl⟩ := mem_map.mp input
    simpa [unknownTask] using refused.2 _ member

theorem checkRunGraph_eq_none (passed : run.checkRunGraph = none) :
    run.definedTwice = none ∧ run.unknownProducer = none ∧ run.findCycle = none := by
  simpa [checkRunGraph, and_assoc] using passed

theorem Accepted.distinct (accepted : run.Accepted) : run.names.Nodup :=
  nodup_of_definedTwice (checkRunGraph_eq_none accepted.graph).1

theorem Accepted.known (accepted : run.Accepted) (task : entry ∈ run.tasks)
    (produces : producer ∈ entry.producers) : producer ∈ run.names :=
  known_of_unknownProducer (checkRunGraph_eq_none accepted.graph).2.1 task produces

theorem Accepted.acyclic (accepted : run.Accepted) : run.findCycle = none :=
  (checkRunGraph_eq_none accepted.graph).2.2

theorem producersOf_name (distinct : run.names.Nodup) (task : entry ∈ run.tasks) :
    run.producersOf entry.name = entry.producers := by
  have found : run.tasks.find? (·.name = entry.name) = some entry := by
    cases result : run.tasks.find? (·.name = entry.name) with
    | none =>
      have other := List.find?_eq_none.mp result entry task
      simp at other
    | some first =>
      have same : first.name = entry.name := by simpa using List.find?_some result
      have member := mem_of_find?_eq_some result
      rw [inj_on_of_nodup_map distinct member task same]
  rw [producersOf, found]
  rfl

end Run

end OpenUltraSast.Plane
