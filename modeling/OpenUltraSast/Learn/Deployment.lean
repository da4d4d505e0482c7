import OpenUltraSast.Learn.Groups
import OpenUltraSast.Learn.Retrieve

/-!
# The boundary of a deployed scan

A deployed scan excludes the group that bears the name of its repository.
-/

namespace OpenUltraSast.Learn.Labels

open Examples Folds Retrieve UnionFind List

variable {V F : Type} [Floats F]

def deploymentFold (lower : String → String) (repository : String) (groups : List String) :
    Fold × Option String :=
  let name := nameOf lower repository
  let fold : Fold :=
    { kind := "deployment", name := "deployment", evalGroups := [], phase := "deployment" }
  if name ≠ "" ∧ name ∈ groups then
    ({ fold with evalGroups := [name] }, some "repository is in the corpus: its own cases excluded")
  else (fold, none)

theorem mem_deploymentFold {lower : String → String} {repository group : String}
    {groups : List String} :
    group ∈ (deploymentFold lower repository groups).1.evalGroups ↔
      nameOf lower repository ≠ "" ∧ nameOf lower repository ∈ groups ∧
        group = nameOf lower repository := by
  rw [deploymentFold]
  split
  next known => simp [known]
  next unknown => simpa using fun some_ listed => absurd ⟨some_, listed⟩ unknown

theorem ineligible_deployment {lower : String → String} {repository : String}
    {groups : List String} {e : Example} {target : Target V} {cos : Option F} :
    ineligible e target (deploymentFold lower repository groups).1 cos = none ↔
      ¬ (e.group ≠ "" ∧ e.group = target.group) ∧
        e.group ∉ (deploymentFold lower repository groups).1.evalGroups := by
  have rest : ∀ fold : Fold, fold.heldSource = none → fold.heldFramework = none →
      fold.phase = "deployment" → (ineligible e target fold cos = none ↔
        ¬ (e.group ≠ "" ∧ e.group = target.group) ∧ e.group ∉ fold.evalGroups) := by
    intro fold source framework phase
    rw [ineligible]
    split
    next own => exact iff_of_false nofun fun rest => rest.1 own
    next =>
      split
      next inside => simp [inside]
      next outside => simp [*]
  apply rest <;> rw [deploymentFold] <;> split <;> rfl

structure Memory (labels : List Label) where
  examples : List (Label × Example)
  known : ∀ entry ∈ examples, entry.1 ∈ labels
  grouped : ∀ entry ∈ examples, entry.2.group = entry.1.group

namespace Memory
variable {labels : List Label} (memory : Memory labels) (lower : String → String)
  (repository : String)

def groups : List String := memory.examples.map (·.2.group)

def own : List (Label × Example) :=
  memory.examples.filter fun entry => nameOf lower entry.1.repo = nameOf lower repository

/-- Under the boundary of a deployed scan of the repository, no example of a group that an example
of the repository has is eligible. -/
def HidesOwn (F : Type) [Floats F] : Prop :=
  ∀ entry ∈ memory.own lower repository, ∀ other ∈ memory.examples,
    other.2.group = entry.2.group → ∀ (V : Type) (target : Target V) (cos : Option F),
      ineligible other.2 target (deploymentFold lower repository memory.groups).1 cos ≠ none

/-- The repository has a name, which is the least of those that it is joined with. Where that is the
empty one, the labels of the repository keep the groups of their readers, which are to be its
name. -/
def BearsName (aliases : List (String × String)) (additions : List Addition) : Prop :=
  ∀ entry ∈ memory.own lower repository, nameOf lower repository ≠ "" ∧
    (Joined lower aliases additions (nameOf lower repository) "" →
      entry.1.group = nameOf lower repository) ∧
    (¬ Joined lower aliases additions (nameOf lower repository) "" →
      IsLeast {x | Joined lower aliases additions (nameOf lower repository) x}
        (nameOf lower repository))

variable {memory lower repository}

/-- Deployment hides a repository's own examples exactly where they have its name as their group. -/
theorem hidesOwn_iff : memory.HidesOwn lower repository F ↔
    ∀ entry ∈ memory.own lower repository,
      nameOf lower repository ≠ "" ∧ entry.2.group = nameOf lower repository := by
  constructor
  · intro hides entry own
    have member := mem_of_mem_filter own
    -- A target of the repository's own name has no other group excluded.
    have hidden := hides entry own entry member rfl Unit
      ⟨nameOf lower repository, entry.2.family, entry.2.profile, [], [], none⟩ none
    rw [ne_eq, ineligible_deployment, mem_deploymentFold] at hidden
    by_contra other
    apply hidden
    constructor
    · rintro ⟨some_, named⟩
      have some_ : nameOf lower repository ≠ "" := fun none_ => some_ (named.trans none_)
      exact other ⟨some_, named⟩
    · rintro ⟨some_, -, named⟩
      exact other ⟨some_, named⟩
  · intro bears entry own other member same V target cos eligible
    obtain ⟨some_, named⟩ := bears entry own
    have listed : nameOf lower repository ∈ memory.groups :=
      mem_map.mpr ⟨entry, mem_of_mem_filter own, named⟩
    rw [ineligible_deployment, mem_deploymentFold] at eligible
    exact eligible.2 ⟨some_, listed, same.trans named⟩

theorem bearsName_iff {aliases : List (String × String)} {additions : List Addition}
    {read : List Label} {n : Naming String} (classes : n.classes = Joined lower aliases additions)
    {memory : Memory (read.map (regrouped lower n))} :
    memory.BearsName lower repository aliases additions ↔
      ∀ entry ∈ memory.own lower repository,
        nameOf lower repository ≠ "" ∧ entry.2.group = nameOf lower repository := by
  have group : ∀ entry ∈ memory.own lower repository,
      ¬ Joined lower aliases additions (nameOf lower repository) "" →
      entry.1.group = n.rep (nameOf lower repository) := by
    intro entry own named
    obtain ⟨member, stems⟩ := mem_filter.mp own
    rw [decide_eq_true_eq] at stems
    obtain ⟨label, -, is⟩ := mem_map.mp (memory.known entry member)
    have repo : nameOf lower label.repo = nameOf lower repository := by rw [← stems, ← is]; rfl
    have some_ : n.rep (nameOf lower label.repo) ≠ "" :=
      (named_iff classes).mp (by rw [Named, repo]; exact named)
    rw [← is, ← repo]
    simp only [regrouped, if_neg some_]
  apply forall₂_congr
  intro entry own
  rw [memory.grouped entry (mem_of_mem_filter own), isLeast_iff classes]
  by_cases named : Joined lower aliases additions (nameOf lower repository) ""
  · simp [named]
  · simp [named, group entry own named]

end Memory

/-- For any sources and any memory of their labels, a deployed scan never sees its own cases if and
only if the repository's name is the one that its group bears. -/
theorem deployment_hides_iff (lower : String → String) (advisory : String → List String)
    (aliases : List (String × String)) (assumedBenign : Bool) (sources : List Source)
    (repository : String) (F : Type) [Floats F] :
    ∃ labels, run lower advisory aliases assumedBenign sources = some labels ∧
      ∀ memory : Memory labels, memory.HidesOwn lower repository F ↔
        memory.BearsName lower repository aliases
          (additionsOf lower advisory assumedBenign sources) := by
  obtain ⟨n, classes, ran⟩ := run_eq lower advisory aliases assumedBenign sources
  refine ⟨_, ran, fun memory => ?_⟩
  rw [Memory.hidesOwn_iff, Memory.bearsName_iff classes]

def forkedCases : List Source :=
  [.population "v2" [⟨"a", "https://github.com/acme/shop", ["CVE-2024-0001"], "aaaaaaaaaaaa", []⟩,
    ⟨"b", "https://github.com/zeta/shop", ["CVE-2024-0001"], "bbbbbbbbbbbb", [siteLabel]⟩]]

def siteExample : Example where
  id := "example"
  group := "acme/shop"
  source := "v2"
  frameworks := []
  family := "sqli"
  label := 1
  language := "python"
  profile := .static
  unit := "pin"
  x := []
  instruments := []
  roles := []
  excerptSha := ""
  license := ""

/-- The group of the fork bears the name of its upstream, so a deployed scan of the fork may see the
fork's case. -/
theorem deployment_not_hidden :
    ∃ labels, run asciiLower ([·]) [] true forkedCases = some labels ∧
      ∃ memory : Memory labels,
        ¬ memory.HidesOwn asciiLower "https://github.com/zeta/shop" ℚ := by
  have ran : (run asciiLower ([·]) [] true forkedCases).map
      (·.map fun label => (label.repo, label.group))
      = some [("https://github.com/zeta/shop", "acme/shop")] := by decide +kernel
  obtain ⟨labels, found, texts⟩ := Option.map_eq_some_iff.mp ran
  obtain ⟨label, rest, rfl, text, -⟩ := map_eq_cons_iff.mp texts
  rw [Prod.mk.injEq] at text
  have known : ∀ entry ∈ [(label, siteExample)], entry.1 ∈ label :: rest := by
    rintro entry member
    cases mem_singleton.mp member
    exact mem_cons_self
  have grouped : ∀ entry ∈ [(label, siteExample)], entry.2.group = entry.1.group := by
    rintro entry member
    cases mem_singleton.mp member
    exact text.2.symm
  refine ⟨_, found, ⟨[(label, siteExample)], known, grouped⟩, fun hides => ?_⟩
  have own : (label, siteExample) ∈ Memory.own ⟨[(label, siteExample)], known, grouped⟩ asciiLower
      "https://github.com/zeta/shop" :=
    mem_filter.mpr ⟨mem_cons_self, by simp only [text.1, decide_true]⟩
  have eligible : ineligible (V := Unit) (F := ℚ) siteExample ⟨"zeta/shop", "sqli", .static, [], [], none⟩
      (deploymentFold asciiLower "https://github.com/zeta/shop" ["acme/shop"]).1 none = none := by
    decide +kernel
  exact hides _ own _ mem_cons_self rfl Unit _ none eligible

end OpenUltraSast.Learn.Labels
