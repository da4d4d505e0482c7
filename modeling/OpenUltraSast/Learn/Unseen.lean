import OpenUltraSast.Learn.Folds

/-!
# What an evaluated program has seen

A program is compiled from the compile split of a memory, and evaluated over the groups outside the
compile split of the memory at hand.
-/

namespace OpenUltraSast.Learn.Folds

open Collections Examples List

structure CompileSpec (F : Type) where
  seed : Int
  compileFraction : F
  bootFraction : F

/-- The folds of a manifest: `seed`, `compile_fraction` and `k`. -/
structure FoldPlan (F : Type) where
  seed : Int
  compileFraction : F
  k : Nat

structure Unit where
  unit : String
  group : String
  family : String
  label : Int
  fold : String := ""
  pair : String := ""

variable {F : Type} [Fraction F]

section Order
variable (sha256 : String → String) (keyText : String × List Int → String)

def CompileSpec.split (spec : CompileSpec F) (memory : List Example) : CompileSplit :=
  compileSplit sha256 memory spec.compileFraction spec.bootFraction spec.seed

/-- The examples that `compile_program` compiles from: those of the profile in the compile split. -/
def compileMemory (spec : CompileSpec F) (profile : Profile) (memory : List Example) :
    List Example :=
  let pool := memory.filter (·.profile = profile)
  pool.filter (·.group ∈ (spec.split sha256 pool).groups)

/-- The examples that the evaluate command decides, with their folds; `readable` has an excerpt. -/
def evaluated (spec : CompileSpec F) (readable : Example → Bool) (memory : List Example) :
    List (Example × Fold) :=
  let split := spec.split sha256 memory
  let folds := outerFolds sha256 keyText memory 5 spec.seed split.groups
  (targets folds memory (unevaluableFamilies memory)).filter fun pair => readable pair.1

/-- `program_folds`, without its digest. -/
def programFolds (plan : FoldPlan F) (boot : F) (memory : List Example) : List Fold :=
  let split := compileSplit sha256 memory plan.compileFraction boot plan.seed
  outerFolds sha256 keyText memory plan.k plan.seed split.groups

/-- `{e.id: e for e in memory}`. -/
def indexed (memory : List Example) (id : String) : Option Example :=
  memory.reverse.find? (·.id = id)

def Unit.isUnder (unit : Unit) (folds : List Fold) (memory : List Example) : Bool :=
  ((folds.find? (·.name = unit.fold)).any fun fold => unit.group ∈ fold.evalGroups) &&
    (indexed memory unit.unit).isSome

/-- The examples that a program decides for an experiment, those of the units of its families; an
experiment with a unit that is under no fold of the memory is refused. -/
def decidedUnits (plan : FoldPlan F) (boot : F) (units : List Unit) (families : List String)
    (memory : List Example) : Option (List Example) :=
  let folds := programFolds sha256 keyText plan boot memory
  if units.all (·.isUnder folds memory) then
    some ((units.filter (·.family ∈ families)).filterMap fun unit => indexed memory unit.unit)
  else none

end Order

def Shaped (compiled : List Example) (e : Example) : Prop := ∃ source ∈ compiled, source.id = e.id

def Untouched (compiled memory candidates : List Example) : Prop :=
  ∀ e ∈ candidates, ∀ other ∈ memory, other.group = e.group → ¬ Shaped compiled other

section Order
variable {sha256 : String → String} {keyText : String × List Int → String}

variable {readable : Example → Bool} {spec : CompileSpec F}

theorem mem_evaluated {memory : List Example}
    {e : Example} :
    e ∈ (evaluated sha256 keyText spec readable memory).map (·.1) ↔
      e ∈ memory ∧ e.group ∉ (spec.split sha256 memory).groups ∧
        e.family ∉ unevaluableFamilies memory ∧ readable e = true := by
  have decided : e ∈ (evaluated sha256 keyText spec readable memory).map (·.1) ↔
      (∃ fold, (e, fold) ∈ targets (outerFolds sha256 keyText memory 5 spec.seed
        (spec.split sha256 memory).groups) memory (unevaluableFamilies memory)) ∧
      readable e = true := by
    simp [evaluated]
  rw [decided, mem_targets]
  have dealt_ : (∃ fold ∈ outerFolds sha256 keyText memory 5 spec.seed
      (spec.split sha256 memory).groups, e.group ∈ fold.evalGroups) ↔
      0 < 5 ∧ e.group ∈ groupsOf memory ∧ e.group ∉ (spec.split sha256 memory).groups :=
    mem_outerFolds
  constructor
  · rintro ⟨⟨member, kept, fold, usable, -, inside⟩, read⟩
    obtain ⟨-, -, outside⟩ := dealt_.mp ⟨fold, usable, inside⟩
    exact ⟨member, outside, kept, read⟩
  · rintro ⟨member, outside, kept, read⟩
    obtain ⟨fold, usable, inside⟩ :=
      dealt_.mpr ⟨by omega, mem_groupsOf.mpr ⟨e, member, rfl⟩, outside⟩
    exact ⟨⟨member, kept, fold, usable, status_outerFolds fold usable, inside⟩, read⟩

variable {compiled memory : List Example}

theorem untouched_evaluated_iff :
    Untouched compiled memory ((evaluated sha256 keyText spec readable memory).map (·.1)) ↔
      ∀ x ∈ memory, Shaped compiled x → x.group ∈ (spec.split sha256 memory).groups ∨
        ∀ e ∈ memory, e.group = x.group →
          e.family ∈ unevaluableFamilies memory ∨ readable e = false := by
  constructor
  · intro untouched x member shaped
    by_contra open_
    push Not at open_
    obtain ⟨outside, e, inside, same, evaluable, read⟩ := open_
    have decided : e ∈ (evaluated sha256 keyText spec readable memory).map (·.1) :=
      mem_evaluated.mpr ⟨inside, by rw [same]; exact outside, evaluable, by simpa using read⟩
    exact untouched e decided x member same.symm shaped
  · intro covered e decided other member same shaped
    obtain ⟨inside, outside, evaluable, read⟩ := mem_evaluated.mp decided
    rcases covered other member shaped with taken | unread
    · exact outside (same ▸ taken)
    · rcases unread e inside same.symm with skipped | missing
      · exact evaluable skipped
      · rw [read] at missing
        cases missing

/-- No decided candidate has the group of a shaped example exactly where no unit has it, or nothing
is decided. -/
theorem untouched_units_iff {plan : FoldPlan F} {boot : F} {units : List Unit}
    {families : List String} :
    (∀ candidates, decidedUnits sha256 keyText plan boot units families memory = some candidates →
      Untouched compiled memory candidates) ↔
    (∃ unit ∈ units, unit.isUnder (programFolds sha256 keyText plan boot memory) memory = false) ∨
      ∀ x ∈ memory, Shaped compiled x → ∀ unit ∈ units, unit.family ∈ families →
        ∀ e, indexed memory unit.unit = some e → e.group ≠ x.group := by
  unfold decidedUnits
  simp only
  by_cases all : units.all (·.isUnder (programFolds sha256 keyText plan boot memory) memory) = true
  · have passes : ¬ ∃ unit ∈ units,
        unit.isUnder (programFolds sha256 keyText plan boot memory) memory = false := by
      rintro ⟨unit, member, fails⟩
      rw [all_eq_true.mp all unit member] at fails
      cases fails
    simp only [if_pos all, Option.some.injEq, forall_eq', passes, false_or, Untouched]
    constructor
    · intro untouched x member shaped unit among family e found same
      have decided : e ∈ (units.filter (·.family ∈ families)).filterMap
          fun unit => indexed memory unit.unit :=
        mem_filterMap.mpr ⟨unit, mem_filter.mpr ⟨among, decide_eq_true family⟩, found⟩
      exact untouched e decided x member same.symm shaped
    · intro apart e decided x member same shaped
      obtain ⟨unit, among, found⟩ := mem_filterMap.mp decided
      obtain ⟨inside, family⟩ := mem_filter.mp among
      exact apart x member shaped unit inside (of_decide_eq_true family) e found same.symm
  · have refused : ∃ unit ∈ units,
        unit.isUnder (programFolds sha256 keyText plan boot memory) memory = false := by
      simpa using all
    simp [all, refused]

/-- The evaluate command decides no repository that shaped the program exactly if each example that
did, as far as it is in memory, is there in a group of the compile split or in one of which nothing
is decided; an experiment, exactly if it is refused or no example that shaped the program is in the
group of one of its units' examples. -/
theorem untouched_iff (spec : CompileSpec F) (profile : Profile) (readable : Example → Bool)
    (first memory : List Example) :
    let compiled := compileMemory sha256 spec profile first
    (Untouched compiled memory ((evaluated sha256 keyText spec readable memory).map (·.1)) ↔
      ∀ x ∈ memory, Shaped compiled x → x.group ∈ (spec.split sha256 memory).groups ∨
        ∀ e ∈ memory, e.group = x.group →
          e.family ∈ unevaluableFamilies memory ∨ readable e = false) ∧
    ∀ (plan : FoldPlan F) (boot : F) (units : List Unit) (families : List String),
      (∀ candidates, decidedUnits sha256 keyText plan boot units families memory = some candidates →
        Untouched compiled memory candidates) ↔
      (∃ unit ∈ units, unit.isUnder (programFolds sha256 keyText plan boot memory) memory = false) ∨
        ∀ x ∈ memory, Shaped compiled x → ∀ unit ∈ units, unit.family ∈ families →
          ∀ e, indexed memory unit.unit = some e → e.group ≠ x.group :=
  ⟨untouched_evaluated_iff, fun _ _ _ _ => untouched_units_iff⟩

end Order

def exampleOf (group : String) (label : Int) : Example where
  id := group ++ ":" ++ toString label
  group := group
  source := "pairs"
  frameworks := []
  family := "authorization"
  label := label
  language := "php"
  profile := .static
  unit := "pin"
  x := []
  instruments := []
  roles := []
  excerptSha := "sha"
  license := ""

def bothLabels (groups : List String) : List Example :=
  groups.flatMap fun group => [exampleOf group 1, exampleOf group 0]

def tenGroups : List String := ["b", "c", "d", "e", "f", "g", "h", "i", "j", "k"]

def quarter : CompileSpec ℚ := ⟨0, 1 / 4, 3 / 5⟩

/-- The one key of a stratum of these examples, as Python writes it. -/
def bothLabelsKey (_ : String × List Int) : String := "('authorization', (0, 1))"

/-- The digests that order the compile split. -/
def compileDigests : List (String × String) :=
  [("a", "0a0b3d0477c8cab5b169d85f613dfdeada85bed3e3c65a07805e25173c9ea3d7"),
    ("b", "710cae0517848aed3bbe27077e46a1e891fd8ada5337e0c12aeec658cc0da82e"),
    ("c", "d9b14296a7a0efeb826531f1cb5d84281908c864cb67c764ffdd3257da3043c8"),
    ("d", "9dc2c1dad4243e583523a4325ec9cbb7a6ce65167b584253cd6d9bac92e1b352"),
    ("e", "c32243bf9033dc23346efa07452d558b2b956161da54012243fd9cdd615bf691"),
    ("f", "f8eff8986e7338ab3417afe688d5006860c2b1bab4fb3b939de7015f5ec7d566"),
    ("g", "b907d5707d06f44dd8ca02520701ba137593f71bddcda427a2f0744ffcbc8d05"),
    ("h", "6a1ecf9800b86a02ad19a7a8acaf66d51049814348d310f97fced4ff669ca4e1"),
    ("i", "df30c32da7612be1697ac4cf71f2647edfbacbd4be4696eb2cbc98560977f53c"),
    ("j", "0e3d1367b6b12469f92c028778dced8554ff3e8450065f8c3d30ffd9773773b3"),
    ("k", "f8820374bebee47062824c1feebb3e15eac2daecb432c7eb77be271840df909c")]

/-- The digests that deal the other groups of the grown memory to the folds. -/
def outerDigests : List (String × String) :=
  [("b", "76ab53a02aac2854c9339c5e5484c0ffcde55d203ebc618d81495f6ba7f51cec"),
    ("c", "6b0bd8db7bd76ef7c17c5563089ce9795a5819c1919bd1ea8f1649f27db26256"),
    ("d", "355a37953830c11d317e294f7935c124c8948d3371aef09dcc21f3dc4d3a2a28"),
    ("e", "9f2bb29251c6d6c3ae477b5490ca6f016456915567481e15f6ed67a4ef7a72e3"),
    ("f", "043994d95cd970d09d69c1e3f7960f4867c90a06313530411003048e7429a3c4"),
    ("g", "1a72512cef8abba657210de47e3d4247dc4397a7821fd0b44544f2fe2114a924"),
    ("i", "02c4dea156ed63e7b18729a6b17a128207009af813bf3f6769f0c629892cd502"),
    ("k", "956614438cee45d883b8049830a6618025421b5a744688e31ba30095179c92d5")]

def seedDigest (text : String) : String :=
  ((compileDigests.map fun entry => ("0\x00compile:authorization\x00" ++ entry.1, entry.2)) ++
    outerDigests.map fun entry => ("0\x00outer:('authorization', (0, 1))\x00" ++ entry.1, entry.2)
    ).lookup text |>.getD ""

/-- Another group moves one from the compile split to the folds. -/
theorem grown_memory_touched :
    ¬ Untouched (compileMemory seedDigest quarter .static (bothLabels tenGroups))
      (bothLabels ("a" :: tenGroups))
      ((evaluated seedDigest bothLabelsKey quarter (fun _ => true)
        (bothLabels ("a" :: tenGroups))).map (·.1)) := by
  intro untouched
  have here {groups : List String} (member : "b" ∈ groups) : exampleOf "b" 1 ∈ bothLabels groups :=
    mem_flatMap.mpr ⟨"b", member, mem_cons_self⟩
  have decided : exampleOf "b" 1 ∈ (evaluated seedDigest bothLabelsKey quarter (fun _ => true)
      (bothLabels ("a" :: tenGroups))).map (·.1) := by
    refine mem_evaluated.mpr ⟨here (by decide), ?_, ?_, rfl⟩
    · decide +kernel
    · decide +kernel
  apply untouched _ decided (exampleOf "b" 1) (here (by decide)) rfl
  refine ⟨exampleOf "b" 1, mem_filter.mpr ⟨?_, ?_⟩, rfl⟩
  · exact mem_filter.mpr ⟨here (by decide), rfl⟩
  · decide +kernel

end OpenUltraSast.Learn.Folds
