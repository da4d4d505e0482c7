import OpenUltraSast.Learn.ExperimentSteps

/-!
# A resumed experiment

Runs without early stopping, each cut somewhere and the last one done, leave the outcomes of one
run that is not cut, whatever the budgets: a decision is what its responses make it, and a response
is what the store had for its key, or else what the model says.
-/

namespace OpenUltraSast.Learn.Experiments

open Collections Programs Floats List

variable {M C F : Type} [DecidableEq M]

def follows (model : Call M → Option String) : Clients M :=
  fun _ call reply => ∀ content usage, reply = .responded content usage → content = model call

def Outcome.costless (o : Outcome F) : Outcome F := { o with usd := none }

section Runs
variable [Floats F] (round6 : F → F) (parse : String → List Nat → Option (Answer F)) (e : Experiment M C F)
  (random : Random) (resamples : Nat) (fixed3 : F → String)

/-- The stores that runs without early stopping come to, each of them cut somewhere. -/
inductive Interrupted (clients : Clients M) (first : World M F) : World M F → Prop where
  | start : Interrupted clients first first
  | run {world next} (before : Interrupted clients first world)
      (cut : Reaches (answers clients) (runProgram round6 parse e random resamples fixed3 false)
        world next) : Interrupted clients first next

end Runs

section Stored
variable {M C F : Type} {e : Experiment M C F} {random : Random} {world : World M F}

def World.ids (world : World M F) : List OutcomeId := world.rows.map (·.id)

variable {right : OutcomeId → Outcome F → Prop}

theorem ids_eq (rows : Rows right world.outcomes) :
    world.ids = Dicts.keys world.outcomes := by
  simp only [World.ids, World.rows, map_map, Dicts.keys]
  exact map_congr_left fun row member => rows.filed row member

private theorem idsOfAll_walk {id : OutcomeId} : idsOfAll e (e.walk random).zipIdx id ↔
    ∃ unit ∈ e.units, idsOf e unit id := by
  constructor
  · rintro ⟨place, member, of⟩
    have walked := fst_mem_of_mem_zipIdx member
    exact ⟨place.1, (mem_insertionSort _).mp walked, of⟩
  · rintro ⟨unit, member, of⟩
    obtain ⟨i, at_⟩ := mem_iff_getElem?.mp
      ((mem_insertionSort _).mpr member : unit ∈ e.walk random)
    exact ⟨(unit, i), mk_mem_zipIdx_iff_getElem?.mpr at_, of⟩

theorem nodup_costless (rows : Rows right world.outcomes) :
    (world.rows.map (·.costless)).Nodup := by
  apply List.Nodup.of_map Outcome.id
  rw [map_map]
  have same : world.rows.map (Outcome.id ∘ Outcome.costless) = world.ids := rfl
  rw [same, ids_eq rows]
  exact rows.distinct

end Stored

section Model
variable (first : List (Key M × Entry)) (model : Call M → Option String)

def expected (key : Key M) : Option String :=
  match first.lookup key with
  | some entry => entry.content
  | none => model key.call

structure Faithful (responses : List (Key M × Entry)) : Prop where
  content : ∀ key entry, responses.lookup key = some entry → entry.content = expected first model key
  kept : ∀ key, (first.lookup key).isSome → (responses.lookup key).isSome

def heardOf (terms : String → Terms F) (name : String) (key : Key M) : Option String :=
  if (terms name).store then expected first model key else model key.call

variable {first model}

private theorem faithful_refl : Faithful first model first where
  content key entry found := by simp [expected, found]
  kept _ is := is

private theorem honest_follows (terms : String → Terms F) :
    Honest (follows model) terms (Faithful first model)
      (fun name key content => content = heardOf first model terms name key) where
  replays faithful stored found := by
    rw [heardOf, if_pos stored]
    exact faithful.content _ _ found
  replies {responses name key content usage} faithful missing may := by
    have said : content = model key.call := may content usage rfl
    -- A response that the store began with would have been found.
    have new : (terms name).store = true → expected first model key = model key.call := by
      intro stored
      have absent : ¬ (first.lookup key).isSome := fun is => by
        simpa [missing stored] using faithful.kept key is
      rw [Option.not_isSome_iff_eq_none] at absent
      simp [expected, absent]
    refine ⟨?_, fun stored => ⟨?_, ?_⟩⟩
    · unfold heardOf
      split
      next stored => rw [said, new stored]
      next => exact said
    · intro other entry found
      rw [Dicts.lookup_set] at found
      split at found
      next same =>
        cases found
        rw [same, new stored, said]
      next => exact faithful.content _ _ found
    · intro other is
      rw [Dicts.lookup_set]
      split
      · rfl
      · exact faithful.kept _ is

end Model

section Ideal
variable [Floats F] (round6 : F → F) (parse : String → List Nat → Option (Answer F)) (e : Experiment M C F)
  (random : Random) (oracle : String → Key M → String)

/-- The row of a decision by the oracles of the callers, its cost aside, at the first place of its
unit. -/
def ownRow (id : OutcomeId) : Option (Outcome F) :=
  ((e.walk random).zipIdx.find? (·.1.unit = id.unit)).bind fun place =>
    (decideUnitWith round6 parse e (oracle id.arm) place.1 id.arm id.replicate).map fun decision =>
      outcomeOf place.1 id.arm id.replicate ((ordered e (random.coin place.2)).idxOf id.arm) decision
        none

/-- A row of a decision of the experiment that is the oracles' own, its cost aside. -/
def OwnRow (id : OutcomeId) (o : Outcome F) : Prop :=
  (∃ unit ∈ e.units, idsOf e unit id) ∧
    ownRow round6 parse e random oracle id = some o.costless

variable {round6 parse e random oracle}

omit [DecidableEq M] in
private theorem fits_ownRow {said : String → Key M → Option String → Prop}
    (fixed : ∀ name, Fixes said name (oracle name)) {past rest : List (Folds.Unit × Nat)}
    {unit : Folds.Unit × Nat} (whole : (e.walk random).zipIdx = past ++ unit :: rest)
    {id : OutcomeId} (of : idsOf e unit.1 id) (new : ¬ idsOfAll e past id) :
    Fits round6 parse e random said (OwnRow round6 parse e random oracle) unit.1 unit.2 := by
  intro arm position replicate decision usd placed below told
  have named := (mem_ordered _).mp (fst_mem_of_mem_zipIdx placed)
  have member : unit.1 ∈ e.units := by
    have walked : unit ∈ (e.walk random).zipIdx := by simp [whole]
    exact (mem_insertionSort _).mp (fst_mem_of_mem_zipIdx walked)
  refine ⟨⟨unit.1, member, rfl, named, below⟩, ?_⟩
  have absent : past.find? (·.1.unit = unit.1.unit) = none := by
    rw [List.find?_eq_none]
    intro other member same
    rw [decide_eq_true_eq] at same
    exact new ⟨other, member, of.1.trans same.symm, of.2⟩
  have found : (e.walk random).zipIdx.find? (·.1.unit = unit.1.unit) = some unit := by
    rw [whole, List.find?_append, absent]
    simp
  have at_ : (ordered e (random.coin unit.2)).idxOf arm = position := by
    obtain ⟨here, is⟩ := List.getElem?_eq_some_iff.mp (mk_mem_zipIdx_iff_getElem?.mp placed)
    rw [← is]
    exact (nodup_ordered _).idxOf_getElem position here
  simp only [ownRow, found, Option.bind_some, told _ (fixed arm), Option.map_some, at_]
  rfl

end Ideal

section Kept
variable [Floats F] {round6 : F → F} {parse : String → List Nat → Option (Answer F)}
  {e : Experiment M C F} {random : Random} {resamples : Nat} {fixed3 : F → String}
  {model : Call M → Option String} {first world : World M F}

/-- A store that runs from another store have come to: its responses are the first store's and the
model's, and its rows are the decisions that these make. -/
def OwnRows (round6 : F → F) (parse : String → List Nat → Option (Answer F))
    (e : Experiment M C F) (random : Random) (model : Call M → Option String)
    (first world : World M F) : Prop :=
  Sound (Faithful first.responses model) (Rows (OwnRow round6 parse e random
    fun name key => (heardOf first.responses model e.terms name key).getD "")) world

private theorem ownRows_fresh (fresh : first.outcomes = []) :
    OwnRows round6 parse e random model first first :=
  ⟨faithful_refl, by simp [fresh, Dicts.keys], by simp [fresh], by simp [fresh]⟩

/-- Every run, cut short or not, leaves only rows that follow from its own answers. -/
theorem safe_ownRows (own : OwnRows round6 parse e random model first world) :
    Safe (answers (follows model)) (OwnRows round6 parse e random model first)
      (fun result final => OwnRows round6 parse e random model first final ∧
        ∀ summary, result = .ok summary → summary.status = .done →
          Gains (idsOfAll e (e.walk random).zipIdx) world.outcomes final.outcomes)
      (runProgram round6 parse e random resamples fixed3 false) world := by
  refine Safe.mono ?_ (safe_run (honest_follows e.terms) own ?_)
  · rintro result final ⟨own, ran⟩
    refine ⟨own, ?_⟩
    rintro summary rfl done
    rcases ran with unfinished | ⟨found, walked, -⟩
    · rw [done] at unfinished
      cases unfinished
    · -- Without early stopping no look is taken.
      generalize (e.walk random).zipIdx = places at walked ⊢
      cases walked with
      | through _ gains => exact gains
      | passed some_ => exact absurd rfl some_
      | halted some_ => exact absurd rfl some_
  · rintro past unit rest whole ⟨id, of, -, new⟩
    exact fits_ownRow (fun name key content said => by rw [said]) whole of new

private theorem ownRows_interrupted (own : OwnRows round6 parse e random model first first)
    (history : Interrupted round6 parse e random resamples fixed3 (follows model) first world) :
    OwnRows round6 parse e random model first world := by
  induction history with
  | start => exact own
  | run _ cut ih => exact (safe_ownRows ih).reaches ih cut

theorem mem_costless_iff (own : OwnRows round6 parse e random model first world)
    (all : ∀ unit ∈ e.units, ∀ id, idsOf e unit id → id ∈ Dicts.keys world.outcomes)
    {o : Outcome F} : o ∈ world.rows.map (·.costless) ↔
      (∃ unit ∈ e.units, idsOf e unit o.id) ∧ ownRow round6 parse e random
        (fun name key => (heardOf first.responses model e.terms name key).getD "") o.id
        = some o := by
  have rows := own.2
  simp only [World.rows, map_map, mem_map, Function.comp]
  constructor
  · rintro ⟨row, member, rfl⟩
    have same : row.2.costless.id = row.1 := rows.filed row member
    rw [same]
    exact rows.right row member
  · rintro ⟨⟨unit, listed, of⟩, is⟩
    obtain ⟨row, member, same⟩ := mem_map.mp (all unit listed _ of)
    have right := (rows.right row member).2
    rw [same, is] at right
    exact ⟨row, member, (Option.some.inj right).symm⟩

theorem all_of_done {final : World M F} {summary : RunSummary F}
    (own : OwnRows round6 parse e random model first world)
    (ended : Ends (answers (follows model)) (runProgram round6 parse e random resamples fixed3 false)
      world (.ok summary) final)
    (done : summary.status = .done) :
    OwnRows round6 parse e random model first final ∧
      ∀ unit ∈ e.units, ∀ id, idsOf e unit id → id ∈ Dicts.keys final.outcomes := by
  obtain ⟨own, gains⟩ := (safe_ownRows own).ends ended
  have gains := gains summary rfl done
  exact ⟨own, fun unit listed id of => gains.all id (idsOfAll_walk.mpr ⟨unit, listed, of⟩)⟩

/-- An experiment that was interrupted any number of times, and whose last run is done, has one row
of each unit, arm and replicate, and its rows are those of one run that was not cut, their costs
aside. The order of the arms of a unit is part of a row. -/
theorem interrupted_rows {final whole : World M F} {summary summary' : RunSummary F}
    (fresh : first.outcomes = [])
    (history : Interrupted round6 parse e random resamples fixed3 (follows model) first world)
    (ended : Ends (answers (follows model)) (runProgram round6 parse e random resamples fixed3 false)
      world (.ok summary) final)
    (done : summary.status = .done)
    (uninterrupted : Ends (answers (follows model))
      (runProgram round6 parse e random resamples fixed3 false) first (.ok summary') whole)
    (done' : summary'.status = .done) :
    (∀ unit ∈ e.units, ∀ arm ∈ e.armNames, ∀ replicate < e.repeats arm,
      final.ids.count ⟨arm, unit.unit, replicate⟩ = 1) ∧
    (∀ o ∈ final.rows, ∃ unit ∈ e.units, o.unit = unit.unit ∧ o.arm ∈ e.armNames ∧
      o.replicate < e.repeats o.arm) ∧
    (final.rows.map (·.costless)).Perm (whole.rows.map (·.costless)) := by
  have start : OwnRows round6 parse e random model first first := ownRows_fresh fresh
  obtain ⟨own, all⟩ := all_of_done (ownRows_interrupted start history) ended done
  obtain ⟨own', all'⟩ := all_of_done start uninterrupted done'
  refine ⟨fun unit listed arm named replicate below => ?_, fun o member => ?_, ?_⟩
  · rw [ids_eq own.2]
    exact count_eq_one_of_mem own.2.distinct (all unit listed _ ⟨rfl, named, below⟩)
  · have costless : o.costless ∈ final.rows.map (·.costless) := mem_map_of_mem member
    exact ((mem_costless_iff own all).mp costless).1
  · -- Both are the rows that the same oracles make, each once.
    rw [perm_ext_iff_of_nodup (nodup_costless own.2) (nodup_costless own'.2)]
    intro o
    rw [mem_costless_iff own all, mem_costless_iff own' all']

end Kept

/-- An experiment of two arms over some units of one family, each in the fold `outer-0`; a prompt
is the name of the unit. -/
def twoArms (units : List Folds.Unit) (looks : List (ℚ × ℚ)) : Experiment String String ℚ where
  manifest :=
    { kind := "program", arms := [("A", {}), ("B", {})], seed := 0, primary := ⟨.flagRate, none⟩
      alpha := 0, looks, families := ["f"], foldSeed := 0 }
  registered := true
  units := units
  folds := [{ kind := "outer", name := "outer-0", evalGroups := units.map (·.group) }]
  examples := units.map fun unit =>
    { id := unit.unit, group := unit.group, source := "", frameworks := [], family := "f"
      label := unit.label, language := "python", profile := .static, unit := "pin", x := []
      instruments := [], roles := [], excerptSha := "", license := "" }
  program arm _ := some
    { k := 1, sampling := .temperature, maxOutputTokens := 300
      prepare := fun candidate _ _ _ => some (⟨arm ++ candidate, [], [1]⟩, ⟨"static", []⟩) }
  candidateOf unit := some unit.id
  terms _ := { client := true, model := "m", params := "p", price := fun _ => none }

def plain : Random where
  coin _ := true
  shuffle names := names
  shuffle_perm := List.Perm.refl
  choice _ _ := 0
  choice_lt _ _ positive := positive

def oneUnit : Programs.Program (Request String ℚ) Request.Answer
    (Except Stop (RunSummary ℚ)) :=
  runProgram id (fun _ _ => none) (twoArms [⟨"u", "g", "f", 1, "outer-0", ""⟩] []) plain 0
    (fun _ => "") false

abbrev silent := respond (M := String) (F := ℚ) fun _ _ => .responded none {}

theorem silent_follows (request : Request String ℚ) (world : World String ℚ) :
    answers (follows fun _ => none) request (silent request world).1 world (silent request world).2 :=
  answers_respond (fun _ _ content usage said => by cases said; rfl) request world

def half : World String ℚ := playFor silent 8 oneUnit {}

private theorem half_interrupted : half.ids = [⟨"A", "u", 0⟩] ∧
    Interrupted id (fun _ _ => none) (twoArms [⟨"u", "g", "f", 1, "outer-0", ""⟩] []) plain 0
      (fun _ => "") (follows fun _ => none) {} half :=
  ⟨rfl, .run .start (reaches_playFor silent_follows 8 oneUnit {})⟩

def resumed : Except Stop (RunSummary ℚ) × World String ℚ := play silent oneUnit half

theorem interrupted_rows_oneUnit :
    resumed.2.ids.count ⟨"B", "u", 0⟩ = 1 ∧
      (resumed.2.rows.map (·.costless)).Perm ((play silent oneUnit {}).2.rows.map (·.costless)) := by
  obtain ⟨summary, returned⟩ : ∃ summary, resumed.1 = .ok summary := ⟨_, rfl⟩
  obtain ⟨summary', returned'⟩ : ∃ summary, (play silent oneUnit {}).1 = .ok summary := ⟨_, rfl⟩
  have ended := ends_play silent_follows oneUnit half
  have whole := ends_play silent_follows oneUnit {}
  have done : resumed.1.map (·.status) = .ok .done := rfl
  have done' : (play silent oneUnit {}).1.map (·.status) = .ok .done := rfl
  change Ends _ _ _ resumed.1 _ at ended
  rw [returned] at ended done
  rw [returned'] at whole done'
  obtain ⟨each, -, same⟩ := interrupted_rows rfl half_interrupted.2 ended (Except.ok.inj done)
    whole (Except.ok.inj done')
  exact ⟨each _ mem_cons_self "B" (by simp [Experiment.armNames, twoArms]) 0
    Nat.zero_lt_one, same⟩

end OpenUltraSast.Learn.Experiments
