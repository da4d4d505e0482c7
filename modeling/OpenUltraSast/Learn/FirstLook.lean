import OpenUltraSast.Learn.Pairs
import OpenUltraSast.Learn.Resumed

/-!
# The first look of a run

A run takes its first look when it has passed the repositories of the first look.
-/

namespace OpenUltraSast.Learn.Experiments

open Collections Programs Floats List

variable {M C F : Type}

def anything : Clients M := fun _ _ _ => True

section Places
variable (e : Experiment M C F) (random : Random)

def groupOf (unit : String) : String :=
  (((e.walk random).find? (·.unit = unit)).map (·.group)).getD ""

/-- A row of a decision of the experiment, with the repository of its unit's first place. -/
def Placed (id : OutcomeId) (o : Outcome F) : Prop :=
  (∃ unit ∈ e.units, idsOf e unit id) ∧ o.group = groupOf e random id.unit

/-- Both arms have a decision of the unit among some. -/
def Paired (ids : OutcomeId → Prop) (unit : String) : Prop :=
  (∃ id, ids id ∧ id.arm = "A" ∧ id.unit = unit) ∧ ∃ id, ids id ∧ id.arm = "B" ∧ id.unit = unit

variable [Floats F]

/-- The decisions that are stored when a run takes its first look: those that it found, and those of
the repositories of the first look. -/
def lookIds (world : World M F) (id : OutcomeId) : Prop :=
  id ∈ Dicts.keys world.outcomes ∨
    ∃ unit ∈ e.units, unit.group ∈ firstGroups e random ∧ idsOf e unit id

/-- Of the repositories that have a pair among some decisions, the first look takes those that it
takes of all repositories. -/
def SameLook (fraction : F) (ids : OutcomeId → Prop) : Prop :=
  ∀ groups : List String,
    (∀ g, g ∈ groups ↔ ∃ unit, Paired ids unit ∧ groupOf e random unit = g) →
    ∀ g ∈ groups, g ∈ firstLook fraction (lookOrder random groups) ↔ g ∈ firstGroups e random

def wholeLook (resamples : Nat) (fraction boundary : F) (outcomes : List (Outcome F)) : Look F :=
  look (estimate e random resamples) fraction boundary (firstGroups e random) (pairedUnits outcomes)

/-- The looks that `analyse` reports on some outcomes. -/
def analysedLooks (resamples : Nat) (outcomes : List (Outcome F)) : List (Look F) :=
  if pairedUnits outcomes = [] then [] else looksOver e random resamples outcomes

end Places

variable {unit : Folds.Unit × Nat} {past rest : List (Folds.Unit × Nat)}

section Walk
variable {e : Experiment M C F} {random : Random}

theorem mem_order {group : String} :
    group ∈ e.order random ↔ ∃ unit ∈ e.units, unit.group = group := by
  simp [Experiment.order, lookOrder, (random.shuffle_perm _).mem_iff]

theorem nodup_order : (e.order random).Nodup :=
  (random.shuffle_perm _).nodup_iff.mpr (nodup_sortedSet _)

theorem mem_take_iff {order : List String} (distinct : order.Nodup) {n : Nat} {group : String}
    (listed : group ∈ order) : group ∈ order.take n ↔ order.idxOf group < n := by
  have below := idxOf_lt_length_of_mem listed
  constructor
  · intro member
    obtain ⟨i, at_, rfl⟩ := mem_take_iff_getElem.mp member
    rw [distinct.idxOf_getElem]
    omega
  · intro before
    refine mem_take_iff_getElem.mpr ⟨order.idxOf group, by omega, ?_⟩
    exact getElem_idxOf below

private theorem pairwise_walk : (e.walk random).Pairwise fun u v =>
    (e.order random).idxOf u.group ≤ (e.order random).idxOf v.group := by
  have sorted : (e.walk random).Pairwise fun u v : Folds.Unit =>
      toLex ((e.order random).idxOf u.group, toLex (u.family, u.unit))
        ≤ toLex ((e.order random).idxOf v.group, toLex (v.family, v.unit)) :=
    pairwise_insertionSort _ _
  refine sorted.imp fun {u v} le => ?_
  rcases Prod.Lex.toLex_le_toLex.mp le with less | ⟨same, -⟩
  · exact less.le
  · exact same.le

variable [Floats F] {fraction boundary : F} {last : F × F}

theorem firstGroups_eq (two : e.manifest.looks = [(fraction, boundary), last]) :
    firstGroups e random = firstLook fraction (e.order random) := by
  rw [firstGroups, two]

theorem inside_past (two : e.manifest.looks = [(fraction, boundary), last])
    (whole : (e.walk random).zipIdx = past ++ unit :: rest)
    (outside : unit.1.group ∉ firstGroups e random) {other : Folds.Unit} (listed : other ∈ e.units)
    (inside : other.group ∈ firstGroups e random) : ∃ place ∈ past, place.1 = other := by
  have walked : e.walk random = past.map (·.1) ++ unit.1 :: rest.map (·.1) := by
    rw [← zipIdx_map_fst 0 (e.walk random), whole]
    simp
  have member : other ∈ past.map (·.1) ++ unit.1 :: rest.map (·.1) := walked ▸ mem_walk.mpr listed
  have sorted : (e.walk random).Pairwise fun u v =>
      (e.order random).idxOf u.group ≤ (e.order random).idxOf v.group := pairwise_walk
  rw [walked] at sorted
  obtain ⟨-, later, -⟩ := pairwise_append.mp sorted
  have ranks := (pairwise_cons.mp later).1
  have unlisted : unit.1 ∈ e.units := mem_walk.mp (by rw [walked]; simp)
  rw [firstGroups_eq two, firstLook] at inside outside
  have here := (mem_take_iff nodup_order (mem_order.mpr ⟨_, listed, rfl⟩)).mp inside
  have there := mt (mem_take_iff nodup_order (mem_order.mpr ⟨_, unlisted, rfl⟩)).mpr outside
  rcases mem_append.mp member with before | after
  · obtain ⟨place, among, same⟩ := mem_map.mp before
    exact ⟨place, among, same⟩
  · rcases mem_cons.mp after with rfl | after
    · exact absurd here there
    · exact absurd (lt_of_le_of_lt (ranks other after) here) there

end Walk

theorem fits_placed [Floats F] {round6 : F → F} {parse : String → List Nat → Option (Answer F)}
    {e : Experiment M C F} {random : Random}
    (whole : (e.walk random).zipIdx = past ++ unit :: rest) {id : OutcomeId} (of : idsOf e unit.1 id)
    (new : ¬ idsOfAll e past id) :
    Fits round6 parse e random (fun _ _ _ => True) (Placed e random) unit.1 unit.2 := by
  have walked : e.walk random = past.map (·.1) ++ unit.1 :: rest.map (·.1) := by
    rw [← zipIdx_map_fst 0 (e.walk random), whole]
    simp
  have listed : unit.1 ∈ e.units := mem_walk.mp (by rw [walked]; simp)
  have absent : (past.map (·.1)).find? (·.unit = unit.1.unit) = none := by
    rw [List.find?_eq_none]
    rintro _ member same
    obtain ⟨place, among, rfl⟩ := mem_map.mp member
    rw [decide_eq_true_eq] at same
    exact new ⟨place, among, of.1.trans same.symm, of.2⟩
  intro arm position replicate decision usd placed below _
  have named := (mem_ordered _).mp (fst_mem_of_mem_zipIdx placed)
  refine ⟨⟨unit.1, listed, rfl, named, below⟩, ?_⟩
  rw [groupOf, walked, List.find?_append, absent]
  simp [outcomeOf]


section Earlier
variable [DecidableEq M] [Floats F] (round6 : F → F)
  (parse : String → List Nat → Option (Answer F)) (e : Experiment M C F) (random : Random)
  (resamples : Nat) (fixed3 : F → String)

inductive Earlier : World M F → Prop where
  | start {world} (fresh : world.outcomes = []) : Earlier world
  | run {world next} (stopEarly : Bool) (before : Earlier world)
      (cut : Reaches (answers anything)
        (runProgram round6 parse e random resamples fixed3 stopEarly) world next) : Earlier next

variable {round6 parse e random resamples fixed3} {world : World M F}

abbrev PlacedRows (e : Experiment M C F) (random : Random) (world : World M F) : Prop :=
  Sound (fun _ => True) (Rows (Placed e random)) world

theorem safe_placedRows {stopEarly : Bool} (placed : PlacedRows e random world) :
    Safe (answers anything) (PlacedRows e random)
      (fun result final => PlacedRows e random final ∧
        Ran e random resamples fixed3 (Placed e random) stopEarly world.outcomes final.outcomes result)
      (runProgram round6 parse e random resamples fixed3 stopEarly) world := by
  apply safe_run (honest_any _ e.terms) placed
  rintro past unit rest whole ⟨id, of, -, new⟩
  exact fits_placed whole of new

theorem placedRows_earlier
    (earlier : Earlier round6 parse e random resamples fixed3 world) : PlacedRows e random world := by
  induction earlier with
  | start fresh => exact ⟨trivial, by simp [fresh, Dicts.keys], by simp [fresh], by simp [fresh]⟩
  | run stopEarly _ cut ih => exact (safe_placedRows ih).reaches ih cut

end Earlier

variable {right : OutcomeId → Outcome F → Prop}

section Pairs
variable {e : Experiment M C F} {random : Random} {resamples : Nat}
  {rows : List (OutcomeId × Outcome F)}

theorem mem_rows (filed : Rows right rows) {o : Outcome F} :
    o ∈ rows.map (·.2) ↔ rows.lookup o.id = some o := by
  rw [mem_map]
  constructor
  · rintro ⟨row, member, rfl⟩
    rw [filed.filed row member]
    exact lookup_of_nodup filed.distinct member
  · intro found
    exact ⟨_, Dicts.mem_of_lookup found, rfl⟩

theorem distinct_rows (filed : Rows right rows) : Distinct (rows.map (·.2)) := by
  constructor
  · apply List.Nodup.of_map Outcome.id
    have same : (rows.map (·.2)).map Outcome.id = Dicts.keys rows := by
      simp only [map_map, Dicts.keys]
      exact map_congr_left fun row member => filed.filed row member
    rw [same]
    exact filed.distinct
  · intro o listed o' listed' arm unit replicate
    have same : o.id = o'.id := by simp [Outcome.id, arm, unit, replicate]
    rw [mem_rows filed] at listed listed'
    rw [same, listed'] at listed
    exact (Option.some.inj listed).symm

theorem group_rows (filed : Rows (Placed e random) rows) :
    ∀ o ∈ rows.map (·.2), o.group = groupOf e random o.unit := by
  rintro _ member
  obtain ⟨row, listed, rfl⟩ := mem_map.mp member
  have own := (filed.right row listed).2
  rwa [← filed.filed row listed] at own

private theorem mem_unitsOf_rows (filed : Rows right rows) {arm unit : String} :
    unit ∈ unitsOf (rows.map (·.2)) arm ↔
      ∃ id, id ∈ Dicts.keys rows ∧ id.arm = arm ∧ id.unit = unit := by
  rw [mem_unitsOf]
  constructor
  · rintro ⟨_, member, ofArm, ofUnit⟩
    obtain ⟨row, listed, rfl⟩ := mem_map.mp member
    have same := filed.filed row listed
    refine ⟨row.1, mem_map_of_mem listed, ?_⟩
    rw [← same]
    exact ⟨ofArm, ofUnit⟩
  · rintro ⟨id, held, ofArm, ofUnit⟩
    obtain ⟨row, listed, rfl⟩ := mem_map.mp held
    have same := filed.filed row listed
    rw [← same] at ofArm ofUnit
    exact ⟨row.2, mem_map_of_mem listed, ofArm, ofUnit⟩

variable [Floats F]

private theorem mem_pairGroups (filed : Rows (Placed e random) rows) {g : String} :
    g ∈ (pairedUnits (rows.map (·.2))).map (·.1.group) ↔
      ∃ unit, Paired (· ∈ Dicts.keys rows) unit ∧ groupOf e random unit = g := by
  simp only [mem_map, Paired, ← mem_unitsOf_rows filed]
  constructor
  · rintro ⟨pair, member, rfl⟩
    obtain ⟨unit, paired⟩ := mem_pairedUnits.mp member
    refine ⟨unit, unitsOf_of_pairOf paired, ?_⟩
    obtain ⟨a, left, rest⟩ := Option.bind_eq_some_iff.mp paired
    obtain ⟨b, -, rfl⟩ := Option.map_eq_some_iff.mp rest
    obtain ⟨o, listed, -, rfl, -, own⟩ := fold_some left
    exact (own.trans (group_rows filed o listed)).symm
  · rintro ⟨unit, ⟨left, right⟩, rfl⟩
    rw [← fold_isSome_iff] at left right
    obtain ⟨a, left⟩ := Option.isSome_iff_exists.mp left
    obtain ⟨b, right⟩ := Option.isSome_iff_exists.mp right
    obtain ⟨o, listed, -, rfl, -, own⟩ := fold_some left
    refine ⟨(a, b), mem_pairedUnits.mpr ⟨o.unit, by simp [pairOf, left, right]⟩, ?_⟩
    exact own.trans (group_rows filed o listed)

variable {fraction boundary : F} {last : F × F}

private theorem looksOver_head (two : e.manifest.looks = [(fraction, boundary), last])
    (outcomes : List (Outcome F)) :
    (looksOver e random resamples outcomes).head? = some (look (estimate e random resamples) fraction
      boundary (firstLook fraction (lookOrder random ((pairedUnits outcomes).map (·.1.group))))
      (pairedUnits outcomes)) := by
  simp [looksOver, sequentialLooks, two, looksIn]

/-- Looks that differ at most in how many repositories they take. -/
structure Alike (l l' : Look F) : Prop where
  estimate : l.estimate = l'.estimate
  z : l.z = l'.z
  crossed : l.crossed = l'.crossed

theorem alike_look (est : List (ArmUnit F × ArmUnit F) → Estimate F) {taken taken' : List String}
    {pairs pairs' : List (ArmUnit F × ArmUnit F)}
    (same : pairs.filter (·.1.group ∈ taken) = pairs'.filter (·.1.group ∈ taken')) :
    Alike (look est fraction boundary taken pairs) (look est fraction boundary taken' pairs') := by
  constructor <;> simp only [look, same]

theorem looks_like_whole {rows' : List (OutcomeId × Outcome F)} {ids : OutcomeId → Prop}
    (two : e.manifest.looks = [(fraction, boundary), last]) (filed : Rows (Placed e random) rows)
    (filed' : Rows (Placed e random) rows') (held : ∀ id, id ∈ Dicts.keys rows ↔ ids id)
    (same : SameLook e random fraction ids)
    (agree : ∀ o, groupOf e random o.unit ∈ firstGroups e random →
      (o ∈ rows.map (·.2) ↔ o ∈ rows'.map (·.2)))
    {outcomes : List (Outcome F)} (loaded : outcomes.Perm (rows.map (·.2))) :
    ∃ found, (looksOver e random resamples outcomes).head? = some found ∧
      Alike found (wholeLook e random resamples fraction boundary (rows'.map (·.2))) := by
  have distinct : Distinct outcomes := by
    refine ⟨loaded.nodup_iff.mpr (distinct_rows filed).1, fun o listed o' listed' => ?_⟩
    exact (distinct_rows filed).2 o (loaded.mem_iff.mp listed) o' (loaded.mem_iff.mp listed')
  have pairs : pairedUnits outcomes = pairedUnits (rows.map (·.2)) :=
    pairedUnits_congr distinct (distinct_rows filed) fun o => loaded.mem_iff
  refine ⟨_, looksOver_head two outcomes, alike_look _ ?_⟩
  rw [pairs]
  have groups : ∀ g, g ∈ (pairedUnits (rows.map (·.2))).map (·.1.group) ↔
      ∃ unit, Paired ids unit ∧ groupOf e random unit = g := by
    intro g
    simp only [mem_pairGroups filed, Paired, held]
  rw [← filter_pairedUnits (distinct_rows filed) (distinct_rows filed') (group_rows filed)
    (group_rows filed') agree]
  apply filter_congr
  intro pair member
  exact decide_eq_decide.mpr (same _ groups _ (mem_map_of_mem member))

theorem crossed_wholeLook_nil (none_ : firstGroups e random = []) (outcomes : List (Outcome F)) :
    (wholeLook e random resamples fraction boundary outcomes).crossed = false := by
  have pairs : (pairedUnits outcomes).filter (·.1.group ∈ firstGroups e random) = [] := by
    simp [none_]
  have diff : (estimate e random resamples []).diff = none := by
    have value : metricValue e.manifest.primary ([] : List (ArmUnit F)) = none := by
      unfold metricValue
      cases e.manifest.primary.name <;> simp [auc, scores, withinPairAuc, sides, mean, ranked]
    simp [estimate, pairedBootstrap, difference, value]
  simp [wholeLook, look, pairs, diff]

private theorem agree_past {old mid new : List (OutcomeId × Outcome F)}
    (two : e.manifest.looks = [(fraction, boundary), last]) (filed : Rows (Placed e random) mid)
    (filed' : Rows (Placed e random) new)
    (whole : (e.walk random).zipIdx = past ++ unit :: rest)
    (outside : unit.1.group ∉ firstGroups e random) (before : Gains (idsOfAll e past) old mid)
    (gains : Gains (idsOfAll e (unit :: rest)) mid new) (o : Outcome F)
    (inside : groupOf e random o.unit ∈ firstGroups e random) :
    o ∈ mid.map (·.2) ↔ o ∈ new.map (·.2) := by
  rw [mem_rows filed, mem_rows filed']
  refine ⟨gains.grown _ _, fun found => ?_⟩
  have held : o.id ∈ Dicts.keys mid := by
    rcases gains.only _ (Dicts.mem_keys_iff.mpr ⟨o, found⟩) with held | ⟨place, among, of⟩
    · exact held
    -- A unit that comes later has its first place before the look.
    · have walked : place.1 ∈ e.walk random := by
        apply fst_mem_of_mem_zipIdx (k := 0)
        rw [whole]
        exact mem_append_right _ among
      obtain ⟨first, found⟩ := Option.isSome_iff_exists.mp (List.find?_isSome (p := fun u =>
        decide (u.unit = o.unit)) |>.mpr ⟨place.1, walked, decide_eq_true of.1.symm⟩)
      have same : first.unit = o.unit := by simpa using List.find?_some found
      have listed := mem_walk.mp (mem_of_find?_eq_some found)
      rw [groupOf, found] at inside
      obtain ⟨earlier, there, rfl⟩ := inside_past two whole outside listed inside
      exact before.all _ ⟨earlier, there, same.symm, of.2⟩
  obtain ⟨other, stored⟩ := Dicts.mem_keys_iff.mp held
  have again := gains.grown _ _ stored
  rw [found] at again
  rw [stored, again]

private theorem keys_at_look {world : World M F} {mid : List (OutcomeId × Outcome F)}
    (two : e.manifest.looks = [(fraction, boundary), last])
    (whole : (e.walk random).zipIdx = past ++ unit :: rest)
    (inside : ∀ place ∈ past, place.1.group ∈ firstGroups e random)
    (outside : unit.1.group ∉ firstGroups e random) (before : Gains (idsOfAll e past) world.outcomes mid)
    (id : OutcomeId) : id ∈ Dicts.keys mid ↔ lookIds e random world id := by
  have listed : ∀ place ∈ past, place.1 ∈ e.units := fun place among =>
    mem_walk.mp (fst_mem_of_mem_zipIdx (k := 0) (whole ▸ mem_append_left _ among))
  constructor
  · intro held
    rcases before.only id held with stored | ⟨place, among, of⟩
    · exact .inl stored
    · exact .inr ⟨place.1, listed place among, inside place among, of⟩
  · rintro (stored | ⟨other, member, here, of⟩)
    · exact before.keys stored
    · obtain ⟨place, among, rfl⟩ := inside_past two whole outside member here
      exact before.all id ⟨place, among, of⟩

end Pairs

section Agree
variable {e : Experiment M C F} {random : Random} {fraction boundary : F} {last : F × F}

theorem groupOf_eq (distinct : (e.units.map (·.unit)).Nodup) {unit : Folds.Unit}
    (listed : unit ∈ e.units) : groupOf e random unit.unit = unit.group := by
  have is : ((e.walk random).find? (·.unit = unit.unit)).isSome := by
    rw [List.find?_isSome]
    exact ⟨unit, mem_walk.mpr listed, by simp⟩
  obtain ⟨first, found⟩ := Option.isSome_iff_exists.mp is
  have member := mem_walk.mp (mem_of_find?_eq_some found)
  have same : first.unit = unit.unit := by simpa using List.find?_some found
  rw [groupOf, found, inj_on_of_nodup_map distinct member listed same]
  rfl

theorem mem_pairedGroups (distinct : (e.units.map (·.unit)).Nodup)
    (decides : ∀ arm ∈ ["A", "B"], arm ∈ e.armNames ∧ 0 < e.repeats arm) {ids : OutcomeId → Prop}
    {taken : Folds.Unit → Prop}
    (of : ∀ id, ids id ↔ ∃ unit ∈ e.units, taken unit ∧ idsOf e unit id) (g : String) :
    (∃ unit, Paired ids unit ∧ groupOf e random unit = g) ↔
      ∃ unit ∈ e.units, taken unit ∧ unit.group = g := by
  constructor
  · rintro ⟨_, ⟨⟨id, member, -, rfl⟩, -⟩, rfl⟩
    obtain ⟨unit, listed, inside, same, -⟩ := (of id).mp member
    exact ⟨unit, listed, inside, by rw [same, groupOf_eq distinct listed]⟩
  · rintro ⟨unit, listed, inside, rfl⟩
    have first : ∀ arm ∈ ["A", "B"], ids ⟨arm, unit.unit, 0⟩ := fun arm named =>
      (of _).mpr ⟨unit, listed, inside, rfl, decides arm named⟩
    exact ⟨unit.unit, ⟨⟨_, first "A" (by simp), rfl, rfl⟩, ⟨_, first "B" (by simp), rfl, rfl⟩⟩,
      groupOf_eq distinct listed⟩

variable [Floats F]

/-- In a new store, the first look of a run is as it should be where the first part of the first
part of the repositories is all of it. -/
theorem sameLook_fresh {world : World M F} (two : e.manifest.looks = [(fraction, boundary), last])
    (fresh : world.outcomes = []) (distinct : (e.units.map (·.unit)).Nodup)
    (decides : ∀ arm ∈ ["A", "B"], arm ∈ e.armNames ∧ 0 < e.repeats arm)
    (all : (firstGroups e random).length
      ≤ (ceil (fraction * ofNat (firstGroups e random).length)).toNat) :
    SameLook e random fraction (lookIds e random world) := by
  intro groups listed g member
  have ofLook : ∀ id, lookIds e random world id ↔
      ∃ unit ∈ e.units, unit.group ∈ firstGroups e random ∧ idsOf e unit id := by
    simp [lookIds, fresh, Dicts.keys]
  have taken : ∀ g, g ∈ groups ↔ g ∈ firstGroups e random := by
    intro g
    rw [listed, mem_pairedGroups distinct decides ofLook]
    constructor
    · rintro ⟨unit, -, inside, rfl⟩
      exact inside
    · intro inside
      have ordered : g ∈ e.order random := by
        rw [firstGroups_eq two] at inside
        exact mem_of_mem_take inside
      obtain ⟨unit, among, rfl⟩ := mem_order.mp ordered
      exact ⟨unit, among, inside, rfl⟩
  have once : (firstGroups e random).Nodup := by
    rw [firstGroups_eq two]
    exact nodup_order.sublist (take_sublist _ _)
  have perm : (lookOrder random groups).Perm (firstGroups e random) := by
    refine (random.shuffle_perm _).trans ((perm_ext_iff_of_nodup (nodup_sortedSet _) once).mpr ?_)
    simpa using taken
  rw [firstLook, perm.length_eq, take_of_length_le (perm.length_eq ▸ all), perm.mem_iff]

private theorem sameLook_all (two : e.manifest.looks = [(fraction, boundary), last])
    (distinct : (e.units.map (·.unit)).Nodup)
    (decides : ∀ arm ∈ ["A", "B"], arm ∈ e.armNames ∧ 0 < e.repeats arm) :
    SameLook e random fraction fun id => ∃ unit ∈ e.units, idsOf e unit id := by
  intro groups listed g _
  have names : sortedSet groups = sortedSet (e.units.map (·.group)) :=
    (sortedSet_pairwise _).eq_of_mem_iff (sortedSet_pairwise _) fun g => by
      rw [mem_sortedSet, mem_sortedSet, listed,
        mem_pairedGroups distinct decides fun id => ⟨fun ⟨unit, of⟩ => ⟨unit, of.1, trivial, of.2⟩,
          fun ⟨unit, listed, _, of⟩ => ⟨unit, listed, of⟩⟩]
      simp
  rw [firstGroups_eq two, Experiment.order, lookOrder, lookOrder, names]

end Agree

section Stopping
variable [Floats F] {round6 : F → F} {parse : String → List Nat → Option (Answer F)}
  {e : Experiment M C F} {random : Random} {resamples : Nat} {fixed3 : F → String}
  {fraction boundary : F} {last : F × F} {world final : World M F}

/-- A run that was not cut short: it has returned after its walk, or was left where it reports its
look. -/
def Whole (result : Except Stop (RunSummary F)) : Prop :=
  (∃ summary, result = .ok summary ∧ summary.status ≠ .unfinished) ∨ result = .error .unformatted

/-- A run is stopped exactly where the look at all rows of its first groups crosses. -/
theorem stopped_iff {result : Except Stop (RunSummary F)}
    (two : e.manifest.looks = [(fraction, boundary), last])
    (placed : PlacedRows e random final)
    (ran : Ran e random resamples fixed3 (Placed e random) true world.outcomes final.outcomes result)
    (whole : Whole result) (beyond : ∃ unit ∈ e.units, unit.group ∉ firstGroups e random)
    (same : SameLook e random fraction (lookIds e random world))
    (reported : (wholeLook e random resamples fraction boundary final.rows).crossed →
      (wholeLook e random resamples fraction boundary final.rows).z.isSome) :
    (∃ summary, result = .ok summary ∧ summary.status = .stopped) ↔
      (wholeLook e random resamples fraction boundary final.rows).crossed = true := by
  -- A look over the rows of the first repositories, and what comes of it.
  have finds : ∀ {past : List (Folds.Unit × Nat)} {unit rest mid found},
      (e.walk random).zipIdx = past ++ unit :: rest →
      (∀ place ∈ past, place.1.group ∈ firstGroups e random) →
      unit.1.group ∉ firstGroups e random → Gains (idsOfAll e past) world.outcomes mid →
      Looked e random resamples (Placed e random) mid found →
      (∀ o, groupOf e random o.unit ∈ firstGroups e random →
        (o ∈ mid.map (·.2) ↔ o ∈ final.rows)) →
      ∃ seen : Look F, found = (some seen).filter (·.crossed) ∧
        seen.crossed = (wholeLook e random resamples fraction boundary final.rows).crossed ∧
        seen.z = (wholeLook e random resamples fraction boundary final.rows).z := by
    intro past unit rest mid found places inside outside before looked agree
    obtain ⟨filed, outcomes, loaded, rfl⟩ := looked
    obtain ⟨seen, head, alike⟩ := looks_like_whole two filed placed.2
      (keys_at_look two places inside outside before) same agree loaded
    exact ⟨seen, by rw [head], alike.crossed, alike.z⟩
  rcases result with stop | summary
  · -- The run was left at a look that is crossed and has no `z`.
    have unformatted : stop = .unformatted := by
      rcases whole with ⟨summary, is, -⟩ | is
      · cases is
      · exact Except.error.inj is
    obtain ⟨look, walked, unnamed⟩ := ran unformatted
    generalize places : (e.walk random).zipIdx = walk at walked
    cases walked with
    | halted some_ inside outside before looked =>
      obtain ⟨seen, found, crossed, z⟩ := finds places inside outside before looked fun o _ => Iff.rfl
      obtain ⟨here, is⟩ := Option.filter_eq_some_iff.mp found.symm
      cases here
      have has := reported (crossed ▸ is)
      rw [← z] at has
      simp [stopReason] at unnamed
      simp [unnamed] at has
  · have finished : summary.status ≠ .unfinished := by
      rcases whole with ⟨_, ⟨⟩, is⟩ | is
      · exact is
      · cases is
    obtain ⟨found, walked, status, -⟩ := ran.resolve_left finished
    have stopped : (∃ s, Except.ok summary = (.ok s : Except Stop (RunSummary F)) ∧
        s.status = .stopped) ↔ found.isSome = true := by
      constructor
      · rintro ⟨_, ⟨⟩, is⟩
        rw [is] at status
        by_contra no
        simp [no] at status
      · intro is
        exact ⟨summary, rfl, by rw [status, if_pos is]⟩
    rw [stopped]
    generalize places : (e.walk random).zipIdx = walk at walked
    cases walked with
    | through inside gains =>
      rcases inside with none_ | inside
      · simp [crossed_wholeLook_nil none_]
      · obtain ⟨unit, listed, outside⟩ := beyond
        obtain ⟨i, place⟩ := mem_zipIdx_walk random listed
        exact absurd (inside _ (places ▸ place)) outside
    | passed some_ inside outside before looked gains =>
      obtain ⟨seen, found, crossed, -⟩ := finds places inside outside before looked
        (agree_past two looked.1 placed.2 places outside before gains)
      have no : seen.crossed = false := by simpa using found.symm
      simp [← crossed, no]
    | halted some_ inside outside before looked =>
      obtain ⟨seen, found, crossed, -⟩ := finds places inside outside before looked fun o _ => Iff.rfl
      obtain ⟨here, yes⟩ := Option.filter_eq_some_iff.mp found.symm
      cases here
      simp [← crossed, yes]

variable [DecidableEq M]

private theorem keys_of_done {stopEarly : Bool} {summary : RunSummary F}
    (earlier : Earlier round6 parse e random resamples fixed3 world)
    (ended : Ends (answers anything) (runProgram round6 parse e random resamples fixed3 stopEarly)
      world (.ok summary) final)
    (done : summary.status = .done) :
    PlacedRows e random final ∧
      ∀ id, id ∈ Dicts.keys final.outcomes ↔ ∃ unit ∈ e.units, idsOf e unit id := by
  obtain ⟨placed, ran⟩ := (safe_placedRows (placedRows_earlier earlier)).ends ended
  refine ⟨placed, fun id => ⟨fun held => ?_, ?_⟩⟩
  · obtain ⟨row, listed, rfl⟩ := mem_map.mp held
    exact (placed.2.right row listed).1
  · rintro ⟨unit, listed, of⟩
    exact ran.all_of_done done listed of

/-- Where some repository lies beyond the first look, the look of a run takes the repositories of
the first look, and its result can be reported, a run stops at the first look just when the estimate
over the first repositories of all crosses the boundary; and that estimate is the one of the first
look that is analysed of a run that did not stop. -/
theorem stops_at_first_look {result : Except Stop (RunSummary F)}
    (two : e.manifest.looks = [(fraction, boundary), last])
    (earlier : Earlier round6 parse e random resamples fixed3 world)
    (ended : Ends (answers anything) (runProgram round6 parse e random resamples fixed3 true)
      world result final)
    (whole : Whole result) (beyond : ∃ unit ∈ e.units, unit.group ∉ firstGroups e random)
    (same : SameLook e random fraction (lookIds e random world))
    (reported : (wholeLook e random resamples fraction boundary final.rows).crossed →
      (wholeLook e random resamples fraction boundary final.rows).z.isSome)
    (sameAll : SameLook e random fraction fun id => ∃ unit ∈ e.units, idsOf e unit id) :
    ((∃ summary, result = .ok summary ∧ summary.status = .stopped) ↔
      (wholeLook e random resamples fraction boundary final.rows).crossed = true) ∧
    ∀ (stopEarly : Bool) (before after : World M F) (summary : RunSummary F),
      Earlier round6 parse e random resamples fixed3 before →
      Ends (answers anything) (runProgram round6 parse e random resamples fixed3 stopEarly)
        before (.ok summary) after → summary.status = .done →
      (∀ o, groupOf e random o.unit ∈ firstGroups e random → (o ∈ final.rows ↔ o ∈ after.rows)) →
      ∀ outcomes : List (Outcome F), outcomes.Perm after.rows →
        ∀ seen ∈ (analysedLooks e random resamples outcomes).head?, seen.estimate
          = (wholeLook e random resamples fraction boundary final.rows).estimate := by
  obtain ⟨placed, ran⟩ := (safe_placedRows (placedRows_earlier earlier)).ends ended
  refine ⟨stopped_iff two placed ran whole beyond same reported, ?_⟩
  intro stopEarly before after summary earlier' ended' done agree outcomes loaded seen head
  obtain ⟨placed', held⟩ := keys_of_done earlier' ended' done
  obtain ⟨found, first, alike⟩ := looks_like_whole two placed'.2 placed.2 held sameAll
    (fun o inside => (agree o inside).symm) loaded
  unfold analysedLooks at head
  split at head
  · cases head
  · rw [first] at head
    cases head
    exact alike.estimate

end Stopping

def firstThenLast : Random where
  coin _ := true
  shuffle names := names
  shuffle_perm := List.Perm.refl
  choice draw bound := if draw < 3 then 0 else bound - 1
  choice_lt draw bound positive := by split <;> omega

def threeUnits (fraction : ℚ) : Experiment String String ℚ :=
  twoArms [⟨"u1", "g1", "f", 1, "outer-0", ""⟩, ⟨"u2", "g2", "f", 1, "outer-0", ""⟩,
    ⟨"u3", "g3", "f", 1, "outer-0", ""⟩] [(fraction, 1), (1, 1)]

def flagsSecond (text : String) (_ : List Nat) : Option (Answer ℚ) :=
  some { verdict := if text = "Bu2" then .vulnerable else .notVulnerable, family := "f"
         confidence := 1, rationale := "r", citedLines := [1] }

def echo := respond (M := String) (F := ℚ) fun _ call => .responded (some call.messages) {}

theorem echo_anything (request : Request String ℚ) (world : World String ℚ) :
    answers anything request (echo request world).1 world (echo request world).2 :=
  answers_respond (fun _ _ => trivial) request world

def threeProgram (fraction : ℚ) :=
  runProgram (M := String) id flagsSecond (threeUnits fraction) firstThenLast 3 (fun _ => "") true

/-- At a half the look of the run is at the first repository, where the arms agree, and the run goes
on; the first two repositories cross the boundary. -/
theorem half_look_goes_on : ∃ summary final,
    Ends (answers anything) (threeProgram (1 / 2)) {} (.ok summary) final ∧
      summary.status = .done ∧
      (wholeLook (threeUnits (1 / 2)) firstThenLast 3 (1 / 2) 1 final.rows).crossed = true := by
  have ended := ends_play echo_anything (threeProgram (1 / 2)) {}
  have done : (play echo (threeProgram (1 / 2)) {}).1.toOption.map (·.status) = some .done ∧
      (wholeLook (threeUnits (1 / 2)) firstThenLast 3 (1 / 2) 1
        (play echo (threeProgram (1 / 2)) {}).2.rows).crossed = true := by
    decide +kernel
  generalize play echo (threeProgram (1 / 2)) {} = played at ended done
  obtain ⟨result, final⟩ := played
  cases result with
  | error stop => simp [Except.toOption] at done
  | ok summary => exact ⟨summary, final, ended, by simpa [Except.toOption] using done.1, done.2⟩

/-- At two thirds the first part of the first two repositories is both, and the run stops. -/
theorem twoThirds_look_stops : ∃ result final,
    Ends (answers anything) (threeProgram (2 / 3)) {} result final ∧
      ∃ summary, result = .ok summary ∧ summary.status = .stopped := by
  have ended := ends_play echo_anything (threeProgram (2 / 3)) {}
  have facts : (play echo (threeProgram (2 / 3)) {}).1.toOption.map (·.status) = some .stopped ∧
      (wholeLook (threeUnits (2 / 3)) firstThenLast 3 (2 / 3) 1
        (play echo (threeProgram (2 / 3)) {}).2.rows).crossed = true ∧
      (wholeLook (threeUnits (2 / 3)) firstThenLast 3 (2 / 3) 1
        (play echo (threeProgram (2 / 3)) {}).2.rows).z.isSome = true := by
    decide +kernel
  generalize play echo (threeProgram (2 / 3)) {} = played at ended facts
  obtain ⟨result, final⟩ := played
  obtain ⟨stopped, crossed, z⟩ := facts
  have whole : Whole result := by
    cases result with
    | error stop => simp [Except.toOption] at stopped
    | ok summary =>
      have is : summary.status = .stopped := by simpa [Except.toOption] using stopped
      exact .inl ⟨summary, rfl, by simp [is]⟩
  have decides : ∀ arm ∈ ["A", "B"], arm ∈ (threeUnits (2 / 3)).armNames ∧
      0 < (threeUnits (2 / 3)).repeats arm := by decide +kernel
  have distinct : ((threeUnits (2 / 3)).units.map (·.unit)).Nodup := by decide +kernel
  refine ⟨result, final, ended, (stops_at_first_look rfl (.start rfl) ended whole ?_ ?_ (fun _ => z)
    (sameLook_all rfl distinct decides)).1.mpr crossed⟩
  · exact ⟨⟨"u3", "g3", "f", 1, "outer-0", ""⟩, by simp [threeUnits, twoArms], by decide +kernel⟩
  · exact sameLook_fresh rfl rfl distinct decides (by decide +kernel)

end OpenUltraSast.Learn.Experiments
