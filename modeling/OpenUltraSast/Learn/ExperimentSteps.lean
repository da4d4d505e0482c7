import OpenUltraSast.Learn.CallerSteps

/-!
# What a run keeps

The rows of a store are never put again: what a run adds are the decisions of the units that it
has passed, each once.
-/

namespace OpenUltraSast.Learn.Experiments

open Collections Programs Floats List

section Rows
variable {F : Type}

structure Rows (right : OutcomeId → Outcome F → Prop) (rows : List (OutcomeId × Outcome F)) :
    Prop where
  distinct : (Dicts.keys rows).Nodup
  filed : ∀ row ∈ rows, row.2.id = row.1
  right : ∀ row ∈ rows, right row.1 row.2

structure Gains (ids : OutcomeId → Prop) (old new : List (OutcomeId × Outcome F)) : Prop where
  grown : ∀ id o, old.lookup id = some o → new.lookup id = some o
  only : ∀ id ∈ Dicts.keys new, id ∈ Dicts.keys old ∨ ids id
  all : ∀ id, ids id → id ∈ Dicts.keys new

variable {ids others : OutcomeId → Prop} {old new newer : List (OutcomeId × Outcome F)}

theorem Gains.keys (gains : Gains ids old new) {id : OutcomeId} (held : id ∈ Dicts.keys old) :
    id ∈ Dicts.keys new := by
  obtain ⟨o, found⟩ := Dicts.mem_keys_iff.mp held
  exact Dicts.mem_keys_iff.mpr ⟨o, gains.grown id o found⟩

theorem Gains.none (rows : List (OutcomeId × Outcome F)) (none : ∀ id, ¬ ids id) :
    Gains ids rows rows :=
  ⟨fun _ _ found => found, fun _ held => .inl held, fun id is => absurd is (none id)⟩

theorem Gains.trans (first : Gains ids old new) (second : Gains others new newer) :
    Gains (fun id => ids id ∨ others id) old newer where
  grown id o found := second.grown id o (first.grown id o found)
  only id held := by
    rcases second.only id held with before | gained
    · exact (first.only id before).imp_right Or.inl
    · exact .inr (.inr gained)
  all id gained := gained.elim (fun is => second.keys (first.all id is)) (second.all id)

theorem Gains.congr (gains : Gains ids old new) (same : ∀ id, ids id ↔ others id) :
    Gains others old new where
  grown := gains.grown
  only id held := (gains.only id held).imp_right (same id).mp
  all id gained := gains.all id ((same id).mpr gained)

private theorem gains_set {id : OutcomeId} (o : Outcome F) (absent : id ∉ Dicts.keys old) :
    Gains (· = id) old (Dicts.set old id o) where
  grown other found held := by
    rw [Dicts.lookup_set, if_neg]
    · exact held
    · rintro rfl
      exact absent (Dicts.mem_keys_iff.mpr ⟨_, held⟩)
  only other held := (Dicts.mem_keys_set.mp held).symm
  all other is := Dicts.mem_keys_set.mpr (.inl is)

theorem rows_set {right : OutcomeId → Outcome F → Prop} (rows : Rows right old) {o : Outcome F}
    (fits : right o.id o) : Rows right (Dicts.set old o.id o) where
  distinct := Dicts.nodup_set rows.distinct _ _
  filed row member := by
    rcases Dicts.mem_set member with rfl | held
    · rfl
    · exact rows.filed row held
  right row member := by
    rcases Dicts.mem_set member with rfl | held
    · exact fits
    · exact rows.right row held

end Rows

section Order
variable {M C F : Type} {e : Experiment M C F} {unit : Folds.Unit}

theorem mem_walk : unit ∈ e.walk random ↔ unit ∈ e.units :=
  mem_insertionSort _

theorem mem_zipIdx_walk (random : Random) (listed : unit ∈ e.units) :
    ∃ i, (unit, i) ∈ (e.walk random).zipIdx := by
  obtain ⟨i, at_⟩ := mem_iff_getElem?.mp (mem_walk.mpr listed)
  exact ⟨i, mk_mem_zipIdx_iff_getElem?.mpr at_⟩

theorem mem_ordered (first : Bool) {arm : String} :
    arm ∈ ordered e first ↔ arm ∈ e.armNames := by
  unfold ordered
  split <;> simp

theorem nodup_ordered (first : Bool) : (ordered e first).Nodup := by
  unfold ordered
  split
  · exact nodup_sortedSet _
  · exact nodup_reverse.mpr (nodup_sortedSet _)

def idsOf (e : Experiment M C F) (unit : Folds.Unit) (id : OutcomeId) : Prop :=
  id.unit = unit.unit ∧ id.arm ∈ e.armNames ∧ id.replicate < e.repeats id.arm

def idsOfAll (e : Experiment M C F) (units : List (Folds.Unit × Nat)) (id : OutcomeId) : Prop :=
  ∃ unit ∈ units, idsOf e unit.1 id

theorem idsOfAll_cons (unit : Folds.Unit × Nat) (units : List (Folds.Unit × Nat))
    (id : OutcomeId) : idsOfAll e (unit :: units) id ↔ idsOf e unit.1 id ∨ idsOfAll e units id := by
  simp [idsOfAll]

theorem has_loaded {good : List (Key M × Entry) → Prop} {right : OutcomeId → Outcome F → Prop}
    {world : World M F} (sound : Sound good (Rows right) world) {outcomes : List (Outcome F)}
    (loaded : outcomes.Perm (world.outcomes.map (·.2))) (id : OutcomeId) :
    id ∈ outcomes.map (·.id) ↔ id ∈ Dicts.keys world.outcomes := by
  rw [(loaded.map _).mem_iff, map_map]
  simp only [mem_map, Dicts.keys, Function.comp]
  constructor
  · rintro ⟨row, member, rfl⟩
    exact ⟨row, member, (sound.2.filed row member).symm⟩
  · rintro ⟨row, member, rfl⟩
    exact ⟨row, member, sound.2.filed row member⟩

end Order

section Walk
variable {M C F : Type} [Floats F] {e : Experiment M C F} {random : Random}

def Looked (e : Experiment M C F) (random : Random) (resamples : Nat)
    (right : OutcomeId → Outcome F → Prop) (rows : List (OutcomeId × Outcome F))
    (found : Option (Look F)) : Prop :=
  Rows right rows ∧ ∃ outcomes : List (Outcome F), outcomes.Perm (rows.map (·.2)) ∧
    found = (looksOver e random resamples outcomes).head?.filter (·.crossed)

/-- The way over some units: to the end without a look, with a look that is not crossed, or up to
one that is. -/
inductive Walked (e : Experiment M C F) (random : Random) (resamples : Nat)
    (right : OutcomeId → Outcome F → Prop) (first : List String) :
    List (Folds.Unit × Nat) → List (OutcomeId × Outcome F) → List (OutcomeId × Outcome F) →
      Option (Look F) → Prop where
  | through {units old new} (inside : first = [] ∨ ∀ unit ∈ units, unit.1.group ∈ first)
      (gains : Gains (idsOfAll e units) old new) :
      Walked e random resamples right first units old new none
  | passed {past unit rest old mid new} (some_ : first ≠ [])
      (inside : ∀ unit ∈ past, unit.1.group ∈ first) (outside : unit.1.group ∉ first)
      (before : Gains (idsOfAll e past) old mid) (looked : Looked e random resamples right mid none)
      (gains : Gains (idsOfAll e (unit :: rest)) mid new) :
      Walked e random resamples right first (past ++ unit :: rest) old new none
  | halted {past unit rest old new look} (some_ : first ≠ [])
      (inside : ∀ unit ∈ past, unit.1.group ∈ first) (outside : unit.1.group ∉ first)
      (gains : Gains (idsOfAll e past) old new)
      (looked : Looked e random resamples right new (some look)) :
      Walked e random resamples right first (past ++ unit :: rest) old new (some look)

theorem Walked.cons {resamples : Nat} {right : OutcomeId → Outcome F → Prop} {first : List String} {unit : Folds.Unit × Nat}
    {units : List (Folds.Unit × Nat)} {old mid new : List (OutcomeId × Outcome F)}
    {found : Option (Look F)} (inside : first = [] ∨ unit.1.group ∈ first)
    (gains : Gains (idsOf e unit.1) old mid)
    (walked : Walked e random resamples right first units mid new found) :
    Walked e random resamples right first (unit :: units) old new found := by
  have more : ∀ {units new}, Gains (idsOfAll e units) mid new →
      Gains (idsOfAll e (unit :: units)) old new :=
    fun rest => (gains.trans rest).congr fun id => (idsOfAll_cons unit _ id).symm
  cases walked with
  | through all rest =>
    apply Walked.through _ (more rest)
    rcases inside with empty | here
    · exact .inl empty
    · exact all.imp_right fun all => forall_mem_cons.mpr ⟨here, all⟩
  | passed some_ all outside before looked rest =>
    exact .passed some_ (forall_mem_cons.mpr ⟨inside.resolve_left some_, all⟩) outside
      (more before) looked rest
  | halted some_ all outside rest looked =>
    exact .halted some_ (forall_mem_cons.mpr ⟨inside.resolve_left some_, all⟩) outside
      (more rest) looked

end Walk

variable {M C F : Type} [DecidableEq M] [Floats F]

/-- The session knows the ids of the rows that are stored. -/
def Has (session : Session M) (world : World M F) : Prop :=
  ∀ id, id ∈ session.have_ ↔ id ∈ Dicts.keys world.outcomes

/-- A run at a point between two decisions. -/
structure Going (good : List (Key M × Entry) → Prop)
    (said : String → Key M → Option String → Prop) (right : OutcomeId → Outcome F → Prop)
    (session : Session M) (world : World M F) : Prop where
  sound : Sound good (Rows right) world
  heard : Heard said session
  has : Has session world

section Run
variable (round6 : F → F) (parse : String → List Nat → Option (Answer F))
  (e : Experiment M C F)

def decideUnitWith (oracle : Key M → String) (unit : Folds.Unit) (arm : String) (replicate : Nat) :
    Option (Decision F) :=
  match e.candidate unit, e.programOf arm unit.family, e.foldOf unit with
  | some candidate, some program, some fold =>
    program.decideWith e.terms round6 parse oracle candidate fold arm (salt replicate)
      e.manifest.foldSeed
  | _, _, _ => none

/-- A decision that the oracles of a caller make. -/
def Told (said : String → Key M → Option String → Prop) (unit : Folds.Unit) (arm : String)
    (replicate : Nat) (decision : Decision F) : Prop :=
  ∀ oracle, Fixes said arm oracle →
    decideUnitWith round6 parse e oracle unit arm replicate = some decision

/-- The decisions of a unit with the coin of its place are stored as they should be. -/
def Fits (random : Random) (said : String → Key M → Option String → Prop)
    (right : OutcomeId → Outcome F → Prop) (unit : Folds.Unit) (i : Nat) : Prop :=
  ∀ arm position replicate decision usd, (arm, position) ∈ (ordered e (random.coin i)).zipIdx →
    replicate < e.repeats arm → Told round6 parse e said unit arm replicate decision →
      right ⟨arm, unit.unit, replicate⟩ (outcomeOf unit arm replicate position decision usd)

variable {round6 parse e} {clients : Clients M} {good : List (Key M × Entry) → Prop}
  {said : String → Key M → Option String → Prop} {right : OutcomeId → Outcome F → Prop}
  {session : Session M} {world : World M F} {random : Random}

section
variable (honest : Honest clients e.terms good said)
include honest

private theorem leads_decideUnit
    (sound : Sound good (Rows right) world) (heard : Heard said session) (unit : Folds.Unit)
    (arm : String) (replicate : Nat) :
    Leads (answers clients) (Sound good (Rows right))
      (Stays good (Rows right) said session world (Told round6 parse e said unit arm replicate))
      (Left good (Rows right))
      (decideUnit round6 parse e unit arm replicate) session world := by
  unfold decideUnit Told decideUnitWith
  rcases e.candidate unit with _ | candidate
  · exact .throw ⟨sound, by simp⟩
  rcases e.programOf arm unit.family with _ | program
  · exact .throw ⟨sound, by simp⟩
  rcases e.foldOf unit with _ | fold
  · exact .throw ⟨sound, by simp⟩
  exact leads_decide honest sound heard program candidate fold _

section
variable (going : Going good said right session world)
include going

private theorem leads_runReplicate (unit : Folds.Unit) (arm : String)
    (position replicate : Nat)
    (fits : ⟨arm, unit.unit, replicate⟩ ∉ Dicts.keys world.outcomes → ∀ decision usd,
      Told round6 parse e said unit arm replicate decision →
        right ⟨arm, unit.unit, replicate⟩ (outcomeOf unit arm replicate position decision usd)) :
    Leads (answers clients) (Sound good (Rows right))
      (fun _ session' world' => Going good said right session' world' ∧
        Gains (· = ⟨arm, unit.unit, replicate⟩) world.outcomes world'.outcomes)
      (Left good (Rows right))
      (runReplicate round6 parse e unit arm position replicate) session world := by
  refine .bind (.get (.ite ?_ ?_))
  · intro known
    refine .change ⟨⟨going.sound, going.heard, going.has⟩, ?_⟩
    have held := (going.has _).mp known
    exact ⟨fun _ _ found => found, fun _ held => .inl held, fun id is => is ▸ held⟩
  · intro unknown
    have absent := fun held => unknown ((going.has _).mpr held)
    apply Leads.bind
    apply (leads_decideUnit honest going.sound going.heard unit arm replicate).mono _
      (fun _ _ _ stopped => stopped)
    rintro decision session' world' ⟨sound, heard, calm, told⟩
    refine .bind (.get (.bind (.ask ?_)))
    rintro _ after rfl
    -- The row is new, so that no row is lost when it is put.
    rw [← calm.outcomes] at absent
    let cost := costOf round6 (usd round6 e arm session) (usd round6 e arm session')
    have put : Rows right (Dicts.set world'.outcomes ⟨arm, unit.unit, replicate⟩
        (outcomeOf unit arm replicate position decision cost)) :=
      rows_set (o := outcomeOf unit arm replicate position decision cost) sound.2
        (fits (calm.outcomes ▸ absent) decision cost told)
    refine ⟨⟨sound.1, put⟩, Leads.change ⟨⟨⟨sound.1, put⟩, heard, ?_⟩, ?_⟩⟩
    · intro id
      rw [Dicts.mem_keys_set, mem_append, mem_singleton, calm.have_, going.has,
        calm.outcomes, or_comm]
      rfl
    · rw [← calm.outcomes]
      exact gains_set _ absent

private theorem leads_runArm (unit : Folds.Unit) (arm : String)
    (position : Nat)
    (fits : ∀ replicate < e.repeats arm, ⟨arm, unit.unit, replicate⟩ ∉ Dicts.keys world.outcomes →
      ∀ decision usd, Told round6 parse e said unit arm replicate decision →
        right ⟨arm, unit.unit, replicate⟩ (outcomeOf unit arm replicate position decision usd)) :
    Leads (answers clients) (Sound good (Rows right))
      (fun _ session' world' => Going good said right session' world' ∧
        Gains (fun id => ∃ replicate < e.repeats arm, id = ⟨arm, unit.unit, replicate⟩)
          world.outcomes world'.outcomes)
      (Left good (Rows right))
      (runArm round6 parse e unit arm position) session world := by
  unfold runArm
  refine .mono (.forM (fun before session' world' =>
    Going good said right session' world' ∧
      Gains (fun id => ∃ replicate ∈ before, id = ⟨arm, unit.unit, replicate⟩)
        world.outcomes world'.outcomes) ⟨going, Gains.none _ (by simp)⟩ ?_) ?_
    (fun _ _ _ stopped => stopped)
  rotate_left
  · rintro _ session' world' ⟨going, gains⟩
    exact ⟨going, gains.congr (by simp)⟩
  · rintro before replicate after whole session' world' ⟨going, gains⟩
    have below : replicate < e.repeats arm := by
      have member : replicate ∈ List.range (e.repeats arm) := by simp [whole]
      exact mem_range.mp member
    apply (leads_runReplicate honest going unit arm position replicate
      fun absent => fits replicate below fun held => absent (gains.keys held)).mono _
      (fun _ _ _ stopped => stopped)
    rintro _ session'' world'' ⟨going, more⟩
    refine ⟨going, (gains.trans more).congr fun id => ?_⟩
    simp [or_and_right, exists_or]

/-- A unit is decided under all arms; what is decided anew fits its place. -/
theorem leads_runUnit (unit : Folds.Unit) (i : Nat)
    (fits : (∃ id, idsOf e unit id ∧ id ∉ Dicts.keys world.outcomes) →
      Fits round6 parse e random said right unit i) :
    Leads (answers clients) (Sound good (Rows right))
      (fun _ session' world' => Going good said right session' world' ∧
        Gains (idsOf e unit) world.outcomes world'.outcomes)
      (Left good (Rows right))
      (runUnit round6 parse e unit (random.coin i)) session world := by
  unfold runUnit
  refine .mono (.forM (fun before session' world' =>
    Going good said right session' world' ∧
      Gains (fun id => ∃ entry ∈ before, ∃ replicate < e.repeats entry.1,
        id = ⟨entry.1, unit.unit, replicate⟩) world.outcomes world'.outcomes)
    ⟨going, Gains.none _ (by simp)⟩ ?_) ?_ (fun _ _ _ stopped => stopped)
  -- after the last arm: the ids gained are those of the unit
  rotate_left
  · rintro _ session' world' ⟨going, gains⟩
    refine ⟨going, gains.congr fun id => ?_⟩
    constructor
    · rintro ⟨⟨arm, position⟩, member, replicate, below, rfl⟩
      have named : arm ∈ ordered e (random.coin i) := fst_mem_of_mem_zipIdx member
      exact ⟨rfl, (mem_ordered _).mp named, below⟩
    · rintro ⟨same, named, below⟩
      obtain ⟨position, at_⟩ := mem_iff_getElem?.mp
        ((mem_ordered (random.coin i)).mpr named)
      refine ⟨(id.arm, position), mem_zipIdx_iff_getElem?.mpr at_, id.replicate, below, ?_⟩
      rw [← same]
  · -- one arm more: its missing replicates are decided, each where it fits
    rintro before ⟨arm, position⟩ after whole session' world' ⟨going, gains⟩
    have member : (arm, position) ∈ (ordered e (random.coin i)).zipIdx := by simp [whole]
    have named := (mem_ordered _).mp (fst_mem_of_mem_zipIdx member)
    apply (leads_runArm honest going unit arm position ?_).mono _ (fun _ _ _ stopped => stopped)
    · intro replicate below absent decision usd told
      have new : ⟨arm, unit.unit, replicate⟩ ∉ Dicts.keys world.outcomes :=
        fun held => absent (gains.keys held)
      exact fits ⟨_, ⟨rfl, named, below⟩, new⟩ arm position replicate decision usd member below told
    · rintro _ session'' world'' ⟨going, more⟩
      refine ⟨going, (gains.trans more).congr fun id => ?_⟩
      simp [or_and_right, exists_or]

end

end

variable {resamples : Nat} {fixed3 : F → String}

/-- How the way over some units is left: at a look that cannot be reported, or by a decision. -/
def LeftUnits (e : Experiment M C F) (random : Random) (resamples : Nat) (fixed3 : F → String)
    (good : List (Key M × Entry) → Prop) (right : OutcomeId → Outcome F → Prop)
    (first : List String) (units : List (Folds.Unit × Nat))
    (old : List (OutcomeId × Outcome F)) : Stop → Session M → World M F → Prop :=
  fun stop _ world => Sound good (Rows right) world ∧ (stop = .unformatted →
    ∃ look, Walked e random resamples right first units old world.outcomes (some look) ∧
      stopReason fixed3 look = none)

private theorem leads_runUnits (honest : Honest clients e.terms good said)
    (units : List (Folds.Unit × Nat)) (first : List String)
    (going : Going good said right session world)
    (fits : ∀ past unit rest, units = past ++ unit :: rest →
      (∃ id, idsOf e unit.1 id ∧ id ∉ Dicts.keys world.outcomes ∧ ¬ idsOfAll e past id) →
        Fits round6 parse e random said right unit.1 unit.2) :
    Leads (answers clients) (Sound good (Rows right))
      (fun reason session' world' => Going good said right session' world' ∧
        ∃ found, Walked e random resamples right first units world.outcomes world'.outcomes found ∧
          reason = found.bind (stopReason fixed3) ∧ (found.isSome → reason.isSome))
      (LeftUnits e random resamples fixed3 good right first units world.outcomes)
      (runUnits round6 parse e random resamples fixed3 units first) session world := by
  induction units generalizing session world first with
  | nil =>
    refine .pure ⟨going, none, .through (.inr (by simp)) (Gains.none _ ?_), rfl, by simp⟩
    simp [idsOfAll]
  | cons unit units ih =>
    obtain ⟨unit, i⟩ := unit
    -- The decisions of the unit, and the way over the rest from there.
    have decides : ∀ first, Leads (answers clients) (Sound good (Rows right))
        (fun reason session' world' => Going good said right session' world' ∧
          ∃ mid found, Gains (idsOf e unit) world.outcomes mid ∧
            Walked e random resamples right first units mid world'.outcomes found ∧
            reason = found.bind (stopReason fixed3) ∧ (found.isSome → reason.isSome))
        (fun stop _ world' => Sound good (Rows right) world' ∧ (stop = .unformatted →
          ∃ mid look, Gains (idsOf e unit) world.outcomes mid ∧
            Walked e random resamples right first units mid world'.outcomes (some look) ∧
            stopReason fixed3 look = none))
        (do
          runUnit round6 parse e unit (random.coin i)
          runUnits round6 parse e random resamples fixed3 units first) session world := by
      intro first
      apply Leads.bind
      apply (leads_runUnit honest going unit i ?_).mono _
        (fun _ _ _ left => ⟨left.1, fun is => absurd is left.2⟩)
      · rintro ⟨id, of, new⟩
        exact fits [] (unit, i) units rfl ⟨id, of, new, by simp [idsOfAll]⟩
      · rintro _ session' world' ⟨going, gains⟩
        apply (ih first going ?_).mono
        · rintro reason session'' world'' ⟨going, found, walked, named⟩
          exact ⟨going, _, found, gains, walked, named⟩
        · rintro stop session'' world'' ⟨sound, looked⟩
          refine ⟨sound, fun is => ?_⟩
          obtain ⟨look, walked, unnamed⟩ := looked is
          exact ⟨_, look, gains, walked, unnamed⟩
        · rintro past other rest rfl ⟨id, of, new, apart⟩
          refine fits ((unit, i) :: past) other rest rfl ⟨id, of, fun held => new (gains.keys held), ?_⟩
          rw [idsOfAll_cons]
          exact fun is => is.elim (fun here => new (gains.all id here)) apart
    unfold runUnits
    apply Leads.ite
    · rintro ⟨some_, outside⟩
      refine .bind (.ask ?_)
      rintro outcomes after ⟨loaded, rfl⟩
      refine ⟨going.sound, ?_⟩
      have looked : Looked e random resamples right after.outcomes
        ((looksOver e random resamples outcomes).head?.filter (·.crossed)) :=
        ⟨going.sound.2, outcomes, loaded, rfl⟩
      have none : Gains (idsOfAll e []) after.outcomes after.outcomes :=
        Gains.none _ (by simp [idsOfAll])
      cases found : (looksOver e random resamples outcomes).head?.filter (·.crossed) with
      | some look =>
        rw [found] at looked
        have halted : Walked e random resamples right first ([] ++ (unit, i) :: units) after.outcomes
          after.outcomes (some look) := .halted some_ (by simp) outside none looked
        cases named : stopReason fixed3 look with
        | none =>
          simp only [named]
          exact .throw ⟨going.sound, fun _ => ⟨look, halted, named⟩⟩
        | some reason =>
          simp only [named]
          exact .pure ⟨going, some look, halted, by simp [named], by simp⟩
      | none =>
        rw [found] at looked
        -- After its look a run goes on to the end.
        have passed : ∀ {mid new found}, Gains (idsOf e unit) after.outcomes mid →
            Walked e random resamples right [] units mid new found →
            found = Option.none ∧
              Walked e random resamples right first ([] ++ (unit, i) :: units) after.outcomes new .none := by
          intro mid new found gains walked
          cases walked with
          | through _ rest =>
            exact ⟨rfl, .passed some_ (by simp) outside none looked
              ((gains.trans rest).congr fun id => (idsOfAll_cons (unit, i) units id).symm)⟩
          | passed empty => exact absurd rfl empty
          | halted empty => exact absurd rfl empty
        apply (decides []).mono
        · rintro reason session' world' ⟨going, mid, found, gains, walked, named⟩
          obtain ⟨rfl, whole⟩ := passed gains walked
          exact ⟨going, .none, whole, named⟩
        · rintro stop session' world' ⟨sound, looked⟩
          refine ⟨sound, fun is => ?_⟩
          obtain ⟨mid, look, gains, walked, -⟩ := looked is
          cases (passed gains walked).1
    · intro inside
      have here : first = [] ∨ unit.group ∈ first := by
        by_contra apart
        push Not at apart
        exact inside ⟨apart.1, apart.2⟩
      apply (decides first).mono
      · rintro reason session' world' ⟨going, mid, found, gains, walked, named⟩
        exact ⟨going, found, walked.cons here gains, named⟩
      · rintro stop session' world' ⟨sound, looked⟩
        refine ⟨sound, fun is => ?_⟩
        obtain ⟨mid, look, gains, walked, unnamed⟩ := looked is
        exact ⟨look, walked.cons here gains, unnamed⟩

/-- What a run has done that returns or is left at its look: it was cut short by a budget, or it has
walked to its end or to a look. -/
def Ran (e : Experiment M C F) (random : Random) (resamples : Nat) (fixed3 : F → String)
    (right : OutcomeId → Outcome F → Prop) (stopEarly : Bool) (old new : List (OutcomeId × Outcome F)) :
    Except Stop (RunSummary F) → Prop
  | .ok summary => summary.status = .unfinished ∨
    ∃ found, Walked e random resamples right (if stopEarly then firstGroups e random else [])
        (e.walk random).zipIdx old new found ∧
      summary.status = (if found.isSome then .stopped else .done) ∧
      (found.isSome → (found.bind (stopReason fixed3)).isSome)
  | .error stop => stop = .unformatted →
    ∃ look, Walked e random resamples right (if stopEarly then firstGroups e random else [])
        (e.walk random).zipIdx old new (some look) ∧
      stopReason fixed3 look = none

variable {stopEarly : Bool}

omit [DecidableEq M] in
theorem Ran.all_of_done {right : OutcomeId → Outcome F → Prop}
    {old new : List (OutcomeId × Outcome F)} {summary : RunSummary F}
    (ran : Ran e random resamples fixed3 right stopEarly old new (.ok summary))
    (done : summary.status = .done) {unit : Folds.Unit} (listed : unit ∈ e.units) {id : OutcomeId}
    (of : idsOf e unit id) : id ∈ Dicts.keys new := by
  obtain ⟨i, place⟩ := mem_zipIdx_walk random listed
  rcases ran with unfinished | ⟨found, walked, status, -⟩
  · rw [done] at unfinished
    cases unfinished
  · generalize places : (e.walk random).zipIdx = walk at walked place
    cases walked with
    | through _ gains => exact gains.all id ⟨_, place, of⟩
    | passed _ _ _ before _ gains =>
      rcases mem_append.mp place with among | among
      · exact gains.keys (before.all id ⟨_, among, of⟩)
      · exact gains.all id ⟨_, among, of⟩
    | halted =>
      rw [done] at status
      cases status

/-- Every run keeps its rows right, and ends only as its outcomes allow. -/
theorem safe_run (honest : Honest clients e.terms good said)
    (sound : Sound good (Rows right) world)
    (fits : ∀ past unit rest, (e.walk random).zipIdx = past ++ unit :: rest →
      (∃ id, idsOf e unit.1 id ∧ id ∉ Dicts.keys world.outcomes ∧ ¬ idsOfAll e past id) →
        Fits round6 parse e random said right unit.1 unit.2) :
    Safe (answers clients) (Sound good (Rows right))
      (fun result world' => Sound good (Rows right) world' ∧
        Ran e random resamples fixed3 right stopEarly world.outcomes world'.outcomes result)
      (runProgram round6 parse e random resamples fixed3 stopEarly) world := by
  -- however the walk ends, only a summary is written behind it
  have ends : ∀ (status : Status) (stoppedAt : Option Nat) (reason : String) (session : Session M)
      (world' : World M F), Sound good (Rows right) world' →
      (∀ summary : RunSummary F, summary.status = status →
        Ran e random resamples fixed3 right stopEarly world.outcomes world'.outcomes (.ok summary)) →
      Leads (answers clients) (Sound good (Rows right))
        (fun summary _ world' => Sound good (Rows right) world' ∧
          Ran e random resamples fixed3 right stopEarly world.outcomes world'.outcomes (.ok summary))
        (fun stop _ world' => Sound good (Rows right) world' ∧
          Ran e random resamples fixed3 right stopEarly world.outcomes world'.outcomes (.error stop))
        (do
          let session ← get
          let summary := summaryOf round6 e session status stoppedAt reason
          ask (.putRun summary)
          return summary) session world' := by
    intro status stoppedAt reason session world' sound ran
    refine .bind (.get (.bind (.ask ?_)))
    rintro _ after rfl
    exact ⟨sound, Leads.pure ⟨sound, ran _ rfl⟩⟩
  suffices leads : Leads (answers clients) (Sound good (Rows right))
      (fun summary _ world' => Sound good (Rows right) world' ∧
        Ran e random resamples fixed3 right stopEarly world.outcomes world'.outcomes (.ok summary))
      (fun stop _ world' => Sound good (Rows right) world' ∧
        Ran e random resamples fixed3 right stopEarly world.outcomes world'.outcomes (.error stop))
      (run round6 parse e random resamples fixed3 stopEarly) {} world by
    apply Safe.bind
    apply Safe.mono _ leads
    rintro ⟨stop | summary, session⟩ final holds
    · exact holds
    · exact holds
  apply Leads.ite
  · intro _
    exact .throw ⟨sound, by simp [Ran]⟩
  intro _
  refine .bind (.ask ?_)
  rintro outcomes world ⟨loaded, rfl⟩
  refine ⟨sound, Leads.bind (.change (.bind ?_))⟩
  -- the outcomes that were loaded are those of the world
  have going : Going good said right
      { ({} : Session M) with
        have_ := outcomes.map (·.id)
        decided := e.manifest.arms.map fun arm => (arm.1, 0)
        skipped := e.manifest.arms.map fun arm => (arm.1, 0) } world :=
    ⟨sound, fun name key entry known => by simp at known, has_loaded sound loaded⟩
  refine .tryCatch (.bind ?_)
  apply (leads_runUnits honest (e.walk random).zipIdx
    (if stopEarly then firstGroups e random else []) going fits).mono
  · rintro reason session' world' ⟨going, found, walked, rfl, same⟩
    cases found with
    | none =>
      exact .pure (ends _ _ _ _ _ going.sound fun summary is =>
        .inr ⟨none, walked, is, by simp⟩)
    | some look =>
      -- the walk stops only at a look whose reason is named
      obtain ⟨text, named⟩ := Option.isSome_iff_exists.mp (same rfl)
      simp only [named]
      exact .pure (ends _ _ _ _ _ going.sound fun summary is =>
        .inr ⟨some look, walked, is, same⟩)
  · rintro stop session' world' ⟨sound, looked⟩
    cases stop with
    | exhausted reason => exact .pure (ends _ _ _ _ _ sound fun summary is => .inl is)
    | unformatted => exact .throw ⟨sound, fun is => looked is⟩
    | raised => exact .throw ⟨sound, by simp [Ran]⟩

/-- What holds at the start and each replicate keeps, the whole run keeps. -/
theorem leads_run_keeps {keep : Session M → World M F → Prop}
    (first : keep {} world)
    (loaded : ∀ outcomes : List (Outcome F), keep
      { ({} : Session M) with
        have_ := outcomes.map (·.id)
        decided := e.manifest.arms.map fun arm => (arm.1, 0)
        skipped := e.manifest.arms.map fun arm => (arm.1, 0) } world)
    (decides : ∀ unit ∈ e.units, ∀ arm ∈ e.armNames, ∀ position, ∀ replicate < e.repeats arm,
      ∀ session world, keep session world → Leads (answers clients) (fun _ => True) (fun _ => keep)
        (fun _ => keep) (runReplicate round6 parse e unit arm position replicate) session world)
    (summarised : ∀ session (world : World M F) summary, keep session world →
      keep session { world with summary := some summary }) :
    Leads (answers clients) (fun _ => True) (fun _ => keep) (fun _ => keep)
      (run round6 parse e random resamples fixed3 stopEarly) {} world := by
  have units : ∀ (units : List (Folds.Unit × Nat)) (first : List String) session world,
      (∀ place ∈ units, place.1 ∈ e.units) → keep session world →
      Leads (answers clients) (fun _ => True) (fun _ => keep) (fun _ => keep)
        (runUnits round6 parse e random resamples fixed3 units first) session world := by
    intro units
    -- by the units that are left to walk; the property is kept by every replicate
    induction units with
    | nil => exact fun _ _ _ _ kept => Leads.pure kept
    | cons place units ih =>
      obtain ⟨unit, i⟩ := place
      intro first session world listed kept
      obtain ⟨here, later⟩ := forall_mem_cons.mp listed
      -- the arms and the replicates of a unit, then the rest of the walk
      have goes : ∀ first session world, keep session world →
          Leads (answers clients) (fun _ => True) (fun _ => keep) (fun _ => keep)
            (do
              runUnit round6 parse e unit (random.coin i)
              runUnits round6 parse e random resamples fixed3 units first) session world := by
        intro first session world kept
        apply Leads.bind
        apply (Leads.forM (fun _ => keep) kept ?_).mono
          (fun _ session world kept => ih first session world later kept) (fun _ _ _ kept => kept)
        rintro before ⟨arm, position⟩ after whole session world kept
        have member : (arm, position) ∈ (ordered e (random.coin i)).zipIdx := by simp [whole]
        have named := (mem_ordered _).mp (fst_mem_of_mem_zipIdx member)
        apply Leads.forM (fun _ => keep) kept
        intro before replicate after whole session world kept
        have counted : replicate ∈ List.range (e.repeats arm) := by simp [whole]
        have below := mem_range.mp counted
        exact decides unit here arm named position replicate below session world kept
      unfold runUnits
      apply Leads.ite
      · intro _
        refine .bind (.ask ?_)
        rintro outcomes after ⟨-, rfl⟩
        refine ⟨trivial, ?_⟩
        -- a look that crosses a boundary stops the walk, if its reason is named
        cases (looksOver e random resamples outcomes).head?.filter (·.crossed) with
        | none => exact goes [] session _ kept
        | some look =>
          cases named : stopReason fixed3 look with
          | none => simpa only [named] using Leads.throw kept
          | some reason => simpa only [named] using Leads.pure kept
      · exact fun _ => goes first session world kept
  apply Leads.ite
  · exact fun _ => Leads.throw first
  intro _
  refine .bind (.ask ?_)
  rintro outcomes after ⟨-, rfl⟩
  refine ⟨trivial, Leads.bind (.change (.bind ?_))⟩
  -- however the walk ends, a summary is written last
  have ends : ∀ (status : Status) (stoppedAt : Option Nat) (reason : String) session world,
      keep session world → Leads (answers clients) (fun _ => True) (fun _ => keep) (fun _ => keep)
        (do
          let session ← get
          let summary := summaryOf round6 e session status stoppedAt reason
          ask (.putRun summary)
          return summary) session world := by
    intro status stoppedAt reason session world kept
    refine .bind (.get (.bind (.ask ?_)))
    rintro _ after rfl
    exact ⟨trivial, Leads.pure (summarised _ _ _ kept)⟩
  refine .tryCatch (.bind ?_)
  apply (units (e.walk random).zipIdx (if stopEarly then firstGroups e random else []) _ _
    (fun place member => mem_walk.mp (fst_mem_of_mem_zipIdx member)) (loaded outcomes)).mono
  · intro reason session' world' kept
    cases reason with
    | none => exact .pure (ends _ _ _ _ _ kept)
    | some reason => exact .pure (ends _ _ _ _ _ kept)
  · intro stop session' world' kept
    cases stop with
    | exhausted reason => exact .pure (ends _ _ _ _ _ kept)
    | unformatted => exact .throw kept
    | raised => exact .throw kept

end Run

end OpenUltraSast.Learn.Experiments
