import OpenUltraSast.Learn.Filled
import OpenUltraSast.Learn.Resumed

/-!
# A run after a fill

The callers of the arms that a fill was for find every response in the store, and ask for all that
the fill has paid for of each unit that they decide.
-/

namespace OpenUltraSast.Learn.Experiments

open Collections Programs Floats List

variable {M C F : Type}

/-- The callers have asked for more. -/
def Grows (session session' : Session M) : Prop :=
  ∀ name key, key ∈ (session.callers name).keys → key ∈ (session'.callers name).keys

theorem Grows.refl (session : Session M) : Grows session session := fun _ _ held => held

theorem Grows.trans {first second third : Session M} (one : Grows first second)
    (two : Grows second third) : Grows first third :=
  fun name key held => two name key (one name key held)

variable {change : Caller M → Caller M}

private theorem grows_update {session : Session M} {name : String}
    (more : ∀ caller, ∀ key ∈ caller.keys, key ∈ (change caller).keys) :
    Grows session (session.update name change) := by
  intro other key held
  by_cases same : other = name
  · subst same
    rw [Session.update_self]
    exact more _ key held
  · rw [Session.update_other _ _ same]
    exact held

variable [DecidableEq M]

/-- The responses that a fill has left are still there, the callers with a store have heard no
others, and some of the callers have found every response that they asked for. -/
structure Served (stored : List (Key M × Entry)) (terms : String → Terms F) (names : List String)
    (session : Session M) (world : World M F) : Prop where
  kept : ∀ key entry, stored.lookup key = some entry → world.responses.lookup key = some entry
  heard : ∀ name, (terms name).store = true → ∀ key entry heard, stored.lookup key = some entry →
    (session.callers name).memory.lookup key = some heard → heard = entry
  replays : ∀ name ∈ names, (session.callers name).calls = 0 ∧
    (session.callers name).replayed = (session.callers name).keys.length

section Serving
variable {stored : List (Key M × Entry)} {terms : String → Terms F} {names : List String}
  {session : Session M} {world : World M F} {clients : Clients M} {name : String}

private theorem served_start (responses : List (Key M × Entry)) {session : Session M}
    (fresh : session.callers = fun _ => {}) {world : World M F} (same : world.responses = responses) :
    Served responses terms names session world where
  kept key entry held := same ▸ held
  heard name _ key entry heard _ known := by simp [fresh] at known
  replays name _ := by simp [fresh]

theorem Served.found (served : Served stored terms names session world)
    (store : (terms name).store = true) {key : Key M} {entry : Entry}
    (held : stored.lookup key = some entry) :
    found terms session world.responses name key = some entry := by
  unfold Experiments.found
  cases known : (session.callers name).memory.lookup key with
  | some heard => simp [served.heard name store key entry heard held known]
  | none => simp [store, served.kept key entry held]

theorem Served.update (served : Served stored terms names session world)
    {after : World M F}
    (kept : ∀ key entry, stored.lookup key = some entry → after.responses.lookup key = some entry)
    (heard : (terms name).store = true → ∀ key entry heard, stored.lookup key = some entry →
      ((change (session.callers name)).memory).lookup key = some heard → heard = entry)
    (replays : name ∈ names → (change (session.callers name)).calls = 0 ∧
      (change (session.callers name)).replayed = (change (session.callers name)).keys.length) :
    Served stored terms names (session.update name change) after where
  kept := kept
  heard other store key entry heard' held known := by
    by_cases same : other = name
    · subst same
      rw [Session.update_self] at known
      exact heard store key entry heard' held known
    · rw [Session.update_other _ _ same] at known
      exact served.heard other store key entry heard' held known
  replays other member := by
    by_cases same : other = name
    · subst same
      rw [Session.update_self]
      exact replays member
    · rw [Session.update_other _ _ same]
      exact served.replays other member

/-- Where a piece of a run leaves its callers, at its end or by an exception. -/
structure Serves (stored : List (Key M × Entry)) (terms : String → Terms F) (names : List String)
    (session : Session M) (world : World M F) (session' : Session M) (world' : World M F) :
    Prop where
  served : Served stored terms names session' world'
  calm : Calm session world session' world'
  grows : Grows session session'
  skipped : session'.skipped = session.skipped

theorem Serves.refl (served : Served stored terms names session world) :
    Serves stored terms names session world session world :=
  ⟨served, Calm.refl _ _, Grows.refl _, rfl⟩

theorem Serves.trans {session' session'' : Session M} {world' world'' : World M F}
    (first : Serves stored terms names session world session' world')
    (second : Serves stored terms names session' world' session'' world'') :
    Serves stored terms names session world session'' world'' :=
  ⟨second.served, first.calm.trans second.calm, first.grows.trans second.grows,
    second.skipped.trans first.skipped⟩

variable {salt : String} {messages : M} {temperature : ℚ} {sample : String}

/-- A stored call is served from the memory, with no call to the model. -/
theorem leads_servedAsk (served : Served stored terms names session world)
    (known : name ∈ names → (terms name).store = true ∧ ∃ entry, stored.lookup
      (keyOf terms name messages temperature (salt ++ sample)) = some entry) :
    Leads (answers clients) (fun _ => True)
      (fun text session' world' => Serves stored terms names session world session' world' ∧
        keyOf terms name messages temperature (salt ++ sample) ∈ (session'.callers name).keys ∧
        ((terms name).store = true → ∀ entry, stored.lookup
          (keyOf terms name messages temperature (salt ++ sample)) = some entry →
            text = entry.content.getD ""))
      (fun stop session' world' => Serves stored terms names session world session' world' ∧
        (name ∈ names → stop = .raised))
      (askCaller terms name salt messages temperature sample) session world := by
  set key := keyOf terms name messages temperature (salt ++ sample)
  -- A caller that keeps an entry has heard no other for what the fill has left.
  have hears : ∀ entry, ((terms name).store = true → ∀ left, stored.lookup key = some left →
      entry = left) → (terms name).store = true → ∀ other left heard,
      stored.lookup other = some left →
      (Dicts.set (session.callers name).memory key entry).lookup other = some heard →
      heard = left := by
    intro entry same store other left heard held known
    rw [Dicts.lookup_set] at known
    split at known
    next here =>
      cases known
      exact same store left (here ▸ held)
    next => exact served.heard name store other left heard held known
  have grows : ∀ change : Caller M → Caller M,
      (∀ caller, (change caller).keys = caller.keys ++ [key]) →
      Grows session (session.update name change) :=
    fun change keys => grows_update fun caller other member => by
      rw [keys]
      exact mem_append_left _ member
  apply leads_askCaller trivial
  · intro entry found_
    have same : (terms name).store = true → ∀ left, stored.lookup key = some left →
        entry = left := by
      intro store left held
      exact Option.some.inj (found_.symm.trans (served.found store held))
    refine ⟨⟨served.update served.kept (hears entry same) ?_, ⟨rfl, rfl⟩, grows _ fun _ => rfl, rfl⟩,
      ?_, ?_⟩
    · intro member
      obtain ⟨calls, replayed⟩ := served.replays name member
      refine ⟨calls, ?_⟩
      simp only [Caller.hits, Caller.keeps, Caller.asks, length_append, length_singleton]
      omega
    · rw [Session.update_self]
      exact mem_append_right _ (mem_singleton_self key)
    · intro store left held
      rw [same store left held]
  · intro unknown
    -- The caller is none of those that find everything.
    have absent : (terms name).store = true → stored.lookup key = none := by
      intro store
      by_contra held
      obtain ⟨entry, held⟩ := Option.ne_none_iff_exists'.mp held
      rw [served.found store held] at unknown
      cases unknown
    have other : name ∉ names := by
      intro member
      obtain ⟨store, entry, held⟩ := known member
      rw [absent store] at held
      cases held
    refine ⟨fun stop _ => ⟨⟨served.update served.kept (served.heard name) (absurd · other),
      ⟨rfl, rfl⟩, grows _ fun _ => rfl, rfl⟩, (absurd · other)⟩, fun _ content usage _ => ⟨trivial, ?_⟩⟩
    have fresh : (terms name).store = true → ∀ left, stored.lookup key = some left →
        (⟨content, (terms name).model, usage⟩ : Entry) = left := by
      intro store left held
      rw [absent store] at held
      cases held
    refine ⟨⟨served.update ?_ (hears _ fresh) (absurd · other), ⟨rfl, ?_⟩, grows _ fun _ => rfl, rfl⟩,
      ?_, ?_⟩
    · intro key' entry held
      unfold World.keep
      split
      next store =>
        rw [Dicts.lookup_set, if_neg]
        · exact served.kept key' entry held
        · rintro rfl
          rw [absent store] at held
          cases held
      next => exact served.kept key' entry held
    · unfold World.keep
      split <;> rfl
    · rw [Session.update_self]
      exact mem_append_right _ (mem_singleton_self key)
    · intro store left held
      rw [absent store] at held
      cases held

end Serving

structure SameTerms (filling : Terms F) (terms : String → Terms F) (names : List String) : Prop where
  model : ∀ name ∈ names, (terms name).model = filling.model
  params : ∀ name ∈ names, (terms name).params = filling.params
  store : ∀ name ∈ names, (terms name).store = true

def Sample.request (sample : Sample M) (family salt : String) : FillRequest M :=
  ⟨family, sample.prompt, sample.temperature, salt ++ sample.sample⟩

section Deciding
variable {stored : List (Key M × Entry)} {filling : Terms F} {terms : String → Terms F}
  {names : List String} {parse : String → List Nat → Option (Answer F)} {session : Session M}
  {world : World M F} {clients : Clients M} {name salt : String} {family : String}

omit [DecidableEq M] in
theorem SameTerms.key (same : SameTerms filling terms names) (member : name ∈ names)
    (request : FillRequest M) : keyOf terms name request.prompt.messages request.temperature
      request.sample = request.key filling := by
  simp only [keyOf, FillRequest.key, same.model name member, same.params name member]

/-- Everything that some requests ask for is among what a caller has asked for. -/
def Heeded (filling : Terms F) (parse : String → List Nat → Option (Answer F))
    (stored : List (Key M × Entry)) (name : String) (request : FillRequest M) (session : Session M) :
    Prop :=
  ∀ key, Wants filling parse stored request key → key ∈ (session.callers name).keys

theorem Heeded.mono {request : FillRequest M} {session' : Session M}
    (heeded : Heeded filling parse stored name request session) (grows : Grows session session') :
    Heeded filling parse stored name request session' :=
  fun key wanted => grows name key (heeded key wanted)

variable [Floats F]

section
variable (same : SameTerms filling terms names)
include same

theorem leads_servedSample (served : Served stored terms names session world) (sample : Sample M)
    (settled : name ∈ names → Settled filling parse stored (sample.request family salt)) :
    Leads (answers clients) (fun _ => True)
      (fun _ session' world' => Serves stored terms names session world session' world' ∧
        (name ∈ names → Heeded filling parse stored name (sample.request family salt) session'))
      (fun stop session' world' => Serves stored terms names session world session' world' ∧
        (name ∈ names → stop = .raised))
      (sampleAnswer terms parse name salt sample.prompt sample.temperature sample.sample)
      session world := by
  have first (member : name ∈ names) : keyOf terms name sample.prompt.messages sample.temperature
      (salt ++ sample.sample) = (sample.request family salt).key filling :=
    same.key member (sample.request family salt)
  have second (member : name ∈ names) : keyOf terms name sample.prompt.messages 0
      (salt ++ (sample.sample ++ ":retry")) = (sample.request family salt).retry.key filling := by
    rw [← String.append_assoc]
    exact same.key member (sample.request family salt).retry
  apply Leads.bind
  apply (leads_servedAsk served fun member => ⟨same.store name member, ?_⟩).mono
    (fun text session' world' asked => ?_) (fun _ _ _ serves => serves)
  · rw [first member]
    exact settled member _ (.inl rfl)
  obtain ⟨serves, asked, text_⟩ := asked
  cases parsed : parse text sample.prompt.validLines with
  | some answer =>
    refine .pure ⟨serves, ?_⟩
    rintro member key (rfl | ⟨rfl, entry, here, bad⟩)
    · exact first member ▸ asked
    · -- The response that is stored does not parse, but the one that was heard does.
      rw [text_ (same.store name member) entry (first member ▸ here)] at parsed
      rw [unparsable, Option.isNone_iff_eq_none] at bad
      exact absurd (parsed.symm.trans bad) (by simp)
  | none =>
    apply Leads.bind
    apply (leads_servedAsk serves.served fun member => ⟨same.store name member, ?_⟩).mono
      (fun retry session'' world'' again => ?_) (fun _ _ _ more => ⟨serves.trans more.1, more.2⟩)
    · obtain ⟨entry, here⟩ := settled member _ (.inl rfl)
      rw [second member]
      refine settled member _ (.inr ⟨rfl, entry, here, ?_⟩)
      rw [text_ (same.store name member) entry (first member ▸ here)] at parsed
      rw [unparsable, Option.isNone_iff_eq_none]
      exact parsed
    · obtain ⟨more, again, -⟩ := again
      refine .pure ⟨serves.trans more, ?_⟩
      rintro member key (rfl | ⟨rfl, -⟩)
      · exact more.grows _ _ (first member ▸ asked)
      · exact second member ▸ again

private theorem leads_servedAnswers (samples : List (Sample M))
    (served : Served stored terms names session world)
    (settled : name ∈ names → ∀ sample ∈ samples,
      Settled filling parse stored (sample.request family salt)) :
    Leads (answers clients) (fun _ => True)
      (fun _ session' world' => Serves stored terms names session world session' world' ∧
        (name ∈ names → ∀ sample ∈ samples,
          Heeded filling parse stored name (sample.request family salt) session'))
      (fun stop session' world' => Serves stored terms names session world session' world' ∧
        (name ∈ names → stop = .raised))
      (answersTo terms parse name salt samples) session world := by
  induction samples generalizing session world with
  | nil => exact .pure ⟨.refl served, by simp⟩
  | cons sample samples ih =>
    apply Leads.bind
    apply (leads_servedSample same served sample fun member =>
      settled member sample mem_cons_self).mono _ (fun _ _ _ serves => serves)
    rintro answer session' world' ⟨serves, heeded⟩
    apply Leads.bind
    apply (ih serves.served fun member other among =>
      settled member other (mem_cons_of_mem _ among)).mono _ (fun _ _ _ more => ⟨serves.trans more.1, more.2⟩)
    rintro given session'' world'' ⟨more, rest⟩
    refine .pure ⟨serves.trans more, fun member => forall_mem_cons.mpr ⟨?_, rest member⟩⟩
    exact (heeded member).mono more.grows

private theorem leads_servedDecide
    (served : Served stored terms names session world) {C : Type} (round6 : F → F) (family : String)
    (program : Program M C) (candidate : C) (fold : Folds.Fold) (seed : Int)
    (settled : name ∈ names → ∀ samples, prepareSamples program candidate fold seed = some samples →
      ∀ sample ∈ samples, Settled filling parse stored (sample.request family salt)) :
    Leads (answers clients) (fun _ => True)
      (fun _ session' world' => Serves stored terms names session world session' world' ∧
        (name ∈ names → ∀ samples, prepareSamples program candidate fold seed = some samples →
          ∀ sample ∈ samples, Heeded filling parse stored name (sample.request family salt) session'))
      (fun stop session' world' => Serves stored terms names session world session' world' ∧
        (name ∈ names → stop = .raised))
      (program.decide terms round6 parse candidate fold name salt seed) session world := by
  have start := Serves.refl served
  unfold Program.decide
  cases prepared : prepareSamples program candidate fold seed with
  | none => exact .throw ⟨start, fun _ => rfl⟩
  | some samples =>
    apply Leads.bind
    apply (leads_servedAnswers same samples served fun member => settled member samples prepared).mono
      _ (fun _ _ _ serves => serves)
    rintro given session' world' ⟨serves, heeded⟩
    cases samples with
    | nil => exact .throw ⟨serves, fun _ => rfl⟩
    | cons first rest =>
      refine .pure ⟨serves, fun member samples is => ?_⟩
      cases is
      exact heeded member

end

end Deciding

variable {unit : Folds.Unit}

section Runs
variable {round6 : F → F} {parse : String → List Nat → Option (Answer F)}

def Experiment.Sole (e : Experiment M C F) (unit : Folds.Unit) : Prop :=
  ∀ other ∈ e.units, other.unit = unit.unit → other = unit

variable (fill : Fill M C F) (filling : Terms F) (parse) (stored : List (Key M × Entry))
  (caller : String → String)

def Fill.callers : List String := fill.scoring.map caller

/-- What a run keeps after a fill: its callers of the scoring arms have only replayed, and have
asked for all that the fill asks for of the units that are decided anew. -/
structure Replaying (old : List (OutcomeId × Outcome F)) (session : Session M) (world : World M F) :
    Prop where
  served : Served stored fill.experiment.terms (fill.callers caller) session world
  decided : ∀ unit ∈ fill.experiment.units, fill.experiment.Sole unit → ∀ arm ∈ fill.scoring,
    ∀ replicate < fill.repeats arm, ⟨caller arm, unit.unit, replicate⟩ ∉ Dicts.keys old →
      ⟨caller arm, unit.unit, replicate⟩ ∈ Dicts.keys world.outcomes →
        ∀ request, RequestOf fill unit arm replicate request →
          Heeded filling parse stored (caller arm) request session

variable {fill filling parse stored caller} {old : List (OutcomeId × Outcome F)}
  {session session' : Session M} {world world' : World M F} {clients : Clients M}

section
variable (replaying : Replaying parse fill filling stored caller old session world)
include replaying

theorem Replaying.kept
    (serves : Serves stored fill.experiment.terms (fill.callers caller) session world session' world') :
    Replaying parse fill filling stored caller old session' world' where
  served := serves.served
  decided unit listed sole arm scored replicate below new held request of := by
    rw [serves.calm.outcomes] at held
    exact (replaying.decided unit listed sole arm scored replicate below new held request of).mono
      serves.grows

theorem Replaying.same
    (callers : session'.callers = session.callers) (responses : world'.responses = world.responses)
    (outcomes : world'.outcomes = world.outcomes) :
    Replaying parse fill filling stored caller old session' world' := by
  obtain ⟨⟨kept, heard, replays⟩, decided⟩ := replaying
  refine ⟨⟨responses ▸ kept, ?_, ?_⟩, ?_⟩
  · rw [callers]
    exact heard
  · rw [callers]
    exact replays
  · rw [outcomes]
    simp only [Heeded, callers]
    exact decided

theorem Replaying.put
    {o : Outcome F} (listed : unit ∈ fill.experiment.units) (of : o.unit = unit.unit)
    (heeded : ∀ arm ∈ fill.scoring, caller arm = o.arm → ∀ request,
      RequestOf fill unit arm o.replicate request →
        Heeded filling parse stored (caller arm) request session) :
    Replaying parse fill filling stored caller old session
      { world with outcomes := Dicts.set world.outcomes o.id o } where
  served := ⟨replaying.served.kept, replaying.served.heard, replaying.served.replays⟩
  decided other listed' sole arm scored replicate below new held request requested := by
    rcases Dicts.mem_keys_set.mp held with is | before
    · -- The outcome is that of the unit itself, which no other unit shares its id with.
      simp only [Outcome.id, OutcomeId.mk.injEq] at is
      obtain ⟨arm_, unit_, rfl⟩ := is
      obtain rfl : unit = other := sole unit listed (of.symm.trans unit_.symm)
      exact heeded arm scored arm_ request requested
    · exact replaying.decided other listed' sole arm scored replicate below new before request requested

end

def AllSettled (parse : String → List Nat → Option (Answer F)) (fill : Fill M C F)
    (filling : Terms F) (stored : List (Key M × Entry)) : Prop :=
  ∀ unit ∈ fill.experiment.units, ∀ arm ∈ fill.scoring, ∀ replicate < fill.repeats arm, ∀ request,
    RequestOf fill unit arm replicate request → Settled filling parse stored request

theorem allSettled {requests : List (FillRequest M)} (prepared : fill.requests = some requests)
    (filled : Filled filling parse requests world world') :
    AllSettled parse fill filling world'.responses :=
  fun unit listed arm scored replicate below request of => filled.settled request
    ((mem_requests prepared).mpr ⟨unit, listed, arm, scored, replicate, below, of⟩)

variable [Floats F]

/-- So is each replicate of a unit whose requests are all settled. -/
theorem leads_servedUnit {arm name : String} {replicate : Nat} {candidate : C} {program : Program M C}
    {fold : Folds.Fold} (same : SameTerms filling fill.experiment.terms (fill.callers caller))
    (settled : AllSettled parse fill filling stored) (listed : unit ∈ fill.experiment.units)
    (scored : name ∈ fill.callers caller → arm ∈ fill.scoring) (below : replicate < fill.repeats arm)
    (there : fill.experiment.candidate unit = some candidate)
    (compiled : fill.experiment.programOf arm unit.family = some program)
    (folded : fill.experiment.foldOf unit = some fold)
    (served : Served stored fill.experiment.terms (fill.callers caller) session world) :
    Leads (answers clients) (fun _ => True)
      (fun _ session' world' =>
        Serves stored fill.experiment.terms (fill.callers caller) session world session' world' ∧
          (name ∈ fill.callers caller → ∀ request, RequestOf fill unit arm replicate request →
            Heeded filling parse stored name request session'))
      (fun stop session' world' =>
        Serves stored fill.experiment.terms (fill.callers caller) session world session' world' ∧
          (name ∈ fill.callers caller → stop = .raised))
      (program.decide fill.experiment.terms round6 parse candidate fold name (salt replicate)
        fill.experiment.manifest.foldSeed) session world := by
  apply (leads_servedDecide same served round6 unit.family program candidate fold
    fill.experiment.manifest.foldSeed ?_).mono _ (fun _ _ _ serves => serves)
  · intro member samples sampled sample drawn
    exact settled unit listed arm (scored member) replicate below _
      ⟨candidate, program, fold, samples, there, compiled, folded, sampled, sample, drawn, rfl⟩
  · rintro decision session' world' ⟨serves, heeded⟩
    refine ⟨serves, fun member request of => ?_⟩
    -- A request of the unit is one of this program's samples.
    obtain ⟨candidate', program', fold', samples, there', compiled', folded', sampled, sample,
      drawn, rfl⟩ := of
    obtain rfl : candidate = candidate' := Option.some.inj (there.symm.trans there')
    obtain rfl : program = program' := Option.some.inj (compiled.symm.trans compiled')
    obtain rfl : fold = fold' := Option.some.inj (folded.symm.trans folded')
    exact heeded member samples sampled sample drawn

variable {arm : String}

private theorem leads_replayReplicate (program : fill.experiment.manifest.kind = "program")
    (same : SameTerms filling fill.experiment.terms (fill.callers id))
    (settled : AllSettled parse fill filling stored) (listed : unit ∈ fill.experiment.units)
    {replicate : Nat} (below : replicate < fill.experiment.repeats arm) (position : Nat)
    (replaying : Replaying parse fill filling stored id old session world) :
    Leads (answers clients) (fun _ => True)
      (fun _ => Replaying parse fill filling stored id old)
      (fun _ => Replaying parse fill filling stored id old)
      (runReplicate round6 parse fill.experiment unit arm position replicate) session world := by
  have repeats : replicate < fill.repeats arm := by
    rw [Fill.repeats, if_pos program]
    exact below
  have named : arm ∈ fill.callers id ↔ arm ∈ fill.scoring := by simp [Fill.callers]
  refine .bind (.get (.ite ?_ ?_))
  · exact fun _ => Leads.change (replaying.same rfl rfl rfl)
  intro _
  apply Leads.bind
  -- what is decided is stored and counted, which asks no caller
  suffices decides : Leads (answers clients) (fun _ => True)
      (fun _ session' world' => Serves stored fill.experiment.terms (fill.callers id) session world
          session' world' ∧ (arm ∈ fill.callers id → ∀ request,
            RequestOf fill unit arm replicate request →
              Heeded filling parse stored arm request session'))
      (fun _ session' world' => Serves stored fill.experiment.terms (fill.callers id) session world
        session' world')
      (decideUnit round6 parse fill.experiment unit arm replicate) session world by
    apply decides.mono _ (fun _ _ _ serves => replaying.kept serves)
    rintro decision session' world' ⟨serves, heeded⟩
    refine .bind (.get (.bind (.ask ?_)))
    rintro _ after rfl
    refine ⟨trivial, Leads.change (((replaying.kept serves).put listed rfl ?_).same rfl rfl rfl)⟩
    rintro other scored rfl request of
    -- the outcome that is put is the one whose requests were heeded
    exact heeded (named.mpr scored) request of
  have start := Serves.refl replaying.served
  unfold decideUnit
  cases there : fill.experiment.candidate unit with
  | none => exact .throw start
  | some candidate =>
    cases compiled : fill.experiment.programOf arm unit.family with
    | none => exact .throw start
    | some program =>
      cases folded : fill.experiment.foldOf unit with
      | none => exact .throw start
      | some fold =>
        apply (leads_servedUnit same settled listed named.mp repeats there compiled folded
          replaying.served).mono (fun _ _ _ held => held)
        exact fun _ _ _ left => left.1

private theorem leads_replayRuleUnit {model : String → String} {metered : Bool}
    (one : fill.scoring = [arm])
    (alike : ∀ family, fill.experiment.programOf arm family = fill.experiment.programOf "A" family)
    (same : SameTerms filling fill.experiment.terms (fill.callers fun _ => scoreArm))
    (settled : AllSettled parse fill filling stored) (below : 0 < fill.repeats arm)
    (listed : unit ∈ fill.experiment.units)
    (replaying : Replaying parse fill filling stored (fun _ => scoreArm) old session world) :
    Leads (answers clients) (fun _ => True)
      (fun _ session' world' =>
        Replaying parse fill filling stored (fun _ => scoreArm) old session' world' ∧
          session'.have_ = session.have_ ∧
          session'.skipped.lookup missVerdict = session.skipped.lookup missVerdict ∧
          Grows session session' ∧
          (⟨scoreArm, unit.unit, 0⟩ ∈ session.have_ ∨ ∀ request, RequestOf fill unit arm 0 request →
            Heeded filling parse stored scoreArm request session'))
      (fun _ => Replaying parse fill filling stored (fun _ => scoreArm) old)
      (RuleRun.runUnit round6 parse ⟨fill.experiment, model, metered⟩ unit) session world := by
  have named : scoreArm ∈ fill.callers fun _ => scoreArm := by simp [Fill.callers, one]
  refine .bind (.get (.ite ?_ ?_))
  · intro held
    refine .change ⟨replaying.same rfl rfl rfl, rfl, ?_, fun _ _ held => held, .inl held⟩
    exact (Dicts.lookup_set _ _ _ _).trans (if_neg (by decide))
  intro _
  -- The decision, which finds all its responses.
  have decides : Leads (answers clients) (fun _ => True)
      (fun _ session' world' => Serves stored fill.experiment.terms (fill.callers fun _ => scoreArm)
          session world session' world' ∧ ∀ request, RequestOf fill unit arm 0 request →
            Heeded filling parse stored scoreArm request session')
      (fun stop session' world' => Serves stored fill.experiment.terms
        (fill.callers fun _ => scoreArm) session world session' world' ∧ stop = .raised)
      (RuleRun.decide round6 parse ⟨fill.experiment, model, metered⟩ unit) session world := by
    have start := Serves.refl replaying.served
    simp only [RuleRun.decide]
    cases there : fill.experiment.candidate unit with
    | none => exact .throw ⟨start, rfl⟩
    | some candidate =>
      cases compiled : fill.experiment.programOf "A" unit.family with
      | none => exact .throw ⟨start, rfl⟩
      | some program =>
        cases folded : fill.experiment.foldOf unit with
        | none => exact .throw ⟨start, rfl⟩
        | some fold =>
          apply (leads_servedUnit same settled listed
            (fun _ => one ▸ mem_singleton_self arm) below there
            ((alike _).trans compiled) folded replaying.served).mono
          · exact fun _ _ _ held => ⟨held.1, held.2 named⟩
          · exact fun _ _ _ left => ⟨left.1, left.2 named⟩
  have decided : Leads (answers clients) (fun _ => True)
      (fun decision session' world' => (∃ known, decision = some known) ∧
        Serves stored fill.experiment.terms (fill.callers fun _ => scoreArm)
          session world session' world' ∧ ∀ request, RequestOf fill unit arm 0 request →
            Heeded filling parse stored scoreArm request session')
      (fun _ => Replaying parse fill filling stored (fun _ => scoreArm) old)
      (RuleRun.decideStored round6 parse ⟨fill.experiment, model, metered⟩ unit) session world := by
    refine .tryCatch (.bind ?_)
    apply decides.mono
    · exact fun decision _ _ held => Leads.pure ⟨⟨decision, rfl⟩, held⟩
    · rintro _ session' world' ⟨serves, rfl⟩
      exact .throw (replaying.kept serves)
  apply Leads.bind
  apply decided.mono _ (fun _ _ _ kept => kept)
  rintro _ session' world' ⟨⟨decision, rfl⟩, serves, heeded⟩
  refine .bind (.ask ?_)
  rintro _ after rfl
  refine ⟨trivial, Leads.change ⟨((replaying.kept serves).put listed rfl ?_).same rfl rfl rfl,
    serves.calm.have_, ?_, serves.grows, .inr heeded⟩⟩
  · intro other scored _ request of
    obtain rfl : other = arm := by simpa [one] using scored
    exact heeded request of
  · exact congrArg _ serves.skipped

private theorem leads_replayRule {model : String → String} {metered : Bool}
    (one : fill.scoring = [arm])
    (alike : ∀ family, fill.experiment.programOf arm family = fill.experiment.programOf "A" family)
    (same : SameTerms filling fill.experiment.terms (fill.callers fun _ => scoreArm))
    (settled : AllSettled parse fill filling stored) (below : 0 < fill.repeats arm)
    (first : Replaying parse fill filling stored (fun _ => scoreArm) old {} world) :
    Leads (answers clients) (fun _ => True)
      (fun summary session world' =>
        Replaying parse fill filling stored (fun _ => scoreArm) old session world' ∧
          summary.skipped.lookup missVerdict = some 0 ∧ ∀ unit ∈ fill.experiment.units,
            ⟨scoreArm, unit.unit, 0⟩ ∈ (world.outcomes.map (·.2)).map (·.id) ∨
              ∀ request, RequestOf fill unit arm 0 request →
                Heeded filling parse stored scoreArm request session)
      (fun _ => Replaying parse fill filling stored (fun _ => scoreArm) old)
      (RuleRun.run round6 parse ⟨fill.experiment, model, metered⟩) {} world := by
  apply Leads.ite
  · exact fun _ => Leads.throw first
  intro _
  refine .bind (.ask ?_)
  rintro outcomes world ⟨loaded, rfl⟩
  refine ⟨trivial, Leads.bind (.change (.bind ?_))⟩
  -- behind each unit the calls are replayed, and every request of the units so far is heeded
  apply (Leads.forM (fun past session' world' =>
    Replaying parse fill filling stored (fun _ => scoreArm) old session' world' ∧
      session'.have_ = outcomes.map (·.id) ∧ session'.skipped.lookup missVerdict = some 0 ∧
      ∀ unit ∈ past, ⟨scoreArm, unit.unit, 0⟩ ∈ outcomes.map (·.id) ∨
        ∀ request, RequestOf fill unit arm 0 request →
          Heeded filling parse stored scoreArm request session') ?_ ?_).mono _
    (fun _ _ _ kept => kept)
  · exact ⟨first.same rfl rfl rfl, rfl, rfl, by simp⟩
  · rintro before unit after walked session' world' ⟨replaying, have_, skipped, past⟩
    -- the walk goes through the units of the experiment
    have listed : unit ∈ fill.experiment.units :=
      mem_byGroup.mp (by rw [show fill.experiment.byGroup = _ from walked]; simp)
    apply (leads_replayRuleUnit one alike same settled below listed replaying).mono _
      (fun _ _ _ kept => kept)
    rintro _ session'' world'' ⟨replaying, have', skipped', grows, here⟩
    refine ⟨replaying, have'.trans have_, skipped'.trans skipped, ?_⟩
    intro other member
    rcases mem_append.mp member with member | member
    · exact (past other member).imp_right fun heeded request of => (heeded request of).mono grows
    · rw [mem_singleton.mp member, ← have_]
      exact here
  · rintro _ session' world' ⟨replaying, -, skipped, whole⟩
    refine .bind (.get (.ite ?_ ?_))
    · intro called
      -- the score caller is one of those that replay, so no call was metered
      have named : scoreArm ∈ fill.callers fun _ => scoreArm := by simp [Fill.callers, one]
      exact absurd (replaying.served.replays _ named).1 called
    · intro _
      refine .bind (.ask ?_)
      rintro _ after rfl
      refine ⟨trivial, Leads.pure ⟨replaying.same rfl rfl rfl, skipped, fun unit listed => ?_⟩⟩
      exact (whole unit (mem_byGroup.mpr listed)).imp_left
        ((loaded.map Outcome.id).mem_iff.mp ·)

end Runs

section Paid
variable (parse : String → List Nat → Option (Answer F))
  (fill : Fill M C F)

def Paid (before filled : World M F) (key : Key M) : Prop :=
  before.responses.lookup key = none ∧ ∃ entry, filled.responses.lookup key = some entry

def WantedOf (filled : World M F) (unit : Folds.Unit) (arm : String) (replicate : Nat)
    (key : Key M) : Prop :=
  ∃ model request, fill.models = [model] ∧ RequestOf fill unit arm replicate request ∧
    Wants (fill.terms model) parse filled.responses request key

def SameAsFill (caller : String → String) : Prop :=
  ∀ arm ∈ fill.scoring, fill.models = [(fill.experiment.terms (caller arm)).model] ∧
    (fill.experiment.terms (caller arm)).params = fill.params ∧
    (fill.experiment.terms (caller arm)).store = true

/-- A run after a fill: the callers of the filled arms find every response, and ask for all that
the fill asks for of each unit, arm and replicate that the run decides itself. -/
structure Replays (caller : String → String) (filled after : World M F) (session : Session M) :
    Prop where
  cached : ∀ arm ∈ fill.scoring, (session.callers (caller arm)).calls = 0 ∧
    (session.callers (caller arm)).replayed = (session.callers (caller arm)).keys.length
  requested : ∀ unit ∈ fill.experiment.units, fill.experiment.Sole unit → ∀ arm ∈ fill.scoring,
    ∀ replicate < fill.repeats arm,
      ⟨caller arm, unit.unit, replicate⟩ ∉ Dicts.keys filled.outcomes →
        ⟨caller arm, unit.unit, replicate⟩ ∈ Dicts.keys after.outcomes →
          ∀ key, WantedOf parse fill filled unit arm replicate key →
            key ∈ (session.callers (caller arm)).keys

def AllRequested (caller : String → String) (before filled : World M F) (session : Session M) :
    Prop :=
  ∀ key, Paid before filled key → ∃ arm ∈ fill.scoring, key ∈ (session.callers (caller arm)).keys

end Paid

section Replay
variable {parse : String → List Nat → Option (Answer F)}
  {fill : Fill M C F} {filling : Terms F} {caller : String → String} {before filled after : World M F}
  {session : Session M} {requests : List (FillRequest M)} {model : String}

omit [DecidableEq M] in
theorem SameAsFill.terms (same : SameAsFill fill caller) (one : fill.models = [model]) :
    SameTerms (fill.terms model) fill.experiment.terms (fill.callers caller) := by
  have each : ∀ name ∈ fill.callers caller, ∃ arm ∈ fill.scoring, caller arm = name :=
    fun name member => mem_map.mp member
  refine ⟨fun name member => ?_, fun name member => ?_, fun name member => ?_⟩
  · obtain ⟨arm, scored, rfl⟩ := each name member
    have is := one.symm.trans (same arm scored).1
    exact (singleton_inj.mp is).symm
  · obtain ⟨arm, scored, rfl⟩ := each name member
    exact (same arm scored).2.1
  · obtain ⟨arm, scored, rfl⟩ := each name member
    exact (same arm scored).2.2

theorem replaying_start (parse : String → List Nat → Option (Answer F)) (fill : Fill M C F)
    (filling : Terms F) (caller : String → String) (filled : World M F) :
    Replaying parse fill filling filled.responses caller filled.outcomes {} filled where
  served := served_start _ rfl rfl
  decided _ _ _ _ _ _ _ new held := absurd held new

theorem Replaying.replays (one : fill.models = [model])
    (replaying : Replaying parse fill (fill.terms model) filled.responses caller filled.outcomes
      session after) : Replays parse fill caller filled after session where
  cached arm scored := replaying.served.replays _ (mem_map_of_mem scored)
  requested unit listed sole arm scored replicate below new held key wanted := by
    obtain ⟨model', request, one', of, wants⟩ := wanted
    obtain rfl : model = model' := singleton_inj.mp (one.symm.trans one')
    exact replaying.decided unit listed sole arm scored replicate below new held request of key wants

theorem wanted_of_paid (prepared : fill.requests = some requests) (one : fill.models = [model])
    (whole : Filled (fill.terms model) parse requests before filled) {key : Key M}
    (paid : Paid before filled key) : ∃ unit ∈ fill.experiment.units, ∃ arm ∈ fill.scoring,
      ∃ replicate < fill.repeats arm, WantedOf parse fill filled unit arm replicate key := by
  obtain ⟨absent, entry, there⟩ := paid
  rcases whole.stocks.only key entry there with ⟨entry', held⟩ | ⟨request, member, wants⟩
  · rw [absent] at held
    cases held
  · obtain ⟨unit, listed, arm, scored, replicate, below, of⟩ := (mem_requests prepared).mp member
    exact ⟨unit, listed, arm, scored, replicate, below, model, request, one, of, wants⟩

omit [DecidableEq M] in
private theorem scoring_of_admitted (admitted : fill.admitted = true) :
    (∀ arm ∈ fill.scoring, (fill.experiment.manifest.arms.lookup arm).isSome) ∧
      (fill.experiment.manifest.kind = "rule" → ∃ arm, fill.scoring = [arm]) := by
  simp only [Fill.admitted, Bool.and_eq_true, all_eq_true, decide_eq_true_eq] at admitted
  obtain ⟨⟨⟨⟨⟨⟨-, some_⟩, known⟩, -⟩, -⟩, -⟩, -⟩ := admitted
  constructor
  · intro arm scored
    unfold Fill.scoring at scored
    split at scored
    · exact known arm (mem_of_mem_take scored)
    · exact known arm scored
  · intro rule
    rw [Fill.scoring, if_pos rule]
    obtain ⟨arm, rest, is⟩ := exists_cons_of_ne_nil some_
    exact ⟨arm, by rw [is]; rfl⟩

/-- What a done fill has paid for belongs to the units, and a run after it finds every response for
the filled arms and asks for all that belongs to what it decides itself. Where it has decided
everything, it has asked for all that was paid for. -/
theorem paid_is_replayed [Floats F] {report : FillReport} {after_ : Session M} {clients others : Clients M}
    (filled_ : Ends (answers clients) (fillExperiment parse fill {}) before (.ok report, after_) filled)
    (done : report.status = .done) (filed : Rows (fun _ _ => True) before.outcomes)
    (rule : fill.experiment.manifest.kind = "rule" → ∀ arm family,
      (fill.experiment.manifest.arms.lookup arm).isSome →
        fill.experiment.program arm family = fill.experiment.program "A" family) :
    (∀ key, Paid before filled key → ∃ unit ∈ fill.experiment.units, ∃ arm ∈ fill.scoring,
      ∃ replicate < fill.repeats arm, WantedOf parse fill filled unit arm replicate key) ∧
    (fill.experiment.manifest.kind = "program" → SameAsFill fill id →
      ∀ (round6 : F → F) random resamples fixed3 stopEarly result session after,
        Ends (answers others) (run round6 parse fill.experiment random resamples fixed3 stopEarly {})
          filled (result, session) after →
        Replays parse fill id filled after session ∧
        ∀ summary, result = .ok summary → summary.status = .done →
          (fill.experiment.units.map (·.unit)).Nodup →
          (∀ id ∈ Dicts.keys filled.outcomes, id.arm ∉ fill.scoring) →
            AllRequested fill id before filled session) ∧
    (fill.experiment.manifest.kind = "rule" → SameAsFill fill (fun _ => scoreArm) →
      ∀ (round6 : F → F) model metered result session after,
        Ends (answers others) (RuleRun.run round6 parse ⟨fill.experiment, model, metered⟩ {})
          filled (result, session) after →
        Replays parse fill (fun _ => scoreArm) filled after session ∧
        ∀ summary, result = .ok summary → summary.skipped.lookup missVerdict = some 0 ∧
          ((∀ id ∈ Dicts.keys filled.outcomes, id.arm ≠ scoreArm) →
            AllRequested fill (fun _ => scoreArm) before filled session)) := by
  obtain ⟨admitted, requests, model, prepared, one, whole⟩ :=
    (leads_fillExperiment fill before).ends filled_ done
  obtain ⟨known, single⟩ := scoring_of_admitted admitted
  have belongs := fun key (paid : Paid before filled key) => wanted_of_paid prepared one whole paid
  have settled := allSettled prepared whole
  have rows : Rows (fun _ _ => True) filled.outcomes := whole.stocks.outcomes ▸ filed
  refine ⟨belongs,
    fun program same round6 random resamples fixed3 stopEarly result session after ended => ?_,
    fun ruled same round6 model' metered result session after ended => ?_⟩
  · have terms := same.terms one
    have start := replaying_start parse fill (fill.terms model) id filled
    have replaying := (leads_run_keeps start (fun outcomes => start.same rfl rfl rfl)
      (fun unit listed arm _ position replicate below session world replaying =>
        leads_replayReplicate program terms settled listed below position replaying)
      fun session world summary replaying => replaying.same rfl rfl rfl).ends_kept ended
    have replays := replaying.replays one
    refine ⟨replays, fun summary is complete distinct fresh key paid => ?_⟩
    obtain ⟨unit, listed, arm, scored, replicate, below, wanted⟩ := belongs key paid
    -- The run is done, so that it has decided the unit.
    have ran := (safe_run (honest_any others fill.experiment.terms) ⟨trivial, rows⟩
      fun _ _ _ _ _ _ _ _ _ _ _ _ _ => trivial).ends (Ends.bind ended .done)
    rw [is] at ran
    have decided : (⟨arm, unit.unit, replicate⟩ : OutcomeId) ∈ Dicts.keys after.outcomes := by
      refine ran.2.all_of_done complete listed ⟨rfl, (mem_sortedSet _ _).mpr ?_, ?_⟩
      · obtain ⟨settings, there⟩ := Option.isSome_iff_exists.mp (known arm scored)
        exact mem_map_of_mem (Dicts.mem_of_lookup there)
      · rw [Fill.repeats, if_pos program] at below
        exact below
    have sole : fill.experiment.Sole unit := fun other listed' same =>
      inj_on_of_nodup_map distinct listed' listed same
    exact ⟨arm, scored, replays.requested unit listed sole arm scored replicate below
      (fun held => fresh _ held scored) decided key wanted⟩
  · obtain ⟨arm, single⟩ := single ruled
    have scored : arm ∈ fill.scoring := single ▸ mem_singleton_self arm
    have once : fill.repeats arm = 1 := if_neg (by rw [ruled]; decide)
    have alike : ∀ family, fill.experiment.programOf arm family
        = fill.experiment.programOf "A" family := by
      intro family
      rw [Experiment.programOf, Experiment.programOf, rule ruled arm family (known arm scored)]
    have leads : Leads (answers others) _ _ _
        (RuleRun.run round6 parse ⟨fill.experiment, model', metered⟩) {} filled :=
      leads_replayRule single alike (same.terms one) settled (by omega)
        (replaying_start parse fill (fill.terms model) (fun _ => scoreArm) filled)
    cases result with
    | error stop => exact ⟨(leads.ends_error ended).replays one, fun _ is => by cases is⟩
    | ok summary =>
      obtain ⟨replaying, skipped, decided⟩ := leads.ends_ok ended
      refine ⟨replaying.replays one, fun summary' is => ?_⟩
      cases is
      refine ⟨skipped, fun fresh key paid => ?_⟩
      obtain ⟨unit, listed, arm', scored', replicate, below, model₂, request, one', of, wants⟩ :=
        belongs key paid
      obtain rfl : arm' = arm := by simpa [single] using scored'
      obtain rfl : replicate = 0 := by omega
      obtain rfl : model = model₂ := singleton_inj.mp (one.symm.trans one')
      rcases decided unit listed with held | heeded
      · -- A unit decided before has an outcome of the score arm.
        obtain ⟨o, among, is⟩ := mem_map.mp held
        obtain ⟨row, stored, rfl⟩ := mem_map.mp among
        have arm_ := congrArg OutcomeId.arm ((rows.filed row stored).symm.trans is)
        exact absurd arm_ (fresh _ (mem_map_of_mem stored))
      · exact ⟨_, scored, heeded request of key wants⟩

end Replay

def oneRule : Fill String String ℚ where
  experiment :=
    let e := twoArms [⟨"u", "g", "f", 1, "outer-0", ""⟩] []
    { e with manifest := { e.manifest with kind := "rule", arms := [("A", {})] } }
  specModel _ _ := "m"
  params := "p"
  price _ := none

def ruleRun : Running String ℚ (RunSummary ℚ) :=
  RuleRun.run id (fun _ _ => none) ⟨oneRule.experiment, fun _ => "m", true⟩

abbrev refusing := respond (M := String) (F := ℚ) fun _ _ => .exhausted "calls budget exhausted: 0 of 0"

theorem refusing_zeroCost (request : Request String ℚ) (world : World String ℚ) :
    answers zeroCost request (refusing request world).1 world (refusing request world).2 :=
  answers_respond (fun _ _ => ⟨_, rfl⟩) request world

def excluded := play refusing (ruleRun {}) {}

def paidFor := play silent (fillExperiment (fun _ _ => none) oneRule {}) excluded.2

def rerun := play refusing (ruleRun {}) paidFor.2

/-- What a fill pays for after a run that has excluded a unit is asked for by no later run. -/
theorem paid_not_replayed : ∃ excluded paid after : World String ℚ,
    (∃ result, Ends (answers zeroCost) (ruleRun {}) {} result excluded) ∧
    (∃ report session, Ends (answers (follows fun _ => none))
      (fillExperiment (fun _ _ => none) oneRule {}) excluded (.ok report, session) paid ∧
        report.status = .done) ∧
    SameAsFill oneRule (fun _ => scoreArm) ∧
    ∃ summary session, Ends (answers zeroCost) (ruleRun {}) paid (.ok summary, session) after ∧
      summary.status = .done ∧ ∃ key, Paid excluded paid key ∧
        ∀ name, key ∉ (session.callers name).keys := by
  obtain ⟨report, filled⟩ : ∃ report, paidFor.1.1 = .ok report := ⟨_, rfl⟩
  obtain ⟨summary, ran⟩ : ∃ summary, rerun.1.1 = .ok summary := ⟨_, rfl⟩
  have status : paidFor.1.1.map (·.status) = .ok .done := rfl
  have complete : rerun.1.1.map (·.status) = .ok .done := rfl
  have silent_ : rerun.1.2.callers = fun _ => {} := rfl
  have first := ends_play refusing_zeroCost (ruleRun {}) {}
  have fills := ends_play silent_follows (fillExperiment (fun _ _ => none) oneRule {}) excluded.2
  have again := ends_play refusing_zeroCost (ruleRun {}) paidFor.2
  change Ends _ _ _ paidFor.1 paidFor.2 at fills
  change Ends _ _ _ rerun.1 rerun.2 at again
  rw [filled] at status
  rw [ran] at complete
  rw [show paidFor.1 = (.ok report, paidFor.1.2) from Prod.ext filled rfl] at fills
  rw [show rerun.1 = (.ok summary, rerun.1.2) from Prod.ext ran rfl] at again
  refine ⟨excluded.2, paidFor.2, rerun.2, ⟨_, first⟩, ⟨report, _, fills, Except.ok.inj status⟩,
    fun _ _ => ⟨(by decide : oneRule.models = ["m"]), rfl, rfl⟩, summary, _, again,
    Except.ok.inj complete, ⟨⟨"m", "Au", 0, true⟩, "p", "0"⟩, ⟨by decide, _, rfl⟩, ?_⟩
  intro name
  rw [silent_]
  exact not_mem_nil

def bothArms : Fill String String ℚ where
  experiment := twoArms [⟨"u", "g", "f", 1, "outer-0", ""⟩] []
  specModel _ _ := "m"
  params := "p"
  price _ := none
  paidArms := ["A", "B"]

def bothFilled := play silent (fillExperiment (fun _ _ => none) bothArms {}) {}

def bothRun := play silent
  (run id (fun _ _ => none) bothArms.experiment plain 0 (fun _ => "") false {}) bothFilled.2

theorem paid_is_replayed_bothArms : AllRequested bothArms id {} bothFilled.2 bothRun.1.2 := by
  obtain ⟨report, filled⟩ : ∃ report, bothFilled.1.1 = .ok report := ⟨_, rfl⟩
  obtain ⟨summary, ran⟩ : ∃ summary, bothRun.1.1 = .ok summary := ⟨_, rfl⟩
  have ended := ends_play silent_follows (fillExperiment (fun _ _ => none) bothArms {}) {}
  have then_ := ends_play silent_follows
    (run id (fun _ _ => none) bothArms.experiment plain 0 (fun _ => "") false {}) bothFilled.2
  have status : bothFilled.1.1.map (·.status) = .ok .done := rfl
  have complete : bothRun.1.1.map (·.status) = .ok .done := rfl
  rw [filled] at status
  rw [ran] at complete
  change Ends _ _ _ bothFilled.1 bothFilled.2 at ended
  change Ends _ _ _ bothRun.1 bothRun.2 at then_
  rw [show bothFilled.1 = (.ok report, bothFilled.1.2) from Prod.ext filled rfl] at ended
  obtain ⟨-, program, -⟩ := paid_is_replayed ended (Except.ok.inj status)
    ⟨by decide, by simp, by simp⟩ (fun rule => absurd rule (by decide))
  exact (program rfl (fun _ _ => ⟨(by decide : bothArms.models = ["m"]), rfl, rfl⟩) _ _ _ _ _ _ _ _ then_).2 summary ran (Except.ok.inj complete)
    (by decide) (by decide)

end OpenUltraSast.Learn.Experiments
