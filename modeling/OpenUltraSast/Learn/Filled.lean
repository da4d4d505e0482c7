import OpenUltraSast.Learn.CallerSteps
import OpenUltraSast.Learn.Fill

/-!
# What a fill leaves

A fill that is done leaves a response for each of its requests, and for the retry of each whose
response does not parse; it has stored no others.
-/

namespace OpenUltraSast.Learn.Experiments

open Collections Programs Floats List Option

variable {M C F : Type}

variable {unit : Folds.Unit} {request : FillRequest M}

section Requests
variable {fill : Fill M C F} {requests : List (FillRequest M)}

def RequestOf (fill : Fill M C F) (unit : Folds.Unit) (arm : String) (replicate : Nat)
    (request : FillRequest M) : Prop :=
  ∃ candidate program fold prepared, fill.experiment.candidate unit = some candidate ∧
    fill.experiment.programOf arm unit.family = some program ∧
    fill.experiment.foldOf unit = some fold ∧
    prepareSamples program candidate fold fill.experiment.manifest.foldSeed = some prepared ∧
    ∃ sample ∈ prepared, request =
      ⟨unit.family, sample.prompt, sample.temperature, salt replicate ++ sample.sample⟩

theorem armRequests_eq_some_iff {candidate : C} {arm : String} :
    fill.armRequests unit candidate arm = some requests ↔ ∃ program fold prepared,
      fill.experiment.programOf arm unit.family = some program ∧
      fill.experiment.foldOf unit = some fold ∧
      prepareSamples program candidate fold fill.experiment.manifest.foldSeed = some prepared ∧
      (List.range (fill.repeats arm)).flatMap (fun replicate => prepared.map fun sample =>
        ⟨unit.family, sample.prompt, sample.temperature, salt replicate ++ sample.sample⟩)
          = requests := by
  simp [Fill.armRequests, bind_eq_some_iff]

theorem unitRequests_eq_some_iff :
    fill.unitRequests unit = some requests ↔ ∃ candidate perArm,
      fill.experiment.candidate unit = some candidate ∧
      List.Forall₂ (fun arm ofArm => fill.armRequests unit candidate arm = some ofArm)
        fill.scoring perArm ∧ perArm.flatten = requests := by
  simp [Fill.unitRequests, bind_eq_some_iff, mapM_eq_some_iff]

theorem requests_eq_some_iff : fill.requests = some requests ↔ ∃ perUnit,
    List.Forall₂ (fun unit ofUnit => fill.unitRequests unit = some ofUnit)
      fill.experiment.byGroup perUnit ∧ perUnit.flatten = requests := by
  simp [Fill.requests, bind_eq_some_iff, mapM_eq_some_iff]

theorem mem_byGroup {e : Experiment M C F} : unit ∈ e.byGroup ↔ unit ∈ e.units :=
  mem_insertionSort _

private theorem prepared_of_requests (prepared : fill.requests = some requests)
    (listed : unit ∈ fill.experiment.units) {arm : String} (scored : arm ∈ fill.scoring) :
    ∃ candidate ofArm, fill.experiment.candidate unit = some candidate ∧
      fill.armRequests unit candidate arm = some ofArm ∧ ∀ request ∈ ofArm, request ∈ requests := by
  obtain ⟨perUnit, each, rfl⟩ := requests_eq_some_iff.mp prepared
  obtain ⟨ofUnit, among, prepared⟩ := exists_right_of_forall₂ each (mem_byGroup.mpr listed)
  obtain ⟨candidate, perArm, there, arms, rfl⟩ := unitRequests_eq_some_iff.mp prepared
  obtain ⟨ofArm, drawn, prepared⟩ := exists_right_of_forall₂ arms scored
  refine ⟨candidate, ofArm, there, prepared, fun request member => ?_⟩
  exact mem_flatten.mpr ⟨_, among, mem_flatten.mpr ⟨_, drawn, member⟩⟩

theorem mem_requests (prepared : fill.requests = some requests) :
    request ∈ requests ↔ ∃ unit ∈ fill.experiment.units, ∃ arm ∈ fill.scoring,
      ∃ replicate < fill.repeats arm, RequestOf fill unit arm replicate request := by
  constructor
  · intro member
    obtain ⟨perUnit, each, rfl⟩ := requests_eq_some_iff.mp prepared
    obtain ⟨ofUnit, among, member⟩ := mem_flatten.mp member
    obtain ⟨unit, walked, prepared⟩ := exists_left_of_forall₂ each among
    obtain ⟨candidate, perArm, there, arms, rfl⟩ := unitRequests_eq_some_iff.mp prepared
    obtain ⟨ofArm, among, member⟩ := mem_flatten.mp member
    obtain ⟨arm, scored, prepared⟩ := exists_left_of_forall₂ arms among
    obtain ⟨program, fold, samples, compiled, folded, sampled, rfl⟩ :=
      armRequests_eq_some_iff.mp prepared
    obtain ⟨replicate, below, member⟩ := mem_flatMap.mp member
    obtain ⟨sample, drawn, rfl⟩ := mem_map.mp member
    exact ⟨unit, mem_byGroup.mp walked, arm, scored, replicate, mem_range.mp below,
      candidate, program, fold, samples, there, compiled, folded, sampled, sample, drawn, rfl⟩
  · rintro ⟨unit, listed, arm, scored, replicate, below, candidate, program, fold, samples, there,
      compiled, folded, sampled, sample, drawn, rfl⟩
    obtain ⟨candidate', ofArm, there', prepared, among⟩ := prepared_of_requests prepared listed scored
    obtain rfl : candidate = candidate' := some.inj (there.symm.trans there')
    apply among
    obtain ⟨program', fold', samples', compiled', folded', sampled', rfl⟩ :=
      armRequests_eq_some_iff.mp prepared
    obtain rfl : program = program' := some.inj (compiled.symm.trans compiled')
    obtain rfl : fold = fold' := some.inj (folded.symm.trans folded')
    obtain rfl : samples = samples' := some.inj (sampled.symm.trans sampled')
    exact mem_flatMap.mpr ⟨replicate, mem_range.mpr below,
      mem_map.mpr ⟨sample, drawn, rfl⟩⟩

end Requests

section Stored
variable [DecidableEq M] {terms : Terms F} {parse : String → List Nat → Option (Answer F)}

/-- The keys that a request asks for over some responses: its own, and that of its retry when its
response does not parse. -/
def Wants (terms : Terms F) (parse : String → List Nat → Option (Answer F))
    (responses : List (Key M × Entry)) (request : FillRequest M) (key : Key M) : Prop :=
  key = request.key terms ∨ key = request.retry.key terms ∧
    ∃ entry, responses.lookup (request.key terms) = some entry ∧ unparsable parse request entry = true

def Settled (terms : Terms F) (parse : String → List Nat → Option (Answer F))
    (responses : List (Key M × Entry)) (request : FillRequest M) : Prop :=
  ∀ key, Wants terms parse responses request key → ∃ entry, responses.lookup key = some entry

/-- The responses of a store are there as they were, with others for some keys only, and its
outcomes have not changed. -/
structure Stocks (keys : Key M → Prop) (old new : World M F) : Prop where
  kept : ∀ key entry, old.responses.lookup key = some entry → new.responses.lookup key = some entry
  only : ∀ key entry, new.responses.lookup key = some entry →
    (∃ entry, old.responses.lookup key = some entry) ∨ keys key
  outcomes : new.outcomes = old.outcomes

variable {keys others : Key M → Prop} {old new newer : World M F}

theorem Stocks.refl (world : World M F) : Stocks keys world world :=
  ⟨fun _ _ held => held, fun _ entry held => .inl ⟨entry, held⟩, rfl⟩

theorem Stocks.trans (first : Stocks keys old new) (second : Stocks keys new newer) :
    Stocks keys old newer where
  kept key entry held := second.kept key entry (first.kept key entry held)
  only key entry held := by
    rcases second.only key entry held with ⟨entry, before⟩ | asked
    · exact first.only key entry before
    · exact .inr asked
  outcomes := second.outcomes.trans first.outcomes

theorem Stocks.mono (stocks : Stocks keys old new) (implies : ∀ key, keys key → others key) :
    Stocks others old new :=
  ⟨stocks.kept, fun key entry held => (stocks.only key entry held).imp_right (implies key),
    stocks.outcomes⟩

variable {responses responses' : List (Key M × Entry)}

theorem Wants.congr
    (kept : ∀ key entry, responses.lookup key = some entry → responses'.lookup key = some entry)
    {entry : Entry} (here : responses.lookup (request.key terms) = some entry) (key : Key M) :
    Wants terms parse responses' request key ↔ Wants terms parse responses request key := by
  simp [Wants, here, kept _ _ here]

theorem Settled.kept {request : FillRequest M}
    (settled : Settled terms parse responses request)
    (kept : ∀ key entry, responses.lookup key = some entry → responses'.lookup key = some entry) :
    Settled terms parse responses' request := by
  intro key wanted
  obtain ⟨entry, here⟩ := settled _ (.inl rfl)
  obtain ⟨entry, there⟩ := settled key ((Wants.congr kept here key).mp wanted)
  exact ⟨entry, kept _ _ there⟩

structure Filled (terms : Terms F) (parse : String → List Nat → Option (Answer F))
    (requests : List (FillRequest M)) (old new : World M F) : Prop where
  stocks : Stocks (fun key => ∃ request ∈ requests, Wants terms parse new.responses request key)
    old new
  settled : ∀ request ∈ requests, Settled terms parse new.responses request

end Stored

section Calls
variable [DecidableEq M] {terms : Terms F} {clients : Clients M} {session : Session M}
  {world : World M F}

/-- The caller of a fill remembers what is stored. -/
def Backed (session : Session M) (world : World M F) : Prop :=
  ∀ key entry, (session.callers "fill").memory.lookup key = some entry →
    world.responses.lookup key = some entry

private theorem backed_start (world : World M F) : Backed {} world :=
  fun _ _ known => by simp at known

theorem Backed.found (backed : Backed session world) (stored : terms.store = true) (key : Key M) :
    found (fun _ => terms) session world.responses "fill" key = world.responses.lookup key := by
  unfold Experiments.found
  cases known : (session.callers "fill").memory.lookup key with
  | some entry => exact (backed key entry known).symm
  | none => simp [stored]

variable {key : Key M}

theorem Backed.update (backed : Backed session world) {change : Caller M → Caller M}
    {entry : Entry} {after : World M F}
    (kept : ∀ key entry, world.responses.lookup key = some entry →
      after.responses.lookup key = some entry)
    (here : after.responses.lookup key = some entry)
    (memory : ∀ caller, (change caller).memory = Dicts.set caller.memory key entry) :
    Backed (session.update "fill" change) after := by
  intro other entry' known
  rw [Session.update_self, memory, Dicts.lookup_set] at known
  split at known
  next same =>
    cases known
    exact same ▸ here
  next => exact kept _ _ (backed _ _ known)

private theorem stocks_set (entry : Entry) (absent : world.responses.lookup key = none) :
    Stocks (· = key) world { world with responses := Dicts.set world.responses key entry } where
  kept other entry' held := by
    rw [Dicts.lookup_set, if_neg]
    · exact held
    · rintro rfl
      rw [absent] at held
      cases held
  only other entry' held := by
    rw [Dicts.lookup_set] at held
    split at held
    next same => exact .inr same
    next => exact .inl ⟨_, held⟩
  outcomes := rfl

/-- A request that is asked is stored with its answer, and no other. -/
theorem leads_fillAsk (stored : terms.store = true) (backed : Backed session world)
    (request : FillRequest M) :
    Leads (answers clients) (fun _ => True)
      (fun text session' world' => Backed session' world' ∧
        Stocks (· = request.key terms) world world' ∧
        ∃ entry, world'.responses.lookup (request.key terms) = some entry ∧
          text = entry.content.getD "")
      (fun _ _ _ => True) (request.ask terms) session world := by
  unfold FillRequest.ask
  apply leads_askCaller trivial
  · intro entry known
    rw [backed.found stored] at known
    simp only [String.empty_append] at known ⊢
    exact ⟨backed.update (fun _ _ held => held) known fun _ => rfl, Stocks.refl _, entry, known, rfl⟩
  · intro unknown
    rw [backed.found stored] at unknown
    refine ⟨fun _ _ => trivial, fun _ content usage _ => ⟨trivial, ?_⟩⟩
    simp only [String.empty_append, World.keep, stored, if_true] at unknown ⊢
    have stocks := stocks_set ⟨content, terms.model, usage⟩ unknown
    refine ⟨backed.update stocks.kept ?_ fun _ => rfl, stocks, ⟨content, terms.model, usage⟩, ?_, rfl⟩
    all_goals exact (Dicts.lookup_set _ _ _ _).trans (if_pos rfl)

variable {parse : String → List Nat → Option (Answer F)}

private theorem leads_askAll (stored : terms.store = true) (backed : Backed session world)
    (requests : List (FillRequest M)) :
    Leads (answers clients) (fun _ => True)
      (fun _ session' world' => Backed session' world' ∧ Filled terms parse requests world world')
      (fun _ _ _ => True) (askAll terms parse requests) session world := by
  apply Leads.forM (fun past session' world' =>
    Backed session' world' ∧ Filled terms parse past world world')
  · exact ⟨backed, Stocks.refl _, by simp⟩
  rintro before request after - session' world' ⟨backed, filled⟩
  -- The requests before stay settled, and ask for the same keys, when responses are added.
  have past : ∀ {keys : Key M → Prop} {world'' : World M F}, Stocks keys world' world'' →
      (∀ key, keys key → Wants terms parse world''.responses request key) →
      Settled terms parse world''.responses request →
      Filled terms parse (before ++ [request]) world world'' := by
    intro keys world'' stocks only settled
    refine ⟨(filled.stocks.mono ?_).trans (stocks.mono ?_), ?_⟩
    · rintro key ⟨other, member, wanted⟩
      obtain ⟨entry, here⟩ := filled.settled other member _ (.inl rfl)
      exact ⟨other, mem_append_left _ member, (Wants.congr stocks.kept here key).mpr wanted⟩
    · exact fun key is => ⟨request, by simp, only key is⟩
    · intro other member
      rcases mem_append.mp member with member | member
      · exact (filled.settled other member).kept stocks.kept
      · rw [mem_singleton.mp member]
        exact settled
  apply Leads.bind
  apply (leads_fillAsk stored backed request).mono _ (fun _ _ _ _ => trivial)
  rintro _ session'' world'' ⟨backed, stocks, entry, here, rfl⟩
  apply Leads.ite
  · intro bad
    apply Leads.bind
    apply (leads_fillAsk stored backed request.retry).mono _ (fun _ _ _ _ => trivial)
    rintro _ session₃ world₃ ⟨backed, more, entry', there, -⟩
    have kept := more.kept _ _ here
    have wants : Wants terms parse world₃.responses request (request.retry.key terms) :=
      .inr ⟨rfl, entry, kept, bad⟩
    have both : Stocks (fun key => key = request.key terms ∨ key = request.retry.key terms)
        world' world₃ := (stocks.mono fun key is => .inl is).trans (more.mono fun key is => .inr is)
    refine .pure ⟨backed, past both ?_ ?_⟩
    · rintro key (rfl | rfl)
      · exact .inl rfl
      · exact wants
    · rintro key (rfl | ⟨rfl, -⟩)
      · exact ⟨entry, kept⟩
      · exact ⟨entry', there⟩
  · intro good
    refine .pure ⟨backed, past stocks (fun key is => .inl is) ?_⟩
    rintro key (rfl | ⟨-, other, there, bad⟩)
    · exact ⟨entry, here⟩
    · -- The response parses.
      obtain rfl : entry = other := some.inj (here.symm.trans there)
      exact absurd bad good

/-- A key of a family's requests. -/
def Cells.Has (cells : Cells M) (key : Key M) : Prop :=
  ∃ family cell, cells.lookup family = some cell ∧ key ∈ Dicts.keys cell

theorem Cells.has_put {cells : Cells M} (held : key = request.key terms ∨ cells.Has key) :
    (cells.put terms request).Has key := by
  rcases held with rfl | ⟨family, cell, found, member⟩
  · exact ⟨request.family, _, (Dicts.lookup_set _ _ _ _).trans (if_pos rfl),
      Dicts.mem_keys_set.mpr (.inl rfl)⟩
  · by_cases same : family = request.family
    · refine ⟨request.family, _, (Dicts.lookup_set _ _ _ _).trans (if_pos rfl), ?_⟩
      rw [← same, found]
      exact Dicts.mem_keys_set.mpr (.inr member)
    · exact ⟨family, cell, (Dicts.lookup_set _ _ _ _).trans ((if_neg same).trans found), member⟩

theorem leads_inventory (stored : terms.store = true) (backed : Backed session world)
    (requests : List (FillRequest M)) (cells : Cells M) :
    Leads (answers clients) (fun _ => True)
      (fun cells' session' world' => session' = session ∧ world' = world ∧
        (∀ key, cells.Has key → cells'.Has key) ∧
        ∀ request ∈ requests, ∀ key, Wants terms parse world.responses request key → cells'.Has key)
      (fun _ _ _ => True) (inventory terms parse requests cells) session world := by
  induction requests generalizing cells with
  | nil => exact .pure ⟨rfl, rfl, fun _ held => held, by simp⟩
  | cons request requests ih =>
    refine .bind (leads_cached trivial ?_)
    rw [backed.found stored]
    -- The rest, from cells that have the keys of this request.
    have rest : ∀ cells' : Cells M, (∀ key, cells.Has key → cells'.Has key) →
        (∀ key, Wants terms parse world.responses request key → cells'.Has key) →
        Leads (answers clients) (fun _ => True)
          (fun cells'' session' world' => session' = session ∧ world' = world ∧
            (∀ key, cells.Has key → cells''.Has key) ∧
            ∀ other ∈ request :: requests, ∀ key,
              Wants terms parse world.responses other key → cells''.Has key)
          (fun _ _ _ => True) (inventory terms parse requests cells') session world := by
      intro cells' grown wanted
      apply (ih cells').mono _ (fun _ _ _ _ => trivial)
      rintro cells'' session' world' ⟨rfl, rfl, more, others⟩
      refine ⟨rfl, rfl, fun key held => more key (grown key held), ?_⟩
      intro other member key wants
      rcases mem_cons.mp member with rfl | member
      · exact more key (wanted key wants)
      · exact others other member key wants
    cases here : world.responses.lookup (request.key terms) with
    | some entry =>
      apply Leads.ite
      · intro bad
        refine rest _ (fun key held => Cells.has_put (.inr (Cells.has_put (.inr held)))) ?_
        rintro key (rfl | ⟨rfl, -⟩)
        · exact Cells.has_put (.inr (Cells.has_put (.inl rfl)))
        · exact Cells.has_put (.inl rfl)
      · intro good
        refine rest _ (fun key held => Cells.has_put (.inr held)) ?_
        rintro key (rfl | ⟨-, other, there, bad⟩)
        · exact Cells.has_put (.inl rfl)
        · obtain rfl : entry = other := some.inj (here.symm.trans there)
          exact absurd bad good
    | none =>
      refine rest _ (fun key held => Cells.has_put (.inr held)) ?_
      rintro key (rfl | ⟨-, other, there, -⟩)
      · exact Cells.has_put (.inl rfl)
      · rw [here] at there
        cases there

theorem leads_cachedKeys (stored : terms.store = true) (backed : Backed session world)
    (keys : List (Key M)) :
    Leads (answers clients) (fun _ => True)
      (fun cached session' world' => session' = session ∧ world' = world ∧
        ∀ key ∈ cached, ∃ entry, world.responses.lookup key = some entry)
      (fun _ _ _ => True) (cachedKeys terms keys) session world := by
  induction keys with
  | nil => exact .pure ⟨rfl, rfl, by simp⟩
  | cons key keys ih =>
    refine .bind (leads_cached trivial ?_)
    rw [backed.found stored]
    apply Leads.bind
    apply ih.mono _ (fun _ _ _ _ => trivial)
    rintro others session' world' ⟨rfl, rfl, each⟩
    refine .pure ⟨rfl, rfl, ?_⟩
    intro other member
    split at member
    next there =>
      rcases mem_cons.mp member with rfl | member
      · exact isSome_iff_exists.mp there
      · exact each other member
    next => exact each other member

theorem cached_of_missing {fill : Fill M C F} {initially : List (Key M)} {cells : Cells M}
    (none_ : (cells.map (counts fill initially)).all (·.2.missing = 0) = true)
    (held : cells.Has key) : key ∈ initially := by
  obtain ⟨family, cell, found, member⟩ := held
  obtain ⟨entry, listed, rfl⟩ := mem_map.mp member
  have empty := all_eq_true.mp none_ _ (mem_map_of_mem (Dicts.mem_of_lookup found))
  simp only [counts, decide_eq_true_eq, length_eq_zero_iff, filter_eq_nil_iff,
    decide_not, Bool.not_eq_true', decide_eq_false_iff_not, not_not] at empty
  exact empty entry listed

private theorem leads_askMissing (stored : terms.store = true) (backed : Backed session world)
    (supply : Supply) (requests : List (FillRequest M)) :
    Leads (answers clients) (fun _ => True)
      (fun status session' world' => status = .done →
        Backed session' world' ∧ Filled terms parse requests world world')
      (fun _ _ _ => True) (askMissing terms parse supply requests) session world := by
  refine .tryCatch (.ite ?_ ?_)
  · exact fun _ => Leads.throw (.pure fun done => by cases done)
  · intro _
    apply Leads.bind
    apply (leads_askAll stored backed requests).mono
    · exact fun _ session' world' filled => Leads.pure fun _ => filled
    · intro stop session' world' _
      cases stop with
      | exhausted reason => exact .pure fun done => by cases done
      | unformatted => exact .pure fun done => by cases done
      | raised => exact .pure fun done => by cases done

private theorem leads_fillRequests (stored : terms.store = true) (backed : Backed session world)
    (fill : Fill M C F) (requests : List (FillRequest M)) :
    Leads (answers clients) (fun _ => True)
      (fun report _ world' => report.status = .done → Filled terms parse requests world world')
      (fun _ _ _ => True) (fillRequests terms parse fill requests) session world := by
  apply Leads.bind
  apply (leads_inventory stored backed requests _).mono _ (fun _ _ _ _ => trivial)
  rintro initial _ _ ⟨rfl, rfl, -, wanted⟩
  apply Leads.bind
  apply (leads_cachedKeys stored backed initial.keys).mono _ (fun _ _ _ _ => trivial)
  rintro initially _ _ ⟨rfl, rfl, there⟩
  apply Leads.ite
  · rintro early
    refine .pure fun done => ⟨Stocks.refl _, fun request member key wants => ?_⟩
    -- Not a dry run, so that no request is missing.
    have whole : (initial.map (counts fill initially)).all (·.2.missing = 0) = true := by
      rcases early with dry | whole
      · simp [dry] at done
      · exact whole
    exact there key (cached_of_missing whole (wanted request member key wants))
  · intro _
    apply Leads.ite
    · exact fun _ => Leads.throw trivial
    · intro _
      apply Leads.bind
      apply (leads_askMissing stored backed fill.supply requests).mono _ (fun _ _ _ _ => trivial)
      intro status session' world' filled
      by_cases done : status = .done
      · obtain ⟨again, settled⟩ := filled done
        apply Leads.bind
        apply (leads_inventory stored again requests _).mono _ (fun _ _ _ _ => trivial)
        rintro final _ _ ⟨rfl, rfl, -⟩
        apply Leads.bind
        apply (leads_cachedKeys stored again final.keys).mono _ (fun _ _ _ _ => trivial)
        rintro finally_ _ _ ⟨rfl, rfl, -⟩
        exact .pure fun _ => settled
      · apply Leads.bind
        apply (Leads.trivial _ _ _).mono _ (fun _ _ _ _ => trivial)
        intro final session'' world'' _
        apply Leads.bind
        apply (Leads.trivial _ _ _).mono _ (fun _ _ _ _ => trivial)
        intro finally_ session₃ world₃ _
        exact .pure fun is => absurd is done

/-- A fill that is done has settled all of its requests, with one model. -/
theorem leads_fillExperiment (fill : Fill M C F) (world : World M F) :
    Leads (answers clients) (fun _ => True)
      (fun report _ world' => report.status = .done → fill.admitted = true ∧
        ∃ requests model, fill.requests = some requests ∧ fill.models = [model] ∧
          Filled (fill.terms model) parse requests world world')
      (fun _ _ _ => True) (fillExperiment parse fill) {} world := by
  unfold fillExperiment
  split
  next requests model admitted prepared one =>
    apply (leads_fillRequests rfl (backed_start world) fill requests).mono _ (fun _ _ _ _ => trivial)
    exact fun report session' world' filled done =>
      ⟨admitted, requests, model, prepared, one, filled done⟩
  next => exact .throw trivial

end Calls

end OpenUltraSast.Learn.Experiments
