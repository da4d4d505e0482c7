import OpenUltraSast.Learn.Experiment

/-!
# What a caller hears

A request is answered from the memory of the caller, from the store, or by the client.
-/

namespace OpenUltraSast.Learn.Experiments

open Programs Floats

section Session
variable {M : Type}

@[simp] theorem Session.update_update (session : Session M) (name : String)
    (change again : Caller M → Caller M) :
    (session.update name change).update name again = session.update name (again ∘ change) := by
  simp only [Session.update, Session.mk.injEq, and_true, if_true, Function.comp]
  funext other
  split <;> rfl

@[simp] theorem Session.update_self (session : Session M) (name : String)
    (change : Caller M → Caller M) :
    (session.update name change).callers name = change (session.callers name) := by
  simp [Session.update]

theorem Session.update_other (session : Session M) {name other : String}
    (change : Caller M → Caller M) (apart : other ≠ name) :
    (session.update name change).callers other = session.callers other := by
  simp [Session.update, apart]

/-- Nothing but the callers and the responses has changed. -/
structure Calm {F : Type} (session : Session M) (world : World M F) (session' : Session M)
    (world' : World M F) : Prop where
  have_ : session'.have_ = session.have_
  outcomes : world'.outcomes = world.outcomes

theorem Calm.refl {F : Type} (session : Session M) (world : World M F) : Calm session world session world :=
  ⟨rfl, rfl⟩

theorem Calm.trans {F : Type} {s s' s'' : Session M} {w w' w'' : World M F} (first : Calm s w s' w')
    (second : Calm s' w' s'' w'') : Calm s w s'' w'' :=
  ⟨second.have_.trans first.have_, second.outcomes.trans first.outcomes⟩

end Session

variable {M F : Type} [DecidableEq M]

/-- What a caller finds without its client. -/
def found (terms : String → Terms F) (session : Session M) (responses : List (Key M × Entry))
    (name : String) (key : Key M) : Option Entry :=
  match (session.callers name).memory.lookup key with
  | some entry => some entry
  | none => if (terms name).store then responses.lookup key else none

def Caller.asks (key : Key M) (caller : Caller M) : Caller M :=
  { caller with keys := caller.keys ++ [key] }

def Caller.keeps (key : Key M) (entry : Entry) (caller : Caller M) : Caller M :=
  { caller with
    usage := if (caller.memory.lookup key).isSome then caller.usage else caller.usage.add entry.usage
    memory := Dicts.set caller.memory key entry }

def Caller.hits (key : Key M) (entry : Entry) (caller : Caller M) : Caller M :=
  ({ caller.asks key with replayed := caller.replayed + 1 }).keeps key entry

def Caller.misses (key : Key M) (entry : Entry) (caller : Caller M) : Caller M :=
  ({ caller.asks key with calls := caller.calls + 1 }).keeps key entry

@[simp] theorem found_asks (terms : String → Terms F) (session : Session M)
    (responses : List (Key M × Entry)) (name : String) (key asked : Key M) :
    found terms (session.update name (Caller.asks asked)) responses name key
      = found terms session responses name key := by
  simp [found, Caller.asks]

def World.keep (world : World M F) (store : Bool) (key : Key M) (entry : Entry) : World M F :=
  if store then { world with responses := Dicts.set world.responses key entry } else world

section Ask
variable {clients : Clients M} {inv : World M F → Prop} {terms : String → Terms F}
  {left : Stop → Session M → World M F → Prop} {session : Session M} {world : World M F}
  {name : String}

theorem leads_cached {key : Key M} {post : Option Entry → Session M → World M F → Prop}
    (kept : inv world) (holds : post (found terms session world.responses name key) session world) :
    Leads (answers clients) inv post left (cached terms name key) session world := by
  refine .bind (.get ?_)
  unfold found at holds
  cases known : (session.callers name).memory.lookup key with
  | some entry =>
    rw [known] at holds
    exact .pure holds
  | none =>
    rw [known] at holds
    -- The store is asked where the caller has one.
    apply Leads.ite
    · intro stored
      rw [if_pos stored] at holds
      apply Leads.ask
      rintro reply after ⟨rfl, rfl⟩
      exact ⟨kept, holds⟩
    · intro unstored
      rw [if_neg unstored] at holds
      exact .pure holds

theorem leads_complete {key : Key M} {post : Entry → Session M → World M F → Prop}
    (kept : inv world) (stops : ∀ stop, stop ≠ .unformatted → left stop session world)
    (responds : (terms name).client = true → ∀ content usage,
      clients name key.call (.responded content usage) →
        let entry : Entry := ⟨content, (terms name).model, usage⟩
        let after := world.keep (terms name).store key entry
        inv after ∧
          post entry (session.update name fun c => { c with calls := c.calls + 1 }) after) :
    Leads (answers clients) inv post left (complete terms name key) session world := by
  apply Leads.ite
  · intro _
    exact .throw (stops _ (by simp))
  · intro client
    refine .bind (.ask ?_)
    rintro reply after ⟨may, rfl⟩
    refine ⟨kept, ?_⟩
    cases reply with
    | exhausted reason => exact .throw (stops _ (by simp))
    | failed => exact .throw (stops _ (by simp))
    | responded content usage =>
      obtain ⟨after, holds⟩ := responds (by simpa using client) content usage may
      refine .bind (.change (.ite ?_ ?_))
      · intro stored
        simp only [World.keep, stored, if_true] at after holds
        refine .bind (.ask ?_)
        rintro reply world' rfl
        exact ⟨after, Leads.pure holds⟩
      · intro unstored
        simp only [World.keep, unstored] at holds
        exact .pure holds

/-- A call is answered from the memory, or asked. -/
theorem leads_askCaller {salt : String} {messages : M} {temperature : ℚ} {sample : String}
    {post : String → Session M → World M F → Prop} (kept : inv world)
    (hit : ∀ entry,
      found terms session world.responses name (keyOf terms name messages temperature (salt ++ sample))
        = some entry →
      post (entry.content.getD "")
        (session.update name
          (Caller.hits (keyOf terms name messages temperature (salt ++ sample)) entry)) world)
    (miss :
      found terms session world.responses name (keyOf terms name messages temperature (salt ++ sample))
        = none →
      let asked :=
        session.update name (Caller.asks (keyOf terms name messages temperature (salt ++ sample)))
      (∀ stop, stop ≠ .unformatted → left stop asked world) ∧
      ((terms name).client = true → ∀ content usage,
        clients name (keyOf terms name messages temperature (salt ++ sample)).call
          (.responded content usage) →
        let entry : Entry := ⟨content, (terms name).model, usage⟩
        let key := keyOf terms name messages temperature (salt ++ sample)
        inv (world.keep (terms name).store key entry) ∧
          post (content.getD "") (session.update name (Caller.misses key entry))
            (world.keep (terms name).store key entry))) :
    Leads (answers clients) inv post left (askCaller terms name salt messages temperature sample)
      session world := by
  set key := keyOf terms name messages temperature (salt ++ sample) with named
  refine .bind (.change ?_)
  refine .bind (leads_cached kept ?_)
  rw [show (fun caller : Caller M => { caller with keys := caller.keys ++ [key] })
    = Caller.asks key from rfl, found_asks]
  -- What follows is the same for an entry that is found and for one of the client.
  have keeps : ∀ (entry : Entry) (change : Caller M → Caller M) (after : World M F),
      post (entry.content.getD "") (session.update name (Caller.keeps key entry ∘ change)) after →
      Leads (answers clients) inv post left (do
        modifyCaller name fun caller =>
          if (caller.memory.lookup key).isSome then caller
          else { caller with usage := caller.usage.add entry.usage }
        modifyCaller name fun caller =>
          { caller with memory := Dicts.set caller.memory key entry }
        return entry.content.getD "") (session.update name change) after := by
    intro entry change after holds
    refine .bind (.change (.bind (.change (.pure ?_))))
    simp only [Session.update_update]
    convert holds using 2
    funext caller
    simp only [Function.comp, Caller.keeps]
    split <;> rfl
  cases known : found terms session world.responses name key with
  | some entry =>
    refine .bind (.change (.bind (.pure ?_)))
    rw [Session.update_update]
    exact keeps entry _ world (hit entry known)
  | none =>
    obtain ⟨stops, responds⟩ := miss known
    refine .bind (leads_complete kept stops ?_)
    intro client content usage may
    obtain ⟨after, holds⟩ := responds client content usage may
    refine ⟨after, ?_⟩
    rw [Session.update_update]
    exact keeps _ _ _ holds

end Ask

/-- What callers take a response of a key for, and the responses of a store: the store's responses
and the clients' replies are such. -/
structure Honest (clients : Clients M) (terms : String → Terms F)
    (good : List (Key M × Entry) → Prop) (said : String → Key M → Option String → Prop) : Prop where
  replays : ∀ {responses name key entry}, good responses → (terms name).store = true →
    responses.lookup key = some entry → said name key entry.content
  replies : ∀ {responses name key content usage}, good responses →
    ((terms name).store = true → responses.lookup key = none) →
    clients name key.call (.responded content usage) → said name key content ∧
      ((terms name).store = true →
        good (Dicts.set responses key ⟨content, (terms name).model, usage⟩))

theorem honest_any (clients : Clients M) (terms : String → Terms F) :
    Honest clients terms (fun _ => True) (fun _ _ _ => True) where
  replays _ _ _ := trivial
  replies _ _ _ := ⟨trivial, fun _ => trivial⟩

def Heard (said : String → Key M → Option String → Prop) (session : Session M) : Prop :=
  ∀ name key entry, (session.callers name).memory.lookup key = some entry →
    said name key entry.content

def Fixes (said : String → Key M → Option String → Prop) (name : String) (oracle : Key M → String) :
    Prop :=
  ∀ key content, said name key content → content.getD "" = oracle key

section Keeping
variable {terms : String → Terms F} {clients : Clients M} {good : List (Key M × Entry) → Prop}
  {said : String → Key M → Option String → Prop}
  {rows : List (OutcomeId × Outcome F) → Prop} {session : Session M} {world : World M F}
  {name salt : String}

/-- The responses of a store and its rows are as they should be. -/
def Sound (good : List (Key M × Entry) → Prop) (rows : List (OutcomeId × Outcome F) → Prop)
    (world : World M F) : Prop :=
  good world.responses ∧ rows world.outcomes

/-- What a step that keeps the store and the run as they are comes to. -/
def Stays {α : Type} (good : List (Key M × Entry) → Prop)
    (rows : List (OutcomeId × Outcome F) → Prop) (said : String → Key M → Option String → Prop)
    (session : Session M) (world : World M F) (holds : α → Prop) :
    α → Session M → World M F → Prop :=
  fun value session' world' => Sound good rows world' ∧ Heard said session' ∧
    Calm session world session' world' ∧ holds value

def Left (good : List (Key M × Entry) → Prop) (rows : List (OutcomeId × Outcome F) → Prop) :
    Stop → Session M → World M F → Prop :=
  fun stop _ world => Sound good rows world ∧ stop ≠ .unformatted

theorem heard_update {key : Key M} {entry : Entry} {change : Caller M → Caller M}
    (heard : Heard said session) (here : said name key entry.content)
    (memory : ∀ caller, (change caller).memory = Dicts.set caller.memory key entry) :
    Heard said (session.update name change) := by
  intro other key' entry' known
  by_cases same : other = name
  · subst same
    rw [Session.update_self, memory, Dicts.lookup_set] at known
    split at known
    next equal =>
      cases known
      exact equal ▸ here
    next => exact heard _ _ _ known
  · rw [Session.update_other _ _ same] at known
    exact heard _ _ _ known

theorem leads_ask_calm (honest : Honest clients terms good said)
    (sound : Sound good rows world) (heard : Heard said session) (messages : M) (temperature : ℚ)
    (sample : String) :
    Leads (answers clients) (Sound good rows)
      (Stays good rows said session world fun text => ∀ oracle, Fixes said name oracle →
        text = oracle (keyOf terms name messages temperature (salt ++ sample)))
      (Left good rows) (askCaller terms name salt messages temperature sample)
      session world := by
  apply leads_askCaller sound
  · intro entry known
    have here : said name (keyOf terms name messages temperature (salt ++ sample)) entry.content := by
      unfold found at known
      split at known
      next remembered =>
        cases known
        exact heard _ _ _ remembered
      next =>
        split at known
        next stored => exact honest.replays sound.1 stored known
        next => cases known
    exact ⟨sound, heard_update heard here (fun _ => rfl), ⟨rfl, rfl⟩,
      fun oracle fixes => fixes _ _ here⟩
  · intro unknown
    refine ⟨fun _ other => ⟨sound, other⟩, fun _ content usage may => ?_⟩
    have missing : (terms name).store = true → world.responses.lookup
        (keyOf terms name messages temperature (salt ++ sample)) = none := by
      intro stored
      unfold found at unknown
      split at unknown
      next => cases unknown
      next => rwa [if_pos stored] at unknown
    obtain ⟨here, kept⟩ := honest.replies sound.1 missing may
    refine ⟨?_, ?_, heard_update heard here (fun _ => rfl), ?_, fun oracle fixes => fixes _ _ here⟩
    all_goals simp only [World.keep]; split
    all_goals first | exact ⟨rfl, rfl⟩ | exact sound | exact ⟨kept ‹_›, sound.2⟩

end Keeping

section Decide
variable [Floats F] (terms : String → Terms F) (round6 : F → F)
  (parse : String → List Nat → Option (Answer F)) {C : Type}

def answerWith (oracle : Key M → String) (name salt : String) (sample : Sample M) : Answer F :=
  let lines := sample.prompt.validLines
  let key := fun temperature label =>
    keyOf terms name sample.prompt.messages temperature (salt ++ label)
  match parse (oracle (key sample.temperature sample.sample)) lines with
  | some answer => answer
  | none => (parse (oracle (key 0 (sample.sample ++ ":retry"))) lines).getD parseFailed

def Program.decideWith (program : Program M C) (oracle : Key M → String) (candidate : C)
    (fold : Folds.Fold) (name salt : String) (seed : Int) : Option (Decision F) :=
  match prepareSamples program candidate fold seed with
  | none => none
  | some [] => none
  | some (first :: rest) =>
    some { aggregate round6 ((first :: rest).map (answerWith terms parse oracle name salt)) with
      retrieval := first.retrieval }

variable {terms round6 parse} {clients : Clients M} {good : List (Key M × Entry) → Prop}
  {said : String → Key M → Option String → Prop}
  {rows : List (OutcomeId × Outcome F) → Prop} {session : Session M} {world : World M F}
  {name salt : String}

section
variable (honest : Honest clients terms good said)
include honest

private theorem leads_sampleAnswer (sound : Sound good rows world)
    (heard : Heard said session) (sample : Sample M) :
    Leads (answers clients) (Sound good rows)
      (Stays good rows said session world fun answer => ∀ oracle, Fixes said name oracle →
        answer = answerWith terms parse oracle name salt sample)
      (Left good rows)
      (sampleAnswer terms parse name salt sample.prompt sample.temperature sample.sample)
      session world := by
  apply Leads.bind
  apply (leads_ask_calm honest sound heard _ _ _).mono _ (fun _ _ _ stopped => stopped)
  rintro text session' world' ⟨sound, heard, calm, told⟩
  cases parsed : parse text sample.prompt.validLines with
  | some answer =>
    apply Leads.pure
    refine ⟨sound, heard, calm, fun oracle fixes => ?_⟩
    rw [told oracle fixes] at parsed
    simp [answerWith, parsed]
  | none =>
    -- The answer does not parse: it is asked for once more.
    apply Leads.bind
    apply (leads_ask_calm honest sound heard _ _ _).mono _ (fun _ _ _ stopped => stopped)
    rintro retry session'' world'' ⟨sound, heard, again, retold⟩
    apply Leads.pure
    refine ⟨sound, heard, calm.trans again, fun oracle fixes => ?_⟩
    rw [told oracle fixes] at parsed
    rw [retold oracle fixes]
    simp [answerWith, parsed]

private theorem leads_answersTo (samples : List (Sample M))
    (sound : Sound good rows world) (heard : Heard said session) :
    Leads (answers clients) (Sound good rows)
      (Stays good rows said session world fun given => ∀ oracle, Fixes said name oracle →
        given = samples.map (answerWith terms parse oracle name salt))
      (Left good rows) (answersTo terms parse name salt samples)
      session world := by
  induction samples generalizing session world with
  | nil => exact .pure ⟨sound, heard, Calm.refl _ _, fun _ _ => rfl⟩
  | cons sample samples ih =>
    apply Leads.bind
    apply (leads_sampleAnswer honest sound heard sample).mono _ (fun _ _ _ stopped => stopped)
    rintro answer session' world' ⟨sound, heard, calm, first⟩
    apply Leads.bind
    apply (ih sound heard).mono _ (fun _ _ _ stopped => stopped)
    rintro given session'' world'' ⟨sound, heard, again, rest⟩
    apply Leads.pure
    refine ⟨sound, heard, calm.trans again, fun oracle fixes => ?_⟩
    rw [first oracle fixes, rest oracle fixes, List.map_cons]

theorem leads_decide (sound : Sound good rows world)
    (heard : Heard said session) (program : Program M C) (candidate : C) (fold : Folds.Fold)
    (seed : Int) :
    Leads (answers clients) (Sound good rows)
      (Stays good rows said session world fun decision => ∀ oracle, Fixes said name oracle →
        program.decideWith terms round6 parse oracle candidate fold name salt seed = some decision)
      (Left good rows)
      (program.decide terms round6 parse candidate fold name salt seed) session world := by
  unfold Program.decide
  cases prepared : prepareSamples program candidate fold seed with
  | none => exact .throw ⟨sound, by simp⟩
  | some samples =>
    apply Leads.bind
    apply (leads_answersTo honest samples sound heard).mono _ (fun _ _ _ stopped => stopped)
    rintro given session' world' ⟨sound, heard, calm, answered⟩
    cases samples with
    | nil => exact .throw ⟨sound, by simp⟩
    | cons first rest =>
      apply Leads.pure
      refine ⟨sound, heard, calm, fun oracle fixes => ?_⟩
      simp [Program.decideWith, prepared, answered oracle fixes]

end

end Decide

end OpenUltraSast.Learn.Experiments
