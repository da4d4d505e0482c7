import OpenUltraSast.Cpg.Payload

/-!
# Reuse of answers

A backend whose answers are kept in the artifact cache, each under the digest of its question.
-/

namespace OpenUltraSast.Push.Reuse

open Values Cpg

@[ext] structure GraphIdentity where
  sourceDigest : String
  declarationsDigest : String
  exclusionsDigest : String
  unit : String
  language : String
  engineVersion : String
  frontend : String
  frontendVersion : String
  overlaySemantics : List String
  overlayOptions : List (String × String)
  frontendOptions : List (String × String) := []
deriving DecidableEq

def texts (values : List String) : Json := .arr (values.map .str)

def options (values : List (String × String)) : Json :=
  .arr (values.map fun option => .arr [.str option.1, .str option.2])

def GraphIdentity.toPayload (identity : GraphIdentity) : Json :=
  .obj [("source_digest", .str identity.sourceDigest),
    ("declarations_digest", .str identity.declarationsDigest),
    ("exclusions_digest", .str identity.exclusionsDigest), ("unit", .str identity.unit),
    ("language", .str identity.language), ("engine_version", .str identity.engineVersion),
    ("frontend", .str identity.frontend), ("frontend_version", .str identity.frontendVersion),
    ("overlay_semantics", texts identity.overlaySemantics),
    ("overlay_options", options identity.overlayOptions),
    ("frontend_options", options identity.frontendOptions)]

/-- What a batch reads of a `GraphArtifact`. -/
structure GraphArtifact where
  identity : GraphIdentity
  graphDigest : String
  sourceRoot : String := "relative"
  sourcePaths : List String := []

/-- What `SemanticKeys.query` reads. -/
@[ext] structure SemanticKeys where
  facts : String
  queries : String
  configuration : String
deriving DecidableEq

/-- What `SemanticKeys.query` digests. -/
def SemanticKeys.queryValue (semantics : SemanticKeys) (graph : String) (kind : String)
    (request context : Json) : Json :=
  .obj [("layer", .str "query-v1"), ("graph", .str graph), ("kind", .str kind),
    ("request", request), ("context", context), ("facts", .str semantics.facts),
    ("queries", .str semantics.queries), ("configuration", .str semantics.configuration)]

def GraphArtifact.graphValue (artifact : GraphArtifact) : Json :=
  .obj [("identity", artifact.identity.toPayload), ("bytes", .str artifact.graphDigest)]

def GraphArtifact.context (artifact : GraphArtifact) : Json :=
  .obj [("paths", texts artifact.sourcePaths),
    ("declarations", .str artifact.identity.declarationsDigest)]

/-- A JSON entry with its kind; a graph has none, and its payload is a file. -/
structure Stored where
  kind : Option String
  payload : Json

abbrev Cache := List (String × Stored)

/-- `get_json`; a lookup that found no lock, no time or no intact entry is a miss. -/
def Cache.getJson (cache : Cache) (found : Bool) (key kind : String) : Option Json :=
  if found then
    (cache.lookup key).bind fun stored =>
      if stored.kind = some kind then some stored.payload else none
  else none

/-- `put_json`: the payload is written with its keys in order. -/
def Cache.putJson (cache : Cache) (stored : Bool) (key kind : String) (payload : Json)
    (complete : Bool) : Cache :=
  if complete && stored then Dicts.set cache key ⟨some kind, payload.sorted⟩ else cache

mutual
/-- `normalize`: the source root is taken off every text. -/
def normalize (root : String) : Json → Json
  | .str text => .str (Text.replace (root ++ "/") "" text)
  | .arr items => .arr (normalizeItems root items)
  | .obj fields => .obj (normalizeFields root fields)
  | value => value

def normalizeItems (root : String) : List Json → List Json
  | [] => []
  | item :: items => normalize root item :: normalizeItems root items

def normalizeFields (root : String) : List (String × Json) → List (String × Json)
  | [] => []
  | (key, value) :: fields => (key, normalize root value) :: normalizeFields root fields
end

/-- `int(str(row.get(key, default)))`, with none for its `ValueError`. -/
def number (r : Reader) (row : Fields) (key : String) (default : Int) : Option Int :=
  r.int (r.str ((row.lookup key).getD (.int default)))

def isStr : Json → Bool
  | .str _ => true
  | _ => false

/-- `_census`: one row that names every source path and counts one graph with methods. -/
def census (r : Reader) (value : Json) (artifact : GraphArtifact) : Bool :=
  match value with
  | .arr [.obj row] =>
    match row.lookup "file_names" with
    | some (.arr names) =>
      names.all isStr && artifact.sourcePaths.all (fun path => names.any (·.isStr path)) &&
        (number r row "methods" 0).any (0 < ·) &&
        (number r row "files" 0).any ((artifact.sourcePaths.length : Int) ≤ ·) &&
        (number r row "shards" 1).any (· = 1)
    | _ => false
  | _ => false

/-- What happens in one batch: whether time is left for each request and for the engine, whether
each lookup finds its entry, what the engine prints (the single questions where it has no batch),
and whether each publication is kept. -/
structure Turn where
  timeFor : Nat → Bool := fun _ => true
  found : Nat → Bool := fun _ => true
  askInTime : Bool := true
  engine : Option (List (String × Json) → Option Json) := none
  run : Json → Json := fun _ => .null
  stored : Nat → Bool := fun _ => true

structure Call where
  artifact : GraphArtifact
  semantics : SemanticKeys
  kind : String
  requests : List (String × Json)
  turn : Turn

namespace Call

variable (digest : Json → String) (r : Reader) (call : Call)

def question (request : Json) : Json :=
  call.semantics.queryValue (digest call.artifact.graphValue) call.kind request
    call.artifact.context

def key (request : Json) : String := digest (call.question digest request)

def cached (cache : Cache) (found : Bool) (request : Json) : Option (List Json × Json) :=
  match cache.getJson found (call.key digest request) "query" with
  | some (.obj entry) =>
    match entry.lookup "rows" with
    | some (.arr rows) =>
      if census r (Json.field entry "census") call.artifact then
        some (rows, Json.field entry "census")
      else none
    | _ => none
  | _ => none

/-- The loop over the requests: what the cache answered, and what is missing. -/
def look (cache : Cache) : List (String × Json) → Nat → Fields × List (String × Json) →
    Fields × List (String × Json)
  | [], _, state => state
  | (rid, request) :: rest, n, (answers, missing) =>
    if call.turn.timeFor n then
      match call.cached digest r cache (call.turn.found n) request with
      | some (rows, counted) =>
        look cache rest (n + 1) (Dicts.set (Dicts.set answers rid (.arr rows)) censusKey counted, missing)
      | none => look cache rest (n + 1) (answers, missing ++ [(rid, request)])
    else (answers, missing)

def raw (missing : List (String × Json)) : Option Json :=
  match call.turn.engine with
  | some engine => engine missing
  | none => some (.obj (missing.map fun entry => (entry.1, call.turn.run entry.2)))

/-- The loop over the missing requests: each list of rows is an answer and is published. -/
def keep (normalized : Fields) (counted : Json) : List (String × Json) → Nat → Fields × Cache →
    Fields × Cache
  | [], _, state => state
  | (rid, request) :: rest, n, (answers, cache) =>
    match normalized.lookup rid with
    | some (.arr rows) =>
      let payload := Json.obj [("rows", .arr rows), ("census", counted)]
      keep normalized counted rest (n + 1) (Dicts.set answers rid (.arr rows),
        cache.putJson (call.turn.stored n) (call.key digest request) "query" payload true)
    | _ => keep normalized counted rest (n + 1) (answers, cache)

def withTiming (answers raw : Fields) : Fields :=
  match raw.lookup timingKey with
  | some (.arr timing) => Dicts.set answers timingKey (.arr timing)
  | _ => answers

def answers (cache : Cache) : Fields × Cache :=
  let (answers, missing) := call.look digest r cache call.requests 0 ([], [])
  if missing.isEmpty || !call.turn.askInTime then (answers, cache)
  else
    match call.raw missing with
    | some (.obj raw) =>
      let normalized := normalizeFields call.artifact.sourceRoot raw
      let counted := Json.field normalized censusKey
      if census r counted call.artifact then
        call.keep digest normalized counted missing 0
          (withTiming (Dicts.set answers censusKey counted) raw, cache)
      else (answers, cache)
    | _ => (answers, cache)

/-- `batch` of `_answers`, with the cache after it. -/
def batch (cache : Cache) : Option Fields × Cache :=
  let (answers, after) := call.answers digest r cache
  (if answers.isEmpty then none else some answers, after)

end Call

inductive Event where
  | batch (call : Call)
  | graph (identity : GraphIdentity)
  | evict (keys : List String)

def graphKeyValue (identity : GraphIdentity) : Json :=
  .obj [("layer", .str "graph-v1"), ("identity", identity.toPayload)]

def Event.apply (digest : Json → String) (r : Reader) (cache : Cache) : Event → Cache
  | .batch call => (call.batch digest r cache).2
  | .graph identity => Dicts.set cache (digest (graphKeyValue identity)) ⟨none, .null⟩
  | .evict keys => cache.filter fun entry => entry.1 ∉ keys

def history (digest : Json → String) (r : Reader) (events : List Event) : Cache :=
  events.foldl (Event.apply digest r) []

def calls (events : List Event) : List Call :=
  events.filterMap fun
    | .batch call => some call
    | _ => none

end OpenUltraSast.Push.Reuse

/-!
## Where a reused answer comes from

Every entry of the cache holds rows that an engine printed under a valid census, and its key says for
which question.
-/

namespace OpenUltraSast.Push.Reuse

open Values Cpg List

variable {digest : Json → String} {r : Reader}

theorem lookup_normalizeFields (root : String) (fields : Fields) (key : String) :
    (normalizeFields root fields).lookup key = (fields.lookup key).map (normalize root) := by
  induction fields with
  | nil => rfl
  | cons entry fields ih =>
    rw [normalizeFields, lookup_cons, lookup_cons, ih]
    split <;> rfl

private theorem field_normalizeFields (root : String) (fields : Fields) (key : String) :
    Json.field (normalizeFields root fields) key = normalize root (Json.field fields key) := by
  rw [Json.field, Json.field, lookup_normalizeFields]
  cases fields.lookup key <;> rfl

private theorem normalize_eq_arr {root : String} {value : Json} {rows : List Json}
    (is : normalize root value = .arr rows) :
    ∃ given, value = .arr given ∧ rows = normalizeItems root given := by
  cases value with
  | arr given =>
    rw [normalize, Json.arr.injEq] at is
    exact ⟨given, rfl, is.symm⟩
  | _ => simp [normalize] at is

theorem census_congr {artifact other : GraphArtifact} (same : artifact.sourcePaths = other.sourcePaths)
    (value : Json) : census r value artifact = census r value other := by
  unfold census
  rw [same]

/-- In a call the engine printed these rows, normalised, for a request, under a census that covers
the source paths of the call's graph. -/
structure Gave (r : Reader) (call : Call) (request : Json) (rows : List Json) (counted : Json) :
    Prop where
  printed : ∃ asked name raw given, asked ⊆ call.requests ∧ (name, request) ∈ asked ∧
    call.raw asked = some (.obj raw) ∧ raw.lookup name = some (.arr given) ∧
    rows = normalizeItems call.artifact.sourceRoot given ∧
    counted = normalize call.artifact.sourceRoot (Json.field raw censusKey)
  covers : census r counted call.artifact = true

/-- Each answer in the cache is one that an engine gave in one of these calls for the question of
its key. -/
def Honest (digest : Json → String) (r : Reader) (made : List Call) (cache : Cache) : Prop :=
  ∀ key stored, (key, stored) ∈ cache → stored.kind = some "query" →
    ∃ call ∈ made, ∃ request rows counted, (∃ name, (name, request) ∈ call.requests) ∧
      Gave r call request rows counted ∧ key = call.key digest request ∧
      stored.payload = (Json.obj [("rows", .arr rows), ("census", counted)]).sorted

/-- Rows that an engine gave, in one of these calls, for a question with the same key. -/
def Backed (digest : Json → String) (r : Reader) (made : List Call) (call : Call) (request : Json)
    (rows : List Json) : Prop :=
  ∃ earlier ∈ made, ∃ other given counted, (∃ name, (name, other) ∈ earlier.requests) ∧
    Gave r earlier other given counted ∧ earlier.key digest other = call.key digest request ∧
    rows.map Json.sorted = given.map Json.sorted

/-- Each answer is for a request of the call, with rows that an engine gave. -/
def AllBacked (digest : Json → String) (r : Reader) (made : List Call) (call : Call)
    (answers : Fields) : Prop :=
  ∀ id value, id ∉ reserved → (id, value) ∈ answers →
    ∃ request rows, (id, request) ∈ call.requests ∧ value = .arr rows ∧
      Backed digest r made call request rows

variable {made : List Call} {call : Call}

variable {answers : Fields}

theorem AllBacked.set (backed : AllBacked digest r made call answers) {key : String} {value : Json}
    (new : key ∉ reserved → ∃ request rows,
      (key, request) ∈ call.requests ∧ value = .arr rows ∧ Backed digest r made call request rows) :
    AllBacked digest r made call (Dicts.set answers key value) := by
  intro id other free member
  rcases Dicts.mem_set member with same | old
  · cases same
    exact new free
  · exact backed id other free old

theorem AllBacked.reserved (backed : AllBacked digest r made call answers) {key : String}
    (taken : key ∈ reserved) (value : Json) :
    AllBacked digest r made call (Dicts.set answers key value) :=
  backed.set fun free => absurd taken free

variable {cache : Cache}

theorem Honest.mono (honest : Honest digest r made cache) {more : List Call} (sub : made ⊆ more) :
    Honest digest r more cache := by
  intro key stored member kind
  obtain ⟨earlier, there, rest⟩ := honest key stored member kind
  exact ⟨earlier, sub there, rest⟩

theorem backed_of_cached (honest : Honest digest r made cache) {found : Bool} {request : Json}
    {rows : List Json} {counted : Json}
    (held : call.cached digest r cache found request = some (rows, counted)) :
    Backed digest r made call request rows := by
  unfold Call.cached at held
  split at held
  next entry read =>
    split at held
    next stored rowed =>
      rw [Option.ite_none_right_eq_some] at held
      obtain ⟨-, same⟩ := held
      cases same
      unfold Cache.getJson at read
      rw [Option.ite_none_right_eq_some] at read
      obtain ⟨-, read⟩ := read
      obtain ⟨slot, there, read⟩ := Option.bind_eq_some_iff.mp read
      rw [Option.ite_none_right_eq_some, Option.some.injEq] at read
      obtain ⟨kind, payload⟩ := read
      obtain ⟨earlier, member, other, given, total, named, gave, key, written⟩ :=
        honest _ slot (Dicts.mem_of_lookup there) kind
      -- The rows of the entry are the given ones as they were written.
      rw [payload, Json.sorted, Json.obj.injEq] at written
      have lists : entry.lookup "rows" = some (Json.arr given).sorted := by
        rw [written, lookup_inKeyOrder, lookup_sortedValues]
        rfl
      rw [rowed, Option.some.injEq, Json.sorted, Json.arr.injEq, Json.sortedItems_eq] at lists
      refine ⟨earlier, member, other, given, total, named, gave, key.symm, ?_⟩
      rw [lists, map_map]
      exact map_congr_left fun row _ => Json.sorted_idem row
    next => cases held
  next => cases held

variable {rest : List (String × Json)}

/-- What the cache gives back is backed by an earlier call. -/
theorem look_spec (honest : Honest digest r made cache)
    (sub : rest ⊆ call.requests) (n : Nat) {missing : List (String × Json)}
    (backed : AllBacked digest r made call answers) (asked : missing ⊆ call.requests) :
    AllBacked digest r made call (call.look digest r cache rest n (answers, missing)).1 ∧
      (call.look digest r cache rest n (answers, missing)).2 ⊆ call.requests := by
  induction rest generalizing n answers missing with
  | nil => exact ⟨backed, asked⟩
  | cons entry rest ih =>
    obtain ⟨rid, request⟩ := entry
    have member : (rid, request) ∈ call.requests := sub mem_cons_self
    have later : rest ⊆ call.requests := fun _ there => sub (mem_cons_of_mem _ there)
    rw [Call.look]
    split
    · split
      next rows counted held =>
        apply ih later (n + 1) _ asked
        apply AllBacked.reserved _ (by decide)
        exact backed.set fun _ => ⟨request, rows, member, rfl, backed_of_cached honest held⟩
      next =>
        apply ih later (n + 1) backed
        exact append_subset.mpr ⟨asked, cons_subset.mpr ⟨member, nil_subset _⟩⟩
    · exact ⟨backed, asked⟩

/-- So is what a call keeps in it. -/
theorem keep_spec {raw normalized : Fields} {counted : Json} {asked : List (String × Json)}
    (known : call ∈ made) (sub : asked ⊆ call.requests) (prints : call.raw asked = some (.obj raw))
    (normal : normalized = normalizeFields call.artifact.sourceRoot raw)
    (counts : counted = Json.field normalized censusKey) (covers : census r counted call.artifact = true)
    (left : rest ⊆ asked) (n : Nat)
    (backed : AllBacked digest r made call answers) (honest : Honest digest r made cache) :
    AllBacked digest r made call (call.keep digest normalized counted rest n (answers, cache)).1 ∧
      Honest digest r made (call.keep digest normalized counted rest n (answers, cache)).2 := by
  -- on the requests still to be kept, the answers and the cache growing with each
  induction rest generalizing n answers cache with
  | nil => exact ⟨backed, honest⟩
  | cons entry rest ih =>
    obtain ⟨rid, request⟩ := entry
    have member : (rid, request) ∈ asked := left mem_cons_self
    have later : rest ⊆ asked := fun _ there => left (mem_cons_of_mem _ there)
    rw [Call.keep]
    split
    next rows rowed =>
      rw [normal, lookup_normalizeFields, Option.map_eq_some_iff] at rowed
      obtain ⟨value, printed, is⟩ := rowed
      obtain ⟨given, rfl, rfl⟩ := normalize_eq_arr is
      -- what is kept is the backend's own answer, under the normalised paths
      have gave : Gave r call request (normalizeItems call.artifact.sourceRoot given) counted := by
        refine ⟨⟨asked, rid, raw, given, sub, member, prints, printed, rfl, ?_⟩, covers⟩
        rw [counts, normal, field_normalizeFields]
      apply ih later (n + 1)
      · apply backed.set
        intro _
        exact ⟨request, _, sub member, rfl, call, known, request, _, counted, ⟨rid, sub member⟩, gave,
          rfl, rfl⟩
      · unfold Cache.putJson
        split
        · intro key stored there kind
          -- the entry just put, or one that was there before
          rcases Dicts.mem_set there with same | old
          · cases same
            exact ⟨call, known, request, _, counted, ⟨rid, sub member⟩, gave, rfl, rfl⟩
          · exact honest key stored old kind
        · exact honest
    -- a row that is no list is not kept
    next => exact ih later (n + 1) backed honest

/-- So are all answers of a call, and the cache stays honest. -/
theorem answers_spec (known : call ∈ made) (honest : Honest digest r made cache) :
    AllBacked digest r made call (call.answers digest r cache).1 ∧
      Honest digest r made (call.answers digest r cache).2 := by
  obtain ⟨backed, asked⟩ := look_spec honest (List.Subset.refl _) 0
    (nofun : AllBacked digest r made call []) (nil_subset _)
  rw [Call.answers]
  generalize call.look digest r cache call.requests 0 ([], []) = looked at backed asked
  obtain ⟨answers, missing⟩ := looked
  dsimp only
  split
  · exact ⟨backed, honest⟩
  · split
    next raw prints =>
      split
      next covers =>
        apply keep_spec known asked prints rfl rfl covers (List.Subset.refl _) 0 _ honest
        have counted := backed.reserved (by decide : censusKey ∈ Cpg.reserved)
          (Json.field (normalizeFields call.artifact.sourceRoot raw) censusKey)
        unfold Call.withTiming
        split
        · exact counted.reserved (by decide) _
        · exact counted
      next => exact ⟨backed, honest⟩
    next => exact ⟨backed, honest⟩

private theorem honest_apply (honest : Honest digest r made cache) {event : Event}
    (known : ∀ call, event = .batch call → call ∈ made) :
    Honest digest r made (event.apply digest r cache) := by
  cases event with
  | batch call => exact (answers_spec (known call rfl) honest).2
  | graph identity =>
    intro key stored member kind
    rcases Dicts.mem_set member with same | old
    · cases same
      cases kind
    · exact honest key stored old kind
  | evict keys =>
    intro key stored member kind
    exact honest key stored (mem_of_mem_filter member) kind

private theorem mem_calls {events : List Event} {call : Call} (member : .batch call ∈ events) :
    call ∈ calls events :=
  mem_filterMap.mpr ⟨_, member, rfl⟩

private theorem honest_history (events : List Event) :
    Honest digest r (calls events) (history digest r events) := by
  suffices run : ∀ some ⊆ events, ∀ cache, Honest digest r (calls events) cache →
      Honest digest r (calls events) (some.foldl (Event.apply digest r) cache) by
    exact run events (List.Subset.refl _) [] nofun
  intro some sub
  induction some with
  | nil => exact fun _ honest => honest
  | cons event rest ih =>
    intro cache honest
    apply ih fun _ later => sub (mem_cons_of_mem _ later)
    apply honest_apply honest
    rintro call rfl
    exact mem_calls (sub mem_cons_self)

/-- Two calls put one question: the same graph, kind, request, facts, queries and
configuration. -/
structure SameQuestion (earlier call : Call) (other request : Json) : Prop where
  identity : earlier.artifact.identity = call.artifact.identity
  bytes : earlier.artifact.graphDigest = call.artifact.graphDigest
  paths : earlier.artifact.sourcePaths = call.artifact.sourcePaths
  kind : earlier.kind = call.kind
  semantics : earlier.semantics = call.semantics
  request : other.sorted = request.sorted

def digested (digest : Json → String) (made : List Call) : List Json :=
  made.flatMap fun call =>
    call.artifact.graphValue :: call.requests.map fun entry => call.question digest entry.2

/-- No two of these values have the same digest unless they are written alike. -/
def CollisionFree (digest : Json → String) (values : List Json) : Prop :=
  ∀ value ∈ values, ∀ other ∈ values, digest value = digest other → value.sorted = other.sorted

theorem texts_inj {values others : List String} (same : (texts values).sorted = (texts others).sorted) :
    values = others := by
  rw [texts, texts, Json.sorted, Json.sorted, Json.arr.injEq, Json.sortedItems_eq,
    Json.sortedItems_eq, map_map, map_map] at same
  apply map_injective_iff.mpr _ same
  intro value other is
  exact Json.str.inj is

theorem options_inj {values others : List (String × String)}
    (same : (options values).sorted = (options others).sorted) : values = others := by
  rw [options, options, Json.sorted, Json.sorted, Json.arr.injEq, Json.sortedItems_eq,
    Json.sortedItems_eq, map_map, map_map] at same
  apply map_injective_iff.mpr _ same
  intro value other is
  simpa [Json.sorted, Json.sortedItems, Prod.ext_iff] using is

variable {fields others : Fields}

theorem sorted_of_lookup
    (same : (Json.obj fields).sorted = (Json.obj others).sorted) (key : String) {value other : Json}
    (left : fields.lookup key = some value) (right : others.lookup key = some other) :
    value.sorted = other.sorted := by
  have found := lookup_of_sorted_eq same key
  rw [left, right] at found
  exact Option.some.inj found

theorem text_of_lookup
    (same : (Json.obj fields).sorted = (Json.obj others).sorted) (key : String) {value other : String}
    (left : fields.lookup key = some (.str value)) (right : others.lookup key = some (.str other)) :
    value = other :=
  Json.str.inj (sorted_of_lookup same key left right)

private theorem toPayload_inj {identity other : GraphIdentity}
    (same : identity.toPayload.sorted = other.toPayload.sorted) : identity = other := by
  apply GraphIdentity.ext
  · exact text_of_lookup same "source_digest" rfl rfl
  · exact text_of_lookup same "declarations_digest" rfl rfl
  · exact text_of_lookup same "exclusions_digest" rfl rfl
  · exact text_of_lookup same "unit" rfl rfl
  · exact text_of_lookup same "language" rfl rfl
  · exact text_of_lookup same "engine_version" rfl rfl
  · exact text_of_lookup same "frontend" rfl rfl
  · exact text_of_lookup same "frontend_version" rfl rfl
  · exact texts_inj (sorted_of_lookup same "overlay_semantics" rfl rfl)
  · exact options_inj (sorted_of_lookup same "overlay_options" rfl rfl)
  · exact options_inj (sorted_of_lookup same "frontend_options" rfl rfl)

theorem sameQuestion_of_key (free : CollisionFree digest (digested digest made)) {earlier : Call}
    (known : earlier ∈ made) (here : call ∈ made) {name rid : String} {other request : Json}
    (theirs : (name, other) ∈ earlier.requests) (ours : (rid, request) ∈ call.requests)
    (same : earlier.key digest other = call.key digest request) :
    SameQuestion earlier call other request := by
  have graphs {call : Call} (known : call ∈ made) :
      call.artifact.graphValue ∈ digested digest made :=
    mem_flatMap.mpr ⟨call, known, mem_cons_self⟩
  have questions {call : Call} (known : call ∈ made) {rid : String} {request : Json}
      (asked : (rid, request) ∈ call.requests) :
      call.question digest request ∈ digested digest made :=
    mem_flatMap.mpr
      ⟨call, known, mem_cons_of_mem _ (mem_map.mpr ⟨_, asked, rfl⟩)⟩
  have question := free _ (questions known theirs) _ (questions here ours) same
  -- The digest of the graph is part of the question.
  have graph := free _ (graphs known) _ (graphs here) (text_of_lookup question "graph" rfl rfl)
  have context := sorted_of_lookup question "context" rfl rfl
  constructor
  case identity => exact toPayload_inj (sorted_of_lookup graph "identity" rfl rfl)
  case bytes => exact text_of_lookup graph "bytes" rfl rfl
  case paths => exact texts_inj (sorted_of_lookup context "paths" rfl rfl)
  case kind => exact text_of_lookup question "kind" rfl rfl
  case semantics =>
    apply SemanticKeys.ext
    · exact text_of_lookup question "facts" rfl rfl
    · exact text_of_lookup question "queries" rfl rfl
    · exact text_of_lookup question "configuration" rfl rfl
  case request => exact sorted_of_lookup question "request" rfl rfl

/-- Whatever runs the cache comes from, each answer of a batch is for one of its requests, with
the normalised rows that an engine gave, in this call or in an earlier one, for the same question,
under a census that covers the source paths of the graph. -/
theorem reused_rows_given (events : List Event)
    (free : CollisionFree digest (digested digest (call :: calls events))) {answers : Fields}
    (returned : (call.batch digest r (history digest r events)).1 = some answers) :
    ∀ id value, id ∉ reserved → answers.lookup id = some value →
      ∃ request rows, (id, request) ∈ call.requests ∧ value = .arr rows ∧
        ∃ earlier ∈ call :: calls events, ∃ other given counted,
          SameQuestion earlier call other request ∧ Gave r earlier other given counted ∧
          census r counted call.artifact = true ∧ rows.map Json.sorted = given.map Json.sorted := by
  intro id value unreserved held
  have honest : Honest digest r (call :: calls events) (history digest r events) :=
    (honest_history events).mono (subset_cons_self _ _)
  obtain ⟨backed, -⟩ := answers_spec (mem_cons_self (a := call)) honest
  unfold Call.batch at returned
  dsimp only at returned
  rw [Option.ite_none_left_eq_some, Option.some.injEq] at returned
  obtain ⟨-, rfl⟩ := returned
  obtain ⟨request, rows, asked, rfl, earlier, known, other, given, counted, ⟨name, theirs⟩, gave,
    key, same⟩ := backed id value unreserved (Dicts.mem_of_lookup held)
  have question := sameQuestion_of_key free known mem_cons_self theirs asked key
  refine ⟨request, rows, asked, rfl, earlier, known, other, given, counted, question, gave, ?_, same⟩
  rw [← census_congr question.paths]
  exact gave.covers

def runArtifact : GraphArtifact where
  identity := {
    sourceDigest := "source", declarationsDigest := "declared", exclusionsDigest := "excluded",
    unit := "unit", language := "python", engineVersion := "4.0", frontend := "pysrc2cpg",
    frontendVersion := "4.0", overlaySemantics := ["dataflowOss"], overlayOptions := [] }
  graphDigest := "graph"
  sourceRoot := "/src"
  sourcePaths := ["a.py"]

def runSemantics : SemanticKeys := ⟨"facts", "queries", "configuration"⟩

def graphHex : String := "e4b85717af251b0c38b92bf3ca24509300ac7f951d3f11c7e312e139c18f0eba"

def runDigest (value : Json) : String :=
  if value = runArtifact.graphValue then graphHex
  else if value = runSemantics.queryValue graphHex "taint" (.obj [("sink", .str "exec")])
      runArtifact.context then
    "c346d2fafb89930b3670bacd2cb3021e134701cdfad288c797fd408634bb8421"
  else ""

def runReader : Reader where
  loads _ := none
  rawDecode _ := none
  repr _ := ""
  int text := if text = "1" then some 1 else none

def runEngine (_ : List (String × Json)) : Option Json :=
  some (.obj [("a", .arr [.obj [("path", .str "/src/a.py")]]),
    (censusKey, .arr [.obj [("methods", .str "1"), ("files", .str "1"), ("shards", .str "1"),
      ("file_names", .arr [.str "/src/a.py"])]])])

def firstCall : Call where
  artifact := runArtifact
  semantics := runSemantics
  kind := "taint"
  requests := [("a", .obj [("sink", .str "exec")])]
  turn := { engine := some runEngine }

def secondCall : Call where
  artifact := runArtifact
  semantics := runSemantics
  kind := "taint"
  requests := [("b", .obj [("sink", .str "exec")])]
  turn := {}

def reusedAnswers : Fields :=
  [("b", .arr [.obj [("path", .str "a.py")]]),
    (censusKey, .arr [.obj [("file_names", .arr [.str "a.py"]), ("files", .str "1"),
      ("methods", .str "1"), ("shards", .str "1")]])]

theorem second_batch_reuses :
    ∃ request rows, ("b", request) ∈ secondCall.requests ∧
      Json.arr [.obj [("path", .str "a.py")]] = .arr rows ∧
      ∃ earlier ∈ [secondCall, firstCall], ∃ other given counted,
        SameQuestion earlier secondCall other request ∧ Gave runReader earlier other given counted ∧
        census runReader counted secondCall.artifact = true ∧
        rows.map Json.sorted = given.map Json.sorted := by
  have run : (secondCall.batch runDigest runReader
      (history runDigest runReader [.batch firstCall])).1 = some reusedAnswers := by
    decide +kernel
  have free : CollisionFree runDigest (digested runDigest [secondCall, firstCall]) := by
    unfold CollisionFree
    decide +kernel
  exact reused_rows_given [.batch firstCall] free run "b" _ (by decide) rfl

end OpenUltraSast.Push.Reuse
