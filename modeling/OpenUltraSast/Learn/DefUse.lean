import Mathlib.Data.Prod.Lex
import OpenUltraSast.Learn.Comments
import OpenUltraSast.Library.Dicts
import OpenUltraSast.Semantic.Taint

/-!
# Local slices

The definitions and uses of a function along which a source reaches a sink of a family.
-/

namespace OpenUltraSast.Learn.Slices

open Dicts Excerpts Semantic Semantic.Taint

inductive Role where
  | source
  | step
  | sanitizer
  | guard
  | sink
deriving DecidableEq

structure Step where
  line : Nat
  role : Role
  code : Line
deriving DecidableEq

/-- The calls that end a flow of a family, and those that clean it. -/
structure Spec where
  sinks : List String
  sanitizers : List String

inductive Event where
  | bind (item : Semantic.Bind)
  | call (item : CallSite)

def Event.order : Event → Nat
  | .bind item => item.order
  | .call item => item.order

def Event.line : Event → Nat
  | .bind item => item.line
  | .call item => item.line

def Event.key (event : Event) : Nat ×ₗ Bool :=
  toLex (if event.order ≠ 0 then event.order else event.line,
    match event with | .bind _ => true | .call _ => false)

def events (function : FunctionIR) : List Event :=
  (function.binds.map Event.bind ++ function.calls.map Event.call).insertionSort fun a b =>
    a.key ≤ b.key

/-- An expression: the value of a bind or an argument of a call. -/
structure Use where
  text : String
  names : List String
  constant : Bool
  line : Nat
  order : Nat

def useOf (bind : Semantic.Bind) : Use :=
  ⟨bind.valueText, bind.names, bind.isConstant, bind.line, bind.order⟩

def argumentUses (call : CallSite) : List Use :=
  (arguments call).map fun argument =>
    ⟨argument.text, argument.names, argument.isConstant, call.line, call.order⟩

/-- `re.search(r"(?<![\w$])" + re.escape(name) + r"\s*\(", text)`. -/
def calledIn (name text : String) : Bool :=
  ((Regex.seqs [.notBehind fun c => Regex.isWord c || c = '$', Regex.lit name, Regex.spaces,
    Regex.lit "("]).search text).isSome

section Paths
variable (facts : FlowFacts) (spec : Spec) (step : Nat → Role → Step) (function : FunctionIR)

abbrev States := List (String × List Step)

def held (states : States) (name : String) : List Step := (states.lookup name).getD []

/-- The sanitizer calls inside an expression, not those elsewhere on its line. -/
def sanitizersIn (use : Use) : List Step :=
  (function.calls.filter fun call =>
    use.line ≤ call.line && (use.order = 0 || call.order ≤ use.order) &&
      spec.sanitizers.any fun name => calledIn name use.text && callMatches call.name name).map
    fun call => step call.line .sanitizer

/-- `value(text, names, constant, line, end)`. -/
def value (states : States) (use : Use) : List Step :=
  if use.constant then []
  else
    let result := use.names.flatMap (held states) ++
      if (sourceIn use.text facts).isSome then [step use.line .source] else []
    if result = [] then [] else result ++ sanitizersIn spec step function use

def bound (states : States) (bind : Semantic.Bind) : States :=
  let inherited := value facts spec step function states (useOf bind)
  set states bind.name (if inherited = [] then [] else inherited ++ [step bind.line .step])

def isSink (call : CallSite) : Bool := spec.sinks.any (callMatches call.name)

/-- What a call to a sink adds to the paths. -/
def found (states : States) (call : CallSite) : List Step :=
  if isSink spec call then
    let reached := (argumentUses call).flatMap (value facts spec step function states)
    if reached = [] then []
    else
      reached ++ (if (sanitizerFor call facts).isSome then [step call.line .sanitizer] else []) ++
        [step call.line .sink]
  else []

def walk : List Event → States → List Step
  | [], _ => []
  | .bind bind :: rest, states => walk rest (bound facts spec step function states bind)
  | .call call :: rest, states => found facts spec step function states call ++ walk rest states

def start : States :=
  ofEntries (function.params.map fun name => (name, [step function.startLine .source]))

/-- `paths(function)`. -/
def paths : List Step := walk facts spec step function (events function) (start step function)

end Paths

/-- What reads the excerpt besides the redaction: its lines, the number that a line carries with the
rest of the line, the parser, and the facts of a language. -/
structure Reader extends Wording where
  splitlines : Line → List Line
  numbered : Line → Option (Nat × Line)
  dedent : Line → Line
  parseFile : Line → String → FileIR
  taintSpecs : String → String → Option Spec
  facts : String → FlowFacts

def Role.rank : Role → Nat
  | .source => 0
  | .step => 1
  | .sanitizer => 2
  | .guard => 3
  | .sink => 4

variable (r : Reader)

def beforeDiff (text : Line) : Line :=
  match findFrom "\ndiff:\n".toList text with
  | some i => text.take i
  | none => text

structure Parsed where
  numbers : List Nat
  lines : List Line
  ir : FileIR

/-- The excerpt without its line numbers, unless only some lines have one, two have the same, or it
does not parse. -/
def parsed (text : Line) (language : String) : Option Parsed :=
  let raw := r.splitlines (beforeDiff text)
  let found := raw.map r.numbered
  if found.any Option.isSome && !found.all Option.isSome then none
  else
    let numbers := found.mapIdx fun i numbered => (numbered.map (·.1)).getD (i + 1)
    let lines := List.zipWith (fun numbered line => (numbered.map (·.2)).getD line) found raw
    if ¬ numbers.Nodup then none
    else
      let ir := r.parseFile (r.dedent (['\n'].intercalate lines)) language
      if ir.parseOk then some ⟨numbers, lines, ir⟩ else none

/-- `step(line, role)`. The lines of the parser are those of the text. -/
def stepAt (excerpt : Parsed) (language : String) (line : Nat) (role : Role) : Step :=
  let shown := redact r.toWording excerpt.lines language []
  ⟨excerpt.numbers.getD (line - 1) 0, role, rstrip (lstrip (shown.getD (line - 1) []))⟩

/-- `function_slice(excerpt_text, language, family)`. -/
def functionSlice (text : Line) (language family : String) : Option (List Step) :=
  (parsed r text language).map fun excerpt =>
    match r.taintSpecs language family with
    | none => []
    | some spec =>
      let steps := excerpt.ir.functions.flatMap
        (paths (r.facts language) spec (stepAt r excerpt language))
      steps.eraseDups.insertionSort fun a b =>
        toLex (a.line, a.role.rank) ≤ toLex (b.line, b.role.rank)

end OpenUltraSast.Learn.Slices

/-!
## Slices follow definitions

On a function whose events are in one order, the latest earlier bind of a name is the definition in
force. The source, step and sink lines of a slice are those of the chains of such definitions.
-/

namespace OpenUltraSast.Learn.Slices

open Dicts Excerpts Semantic Semantic.Taint

structure Ordered (function : FunctionIR) : Prop where
  positive : ∀ event ∈ function.binds.map Event.bind ++ function.calls.map Event.call,
    0 < event.order
  distinct : ((function.binds.map Event.bind ++ function.calls.map Event.call).map Event.order).Nodup

structure Latest (function : FunctionIR) (name : String) (order : Nat) (bind : Semantic.Bind) :
    Prop where
  member : bind ∈ function.binds
  named : bind.name = name
  earlier : bind.order < order
  last : ∀ other ∈ function.binds, other.name = name → other.order < order → other.order ≤ bind.order

def Unbound (function : FunctionIR) (name : String) (order : Nat) : Prop :=
  ∀ bind ∈ function.binds, bind.name = name → order ≤ bind.order

section Chains
variable (facts : FlowFacts) (spec : Spec) (step : Nat → Role → Step) (function : FunctionIR)

inductive Leads : Use → Step → Prop where
  | source {use : Use} (open_ : use.constant = false)
      (matched : (sourceIn use.text facts).isSome = true) : Leads use (step use.line .source)
  | parameter {use : Use} {name : String} (open_ : use.constant = false) (uses : name ∈ use.names)
      (param : name ∈ function.params) (unbound : Unbound function name use.order) :
      Leads use (step function.startLine .source)
  | definition {use : Use} {name : String} {bind : Semantic.Bind} {found : Step}
      (open_ : use.constant = false) (uses : name ∈ use.names)
      (latest : Latest function name use.order bind) (leads : Leads (useOf bind) found) :
      Leads use found
  | assigned {use : Use} {name : String} {bind : Semantic.Bind} {found : Step}
      (open_ : use.constant = false) (uses : name ∈ use.names)
      (latest : Latest function name use.order bind) (leads : Leads (useOf bind) found) :
      Leads use (step bind.line .step)

/-- A line that a sink call reports: its own when a chain ends in an argument, and those chains. -/
def Reports (call : CallSite) (found : Step) : Prop :=
  isSink spec call = true ∧
    (∃ use ∈ argumentUses call, ∃ origin, Leads facts step function use origin) ∧
      (found = step call.line .sink ∨ ∃ use ∈ argumentUses call, Leads facts step function use found)

/-- A line of a chain that ends in a name. -/
def Holds (name : String) (order : Nat) (found : Step) : Prop :=
  (name ∈ function.params ∧ Unbound function name order ∧ found = step function.startLine .source) ∨
    ∃ bind, Latest function name order bind ∧
      (Leads facts step function (useOf bind) found ∨
        found = step bind.line .step ∧ ∃ origin, Leads facts step function (useOf bind) origin)

variable {facts spec step function}

theorem leads_iff {use : Use} {found : Step} : Leads facts step function use found ↔
    use.constant = false ∧
      (((sourceIn use.text facts).isSome = true ∧ found = step use.line .source) ∨
        ∃ name ∈ use.names, Holds facts step function name use.order found) := by
  constructor
  · intro leads
    cases leads with
    | source open_ matched => exact ⟨open_, .inl ⟨matched, rfl⟩⟩
    | parameter open_ uses param unbound =>
      exact ⟨open_, .inr ⟨_, uses, .inl ⟨param, unbound, rfl⟩⟩⟩
    | definition open_ uses latest leads => exact ⟨open_, .inr ⟨_, uses, .inr ⟨_, latest, .inl leads⟩⟩⟩
    | assigned open_ uses latest leads =>
      exact ⟨open_, .inr ⟨_, uses, .inr ⟨_, latest, .inr ⟨rfl, _, leads⟩⟩⟩⟩
  · rintro ⟨open_, ⟨matched, rfl⟩ | ⟨name, uses, ⟨param, unbound, rfl⟩ | ⟨bind, latest, leads⟩⟩⟩
    · exact .source open_ matched
    · exact .parameter open_ uses param unbound
    · rcases leads with leads | ⟨rfl, origin, leads⟩
      · exact .definition open_ uses latest leads
      · exact .assigned open_ uses latest leads

variable (facts step function) in
structure Known (states : States) (order : Nat) : Prop where
  leads : ∀ name found, found.role ≠ .sanitizer →
    (found ∈ held states name ↔ Holds facts step function name order found)
  some_ : ∀ name, held states name ≠ [] → ∃ found ∈ held states name, found.role ≠ .sanitizer

variable (roles : ∀ line role, (step line role).role = role)
include roles

theorem Leads.role {use : Use} {found : Step} (leads : Leads facts step function use found) :
    found.role ≠ .sanitizer := by
  induction leads with
  | source => rw [roles]; nofun
  | parameter => rw [roles]; nofun
  | definition _ _ _ _ ih => exact ih
  | assigned => rw [roles]; nofun

section Value
variable {states : States} {use : Use}

variable (facts step) in
def reaching (states : States) (use : Use) : List Step :=
  use.names.flatMap (held states) ++
    if (sourceIn use.text facts).isSome then [step use.line .source] else []

omit roles in
theorem value_of_open (open_ : use.constant = false) : value facts spec step function states use =
    if reaching facts step states use = [] then []
    else reaching facts step states use ++ sanitizersIn spec step function use := by
  rw [value, if_neg (by simp [open_])]
  rfl

variable (known : Known facts step function states use.order)
include known

omit roles in
private theorem mem_reaching {found : Step} (own : found.role ≠ .sanitizer) :
    found ∈ reaching facts step states use ↔
      ((sourceIn use.text facts).isSome = true ∧ found = step use.line .source) ∨
        ∃ name ∈ use.names, Holds facts step function name use.order found := by
  rw [reaching, List.mem_append, List.mem_flatMap, or_comm]
  apply or_congr
  · split
    next matched => simp [matched]
    next other => simp [other]
  · apply exists_congr
    exact fun name => and_congr_right fun _ => known.leads name found own

theorem mem_value {found : Step} (own : found.role ≠ .sanitizer) :
    found ∈ value facts spec step function states use ↔ Leads facts step function use found := by
  have apart : found ∉ sanitizersIn spec step function use := by
    intro inside
    obtain ⟨call, -, rfl⟩ := List.mem_map.mp inside
    exact own (roles _ _)
  rw [leads_iff, ← mem_reaching known own]
  cases constant : use.constant with
  | true => simp [value, constant]
  | false =>
    rw [value_of_open constant, and_iff_right rfl]
    split
    next empty => rw [empty]
    next => rw [List.mem_append, or_iff_left apart]

theorem value_ne_nil_iff : value facts spec step function states use ≠ [] ↔
    ∃ found, Leads facts step function use found := by
  constructor
  · intro some_
    -- a sanitizer is there only with something that leads to the value
    have inner : ∃ found ∈ value facts spec step function states use, found.role ≠ .sanitizer := by
      cases constant : use.constant with
      | true => exact absurd (by simp [value, constant]) some_
      | false =>
        rw [value_of_open constant] at some_ ⊢
        split at some_
        next => exact absurd rfl some_
        next reached =>
          rw [if_neg reached]
          obtain ⟨found, member⟩ := List.exists_mem_of_ne_nil _ reached
          rcases List.mem_append.mp member with named | source
          · obtain ⟨name, uses, inside⟩ := List.mem_flatMap.mp named
            obtain ⟨other, held_, own⟩ := known.some_ name (List.ne_nil_of_mem inside)
            refine ⟨other, List.mem_append_left _ (List.mem_append_left _ ?_), own⟩
            exact List.mem_flatMap.mpr ⟨name, uses, held_⟩
          · refine ⟨found, List.mem_append_left _ member, ?_⟩
            split at source
            next => rw [List.mem_singleton.mp source, roles]; nofun
            next => cases source
    obtain ⟨found, member, own⟩ := inner
    exact ⟨found, (mem_value roles known own).mp member⟩
  · rintro ⟨found, leads⟩
    exact List.ne_nil_of_mem ((mem_value roles known (leads.role roles)).mpr leads)

end Value

section Bound
variable {bind : Semantic.Bind} (member : bind ∈ function.binds) {order : Nat}
  (next : ∀ other ∈ function.binds, other.order < order ↔ other.order < bind.order ∨ other = bind)
include member next

omit roles in
theorem latest_own {other : Semantic.Bind} :
    Latest function bind.name order other ↔ other = bind := by
  have before : bind.order < order := (next bind member).mpr (.inr rfl)
  constructor
  · rintro ⟨inside, named, earlier, last⟩
    have above := last bind member rfl before
    rcases (next other inside).mp earlier with lower | same
    · omega
    · exact same
  · rintro rfl
    refine ⟨member, rfl, before, fun older inside _ earlier => ?_⟩
    rcases (next older inside).mp earlier with lower | rfl
    · exact Nat.le_of_lt lower
    · exact Nat.le_refl _

omit roles member in
theorem latest_other {name : String} (apart : name ≠ bind.name) {other : Semantic.Bind} :
    Latest function name order other ↔ Latest function name bind.order other := by
  have same {older : Semantic.Bind} (inside : older ∈ function.binds) (named : older.name = name) :
      older.order < order ↔ older.order < bind.order := by
    rw [next older inside]
    exact or_iff_left fun is => apart (by rw [← named, is])
  constructor
  · rintro ⟨inside, named, earlier, last⟩
    exact ⟨inside, named, (same inside named).mp earlier, fun older held is lower =>
      last older held is ((same held is).mpr lower)⟩
  · rintro ⟨inside, named, earlier, last⟩
    exact ⟨inside, named, (same inside named).mpr earlier, fun older held is lower =>
      last older held is ((same held is).mp lower)⟩

omit roles member in
private theorem unbound_other {name : String} (apart : name ≠ bind.name) :
    Unbound function name order ↔ Unbound function name bind.order := by
  have same {older : Semantic.Bind} (inside : older ∈ function.binds) (named : older.name = name) :
      order ≤ older.order ↔ bind.order ≤ older.order := by
    have place := next older inside
    have other : older ≠ bind := fun is => apart (by rw [← named, is])
    simp only [other, or_false] at place
    omega
  constructor
  · exact fun all older inside named => (same inside named).mp (all older inside named)
  · exact fun all older inside named => (same inside named).mpr (all older inside named)

theorem Known.bound {states : States} (known : Known facts step function states bind.order) :
    Known facts step function (bound facts spec step function states bind) order := by
  have before : bind.order < order := (next bind member).mpr (.inr rfl)
  -- the states after the bind
  have held_set (name : String) : held (Slices.bound facts spec step function states bind) name =
      if name = bind.name then
        if value facts spec step function states (useOf bind) = [] then []
        else value facts spec step function states (useOf bind) ++ [step bind.line .step]
      else held states name := by
    rw [held, Slices.bound, lookup_set]
    split <;> rfl
  have inherited (found : Step) (own : found.role ≠ .sanitizer) :=
    @mem_value facts spec step function roles states (useOf bind) known found own
  have some_ := @value_ne_nil_iff facts spec step function roles states (useOf bind) known
  constructor
  · intro name found own
    rw [held_set]
    by_cases here : name = bind.name
    · subst here
      -- from here on this bind is the latest one of its name
      have holds : Holds facts step function bind.name order found ↔
          Leads facts step function (useOf bind) found ∨
            found = step bind.line .step ∧ ∃ origin, Leads facts step function (useOf bind) origin := by
        constructor
        · rintro (⟨-, unbound, -⟩ | ⟨other, latest, leads⟩)
          · exact absurd (unbound bind member rfl) (by omega)
          · rwa [(latest_own member next).mp latest] at leads
        · exact fun leads => .inr ⟨bind, (latest_own member next).mpr rfl, leads⟩
      rw [if_pos rfl, holds, ← inherited found own, ← some_]
      split
      next empty => simp [empty]
      next reached => simp [reached]
    · rw [if_neg here, known.leads name found own, Holds, Holds, unbound_other next here]
      apply or_congr_right
      exact exists_congr fun other => by rw [latest_other next here]
  · intro name
    rw [held_set]
    split
    next =>
      split
      next => exact fun is => absurd rfl is
      next => exact fun _ => ⟨_, List.mem_append_right _ List.mem_cons_self, by rw [roles]; nofun⟩
    next => exact known.some_ name

end Bound

private theorem mem_found {states : States} {call : CallSite}
    (known : Known facts step function states call.order) {line : Step}
    (own : line.role ≠ .sanitizer) :
    line ∈ found facts spec step function states call ↔ Reports facts spec step function call line := by
  have values {use : Use} (inside : use ∈ argumentUses call) :
      Known facts step function states use.order := by
    obtain ⟨argument, -, rfl⟩ := List.mem_map.mp inside
    exact known
  -- a sink reports only when some argument has a source
  have reached : (argumentUses call).flatMap (value facts spec step function states) ≠ [] ↔
      ∃ use ∈ argumentUses call, ∃ origin, Leads facts step function use origin := by
    rw [ne_eq, List.flatMap_eq_nil_iff]
    simp only [not_forall, exists_prop]
    apply exists_congr
    exact fun use => and_congr_right fun inside => value_ne_nil_iff roles (values inside)
  have inner : line ∈ (argumentUses call).flatMap (value facts spec step function states) ↔
      ∃ use ∈ argumentUses call, Leads facts step function use line := by
    rw [List.mem_flatMap]
    apply exists_congr
    exact fun use => and_congr_right fun inside => mem_value roles (values inside) own
  -- the marker of a sanitizer is not a line of its own
  have cleaned : line ∉ (if (sanitizerFor call facts).isSome then [step call.line .sanitizer]
      else []) := by
    split
    next =>
      intro inside
      rw [List.mem_singleton.mp inside, roles] at own
      exact own rfl
    next => exact List.not_mem_nil
  rw [Reports, ← reached, ← inner, found]
  split
  next sink =>
    dsimp only
    split
    next empty => simp [empty]
    next some_ =>
      rw [List.mem_append, List.mem_append, or_iff_left cleaned, List.mem_singleton, or_comm]
      simp [sink, some_]
  next other => simp [other]

/-- The binds before a place are those that are not ahead. -/
def Passed (function : FunctionIR) (ahead : List Event) (order : Nat) : Prop :=
  ∀ bind ∈ function.binds, bind.order < order ↔ Event.bind bind ∉ ahead

/-- The walk reports the steps of the calls that are ahead of it. -/
theorem mem_walk {ahead : List Event} {states : States}
    (sorted : ahead.Pairwise fun a b => a.order < b.order)
    (binds : ∀ bind, Event.bind bind ∈ ahead → bind ∈ function.binds)
    (behind : ∀ bind ∈ function.binds, Event.bind bind ∉ ahead →
      ∀ event ∈ ahead, bind.order < event.order)
    (known : ∀ order, Passed function ahead order → Known facts step function states order)
    {line : Step} (own : line.role ≠ .sanitizer) :
    line ∈ walk facts spec step function ahead states ↔
      ∃ call, Event.call call ∈ ahead ∧ Reports facts spec step function call line := by
  induction ahead generalizing states with
  | nil => simp [walk]
  | cons event rest ih =>
    obtain ⟨first, others⟩ := List.pairwise_cons.mp sorted
    -- the binds before this event are the ones already visited
    have here : Passed function (event :: rest) event.order := by
      intro bind inside
      constructor
      · intro earlier held
        rcases List.mem_cons.mp held with same | later
        · rw [← same] at earlier
          exact Nat.lt_irrefl _ earlier
        · exact Nat.lt_asymm earlier (first _ later)
      · exact fun absent => behind bind inside absent event List.mem_cons_self
    have later : ∀ bind ∈ function.binds, Event.bind bind ∉ rest →
        ∀ other ∈ rest, bind.order < other.order := by
      intro bind inside absent other held
      by_cases same : Event.bind bind = event
      · rw [← same] at first
        exact first other held
      · have out : Event.bind bind ∉ event :: rest := by
          rw [List.mem_cons]
          exact fun is => is.elim same absent
        exact behind bind inside out other (List.mem_cons_of_mem event held)
    have inner : ∀ bind, Event.bind bind ∈ rest → bind ∈ function.binds :=
      fun bind held => binds bind (List.mem_cons_of_mem event held)
    cases event with
    | bind bind =>
      rw [walk, ih others inner later]
      · simp
      · intro order passed
        apply (known _ here).bound roles (binds bind List.mem_cons_self)
        intro other inside
        have place : other.order < bind.order ↔ Event.bind other ∉ Event.bind bind :: rest :=
          here other inside
        rw [passed other inside, place, List.mem_cons, Event.bind.injEq]
        have apart : Event.bind bind ∉ rest := fun held => Nat.lt_irrefl _ (first _ held)
        constructor
        · intro absent
          by_cases same : other = bind
          · exact .inr same
          · exact .inl fun is => is.elim same absent
        · rintro (out | is)
          · exact fun held => out (.inr held)
          · rw [is]
            exact apart
    | call call =>
      rw [walk, List.mem_append, mem_found roles (known _ here) own, ih others inner later]
      · simp [or_and_right, exists_or]
      · intro order passed
        apply known order
        intro bind inside
        rw [passed bind inside, List.mem_cons]
        simp

omit roles in
theorem mem_events {event : Event} : event ∈ events function ↔
    event ∈ function.binds.map Event.bind ++ function.calls.map Event.call := by
  rw [events, List.mem_insertionSort]

omit roles in
private theorem events_sorted (ordered : Ordered function) :
    (events function).Pairwise fun a b => a.order < b.order := by
  have perm := List.perm_insertionSort (fun a b : Event => a.key ≤ b.key)
    (function.binds.map Event.bind ++ function.calls.map Event.call)
  have apart : (events function).Pairwise fun a b => a.order ≠ b.order := by
    rw [← List.pairwise_map]
    exact (perm.map Event.order).nodup_iff.mpr ordered.distinct
  have keys : (events function).Pairwise fun a b : Event => a.key ≤ b.key :=
    List.pairwise_insertionSort _ _
  refine (keys.and apart).imp_of_mem fun {a b} inside inside' is => ?_
  have own := ordered.positive a (mem_events.mp inside)
  have other := ordered.positive b (mem_events.mp inside')
  have le : a.order ≤ b.order := by
    have keys := is.1
    unfold Event.key at keys
    rw [if_pos (by omega), if_pos (by omega), Prod.Lex.toLex_le_toLex] at keys
    rcases keys with lt | same
    · exact Nat.le_of_lt lt
    · exact Nat.le_of_eq same.1
  exact Nat.lt_of_le_of_ne le is.2

omit roles in
theorem held_start (name : String) : held (start step function) name =
    if name ∈ function.params then [step function.startLine .source] else [] := by
  have listed : keys (function.params.map fun name => (name, [step function.startLine .source])) =
      function.params := by
    rw [keys, List.map_map]
    exact List.map_id _
  rw [held]
  cases found : (start step function).lookup name with
  | none =>
    have absent := lookup_eq_none_iff.mp found
    rw [start, mem_keys_ofEntries, listed] at absent
    rw [if_neg absent]
    rfl
  | some lines =>
    have entry := mem_of_mem_ofEntries (mem_of_lookup found)
    obtain ⟨param, inside, same⟩ := List.mem_map.mp entry
    cases same
    rw [if_pos inside]
    rfl

/-- The paths are what the calls of the function report. -/
theorem mem_paths (ordered : Ordered function) {line : Step} (own : line.role ≠ .sanitizer) :
    line ∈ paths facts spec step function ↔
      ∃ call ∈ function.calls, Reports facts spec step function call line := by
  have inside {bind : Semantic.Bind} (member : bind ∈ function.binds) :
      Event.bind bind ∈ events function :=
    mem_events.mpr (List.mem_append_left _ (List.mem_map_of_mem member))
  rw [paths, mem_walk roles (events_sorted ordered) _ _ _ own]
  · simp [mem_events]
  · intro bind member
    simpa [mem_events] using member
  · exact fun bind member absent => absurd (inside member) absent
  · intro order passed
    -- no bind lies before a place that nothing is passed at
    have unbound (name : String) : Unbound function name order := by
      intro bind member _
      by_contra earlier
      exact (passed bind member).mp (by omega) (inside member)
    constructor
    · intro name found own
      have none_ : ¬ ∃ bind, Latest function name order bind ∧
          (Leads facts step function (useOf bind) found ∨ found = step bind.line .step ∧
            ∃ origin, Leads facts step function (useOf bind) origin) := by
        rintro ⟨bind, latest, -⟩
        exact absurd latest.earlier (Nat.not_lt.mpr (unbound name bind latest.member latest.named))
      rw [held_start, Holds, or_iff_left none_]
      split
      next param => simp [param, unbound name]
      next other => simp [other]
    · intro name
      rw [held_start]
      split
      next => exact fun _ => ⟨_, List.mem_singleton_self _, by rw [roles]; nofun⟩
      next => exact fun is => absurd rfl is

end Chains

/-- A slice joins the paths of the functions of its excerpt, each of them alone. On a function whose
events are in one order, the source, step and sink lines are those of the chains of latest earlier
definitions that end in an argument of a sink call. -/
theorem functionSlice_exact {r : Reader} {text : Line} {language family : String} {excerpt : Parsed}
    {spec : Spec} (read : parsed r text language = some excerpt)
    (named : r.taintSpecs language family = some spec) :
    ∃ steps, functionSlice r text language family = some steps ∧
      (∀ line, line ∈ steps ↔ ∃ function ∈ excerpt.ir.functions,
        line ∈ paths (r.facts language) spec (stepAt r excerpt language) function) ∧
      ∀ function ∈ excerpt.ir.functions, Ordered function →
        ∀ line : Step, line.role ≠ .sanitizer →
          (line ∈ paths (r.facts language) spec (stepAt r excerpt language) function ↔
            ∃ call ∈ function.calls,
              Reports (r.facts language) spec (stepAt r excerpt language) function call line) := by
  refine ⟨_, by rw [functionSlice, read, Option.map_some, named], fun line => ?_, ?_⟩
  · rw [List.mem_insertionSort, List.mem_eraseDups, List.mem_flatMap]
  · exact fun function _ ordered line own => mem_paths (fun _ _ => rfl) ordered own

/-- `x = q` and `run(x)`, where `q` is a parameter. -/
def running : FunctionIR where
  name := "f"
  params := ["q"]
  startLine := 1
  endLine := 3
  binds := [{ name := "x", line := 2, valueText := "q", isConstant := false, names := ["q"], order := 4 }]
  calls :=
    [{ name := "run", line := 3, argTexts := ["x"], argIsConstant := [false], argNames := [["x"]],
       order := 9 }]

def sampleReader : Reader where
  canonicalLanguage language := language
  securityReason _ := none
  subAdvisory line := line
  subIdentities _ line := line
  splitlines _ := ["a".toList, "b".toList, "c".toList]
  numbered _ := none
  dedent text := text
  parseFile _ language := { path := "excerpt", language, functions := [running], parseOk := true }
  taintSpecs _ _ := some ⟨["run"], []⟩
  facts _ := ⟨[], [], []⟩

theorem functionSlice_running : ∃ steps, functionSlice sampleReader [] "other" "x" = some steps ∧
    ∀ line : Step, line.role ≠ .sanitizer →
      (line ∈ paths ⟨[], [], []⟩ ⟨["run"], []⟩ (stepAt sampleReader
          ⟨[1, 2, 3], ["a".toList, "b".toList, "c".toList],
            { path := "excerpt", language := "other", functions := [running], parseOk := true }⟩
          "other") running ↔
        ∃ call ∈ running.calls, Reports ⟨[], [], []⟩ ⟨["run"], []⟩ (stepAt sampleReader
          ⟨[1, 2, 3], ["a".toList, "b".toList, "c".toList],
            { path := "excerpt", language := "other", functions := [running], parseOk := true }⟩
          "other") running call line) := by
  obtain ⟨steps, sliced, -, exact_⟩ := @functionSlice_exact sampleReader [] "other" "x"
    ⟨[1, 2, 3], ["a".toList, "b".toList, "c".toList],
      { path := "excerpt", language := "other", functions := [running], parseOk := true }⟩
    ⟨["run"], []⟩ (by rfl) rfl
  exact ⟨steps, sliced, exact_ running List.mem_cons_self ⟨by decide, by decide⟩⟩

example : (functionSlice sampleReader [] "other" "x").map (·.map fun step => (step.line, step.role)) =
    some [(1, .source), (2, .step), (3, .sink)] := by
  decide +kernel

end OpenUltraSast.Learn.Slices
