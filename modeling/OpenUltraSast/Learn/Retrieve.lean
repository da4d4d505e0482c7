import OpenUltraSast.Learn.Folds
import OpenUltraSast.Library.Floats

/-!
# Retrieval from the local memory

The examples that a prompt shows are ranked by their distance to the target, and by the cosine of
their excerpts where both have a vector.
-/

namespace OpenUltraSast.Learn.Retrieve

open Collections Examples Folds Floats Values

/-- What retrieval knows of a candidate. -/
structure Target (V : Type) where
  group : String
  family : String
  profile : Profile
  x : List (String × Json)
  instruments : List (String × Json)
  vector : Option V := none

/-- Why an example may not enter a prompt. -/
inductive Reason where
  | targetGroup
  | evaluatedGroup
  | heldOutSource
  | heldOutFramework
  | nearDuplicate
deriving DecidableEq

def Reason.text : Reason → String
  | targetGroup => "target group"
  | evaluatedGroup => "evaluated group"
  | heldOutSource => "held-out source"
  | heldOutFramework => "held-out framework"
  | nearDuplicate => "near duplicate"

/-- What reached a prompt from outside the boundary. -/
inductive Violation where
  | unknown (id : String)
  | outside (id fold : String) (why : Reason)

def Violation.text : Violation → String
  | unknown id => "rendered example " ++ id.take 12 ++ " is not in the memory snapshot"
  | outside id fold why =>
    "rendered example " ++ id.take 12 ++ " is outside the boundary of " ++ fold ++ ": " ++ why.text

/-- What stops a prompt: a record that is not of its profile, vectors of different dimensions, a
demonstration that the memory lacks, or what is outside the boundary. -/
inductive Refusal where
  | record
  | embedding
  | unknownDemo (id : String)
  | boundary (violation : Violation)

section Boundary
variable {V F : Type} [Floats F]

def nearDuplicateCos : F := decimal 98 2

def ineligible (e : Example) (target : Target V) (fold : Fold) (cos : Option F) : Option Reason :=
  if e.group ≠ "" ∧ e.group = target.group then some .targetGroup
  else if e.group ∈ fold.evalGroups then some .evaluatedGroup
  else if fold.heldSource = some e.source then some .heldOutSource
  else if fold.heldFramework.any fun name => e.frameworks.any (Json.isStr name) then
    some .heldOutFramework
  else if fold.phase ≠ "deployment" ∧ cos.any (nearDuplicateCos ≤ ·) then some .nearDuplicate
  else none

def eligible (e : Example) (target : Target V) (fold : Fold) (cos : Option F) : Bool :=
  (ineligible e target fold cos).isNone

variable (cosine : V → V → Option F)

def similarity (vectors : List (String × V)) (target : Target V) (e : Example) :
    Except Refusal (Option F) :=
  match target.vector, vectors.lookup e.excerptSha with
  | some mine, some other =>
    match cosine mine other with
    | some cos => .ok (some cos)
    | none => .error .embedding
  | _, _ => .ok none

def assertBoundary (ids : List String) (examples : List (String × Example)) (target : Target V)
    (fold : Fold) (vectors : List (String × V)) : Except Refusal Unit :=
  ids.forM fun id =>
    match examples.lookup id with
    | none => .error (.boundary (.unknown id))
    | some e => do
      match ineligible e target fold (← similarity cosine vectors target e) with
      | none => return ()
      | some why => .error (.boundary (.outside id fold.name why))

end Boundary

/-- Whether a retrieval could fill its set. -/
inductive Filling where
  | ok
  | short
deriving DecidableEq

def perGroup : Nat := 2

/-- `CONTRAST`: examples of other families, at most, while the pool holds the target's family. -/
def contrast : Nat := 2

/-- The variables of the loop of `balance`. -/
structure Taking where
  taken : List Example := []
  labels : List (Int × Nat) := []
  groups : List (String × Nat) := []
  others : Nat := 0

def Taking.add (t : Taking) (family : String) (e : Example) : Taking where
  taken := t.taken ++ [e]
  labels := Dicts.set t.labels e.label ((t.labels.lookup e.label).getD 0 + 1)
  groups := Dicts.set t.groups e.group ((t.groups.lookup e.group).getD 0 + 1)
  others := t.others + if e.family ≠ family then 1 else 0

/-- The loop of `balance`. -/
def takeFrom (family : String) (k otherCap : Nat) : Taking → List Example → Taking
  | t, [] => t
  | t, e :: rest =>
    if t.taken.length = k then t
    else if e.family ≠ family ∧ otherCap ≤ t.others then takeFrom family k otherCap t rest
    else if (t.labels.lookup e.label).getD 0 < k / 2 ∧ (t.groups.lookup e.group).getD 0 < perGroup then
      takeFrom family k otherCap (t.add family e) rest
    else takeFrom family k otherCap t rest

def otherCap (ranked : List Example) (family : String) (k : Nat) : Nat :=
  if ranked.any (·.family = family) then min contrast k else k

def balance (ranked : List Example) (family : String) (k : Nat) : List Example × Filling :=
  let t := takeFrom family k (otherCap ranked family k) {} ranked
  let poolLabels := ranked.map (·.label)
  let short := t.taken.length < k ∨
    ∃ label ∈ ([0, 1] : List Int),
      label ∈ poolLabels ∧ (t.labels.lookup label).getD 0 < min 2 (k / 2)
  (t.taken, if short then .short else .ok)

/-- `signals+embeddings` or `signals_only`. -/
inductive Mode where
  | signalsAndEmbeddings
  | signalsOnly
deriving DecidableEq

def Mode.text : Mode → String
  | signalsAndEmbeddings => "signals+embeddings"
  | signalsOnly => "signals_only"

structure Retrieval where
  examples : List Example
  mode : Mode
  balance : Filling
  nearDuplicates : Nat
  pool : Nat
  withoutVector : Nat

def counts (names : List String) : List (String × Nat) :=
  (sortedSet names).map fun name => (name, names.count name)

def Retrieval.neighbours (got : Retrieval) : List (String × List (String × Nat)) :=
  [("label", counts (got.examples.map fun e => toString e.label)),
    ("family", counts (got.examples.map (·.family)))]

/-- The keyword arguments of `retrieve`. -/
structure Search (V F : Type) where
  vectors : List (String × V) := []
  n1 : Nat := 40
  k : Nat := 6
  lam : F
  seed : Int := 0
  exclude : List String := []

/-- What becomes of an example at the second stage. -/
inductive Rerank (F : Type) where
  | near
  | scored (score : F) (withoutVector : Bool)

section Retrieve
variable {V F : Type} [Floats F] (sha256 : String → String) (cosine : V → V → Option F)
  (gower : Target V → Example → Option F)

def tie (id : String) (seed : Int) : String := sha256 (id ++ toString seed)

def modeOf (target : Target V) (vectors : List (String × V)) : Mode :=
  if target.vector.isSome ∧ vectors ≠ [] then .signalsAndEmbeddings else .signalsOnly

def candidatesOf (target : Target V) (pool : List Example) (fold : Fold) (exclude : List String) :
    List Example :=
  pool.filter fun e =>
    e.id ∉ exclude ∧ e.profile = target.profile ∧ eligible (F := F) e target fold none

/-- The distances of some examples, `record` where one cannot be told. -/
def distances (target : Target V) (candidates : List Example) : Except Refusal (List (F × Example)) :=
  candidates.mapM fun e =>
    match gower target e with
    | some distance => .ok (distance, e)
    | none => .error .record

/-- By an ascending key, and by the tie among equals. -/
def rankBy {K : Type} [LinearOrder K] (seed : Int) (scored : List (K × Example)) :
    List (K × Example) :=
  scored.insertionSort fun a b =>
    toLex (a.1, tie sha256 a.2.id seed) ≤ toLex (b.1, tie sha256 b.2.id seed)

def nearest (target : Target V) (n1 : Nat) (ranked : List (F × Example)) : List (F × Example) :=
  (ranked.filter (·.2.family = target.family)).take n1 ++
    (ranked.filter (·.2.family ≠ target.family)).take n1

def rerank (target : Target V) (fold : Fold) (search : Search V F) (pair : F × Example) :
    Except Refusal (Rerank F × Example) := do
  let similar := ofNat 1 - pair.1
  let mode := modeOf target search.vectors
  match target.vector, if mode = .signalsOnly then none else search.vectors.lookup pair.2.excerptSha with
  | some mine, some other =>
    match cosine mine other with
    | none => .error .embedding
    | some cos =>
      if eligible pair.2 target fold (some cos) then
        return (.scored (search.lam * similar + (ofNat 1 - search.lam) * cos) false, pair.2)
      else return (.near, pair.2)
  | _, _ => return (.scored similar (mode ≠ .signalsOnly), pair.2)

def scores (reranked : List (Rerank F × Example)) : List (Fᵒᵈ × Example) :=
  reranked.filterMap fun pair =>
    match pair.1 with
    | .near => none
    | .scored score _ => some (OrderDual.toDual score, pair.2)

def retrieve (target : Target V) (pool : List Example) (fold : Fold) (search : Search V F) :
    Except Refusal Retrieval := do
  let candidates := candidatesOf (F := F) target pool fold search.exclude
  let measured ← distances gower target candidates
  let scored := nearest target search.n1 (rankBy sha256 search.seed measured)
  let reranked ← scored.mapM (rerank cosine target fold search)
  let ranked := (rankBy sha256 search.seed (scores reranked)).map (·.2)
  let (examples, state) := balance ranked target.family search.k
  return {
    examples, mode := modeOf target search.vectors, balance := state
    nearDuplicates := reranked.countP fun pair => match pair.1 with
      | .near => true
      | .scored .. => false
    pool := candidates.length
    withoutVector := reranked.countP fun pair => match pair.1 with
      | .near => false
      | .scored _ without => without }

end Retrieve

end OpenUltraSast.Learn.Retrieve
