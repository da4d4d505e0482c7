import OpenUltraSast.Library.SimplePaths
import OpenUltraSast.Obligations.Operations
import OpenUltraSast.Obligations.Resolution

/-!
# The chains of exact calls to the operations

`exact_evidence_paths` walks the exact call edges depth first from each entry, with the symbols of its
own path as its marks, and emits a path for each symbol on the way that holds an operation.
-/

namespace OpenUltraSast.Obligations

open Dicts SimplePaths List

structure EvidenceHop where
  caller : SymbolId
  callee : SymbolId
  line : Int
deriving DecidableEq, Repr

structure EvidencePath where
  entry : SymbolId
  target : SymbolId
  hops : List EvidenceHop := []
deriving DecidableEq, Repr

def Connects (source : SymbolId) : List EvidenceHop → SymbolId → Prop
  | [], target => source = target
  | hop :: rest, target => hop.caller = source ∧ Connects hop.callee rest target

structure EvidencePath.Chain (edges : List EvidenceHop) (path : EvidencePath) : Prop where
  connected : Connects path.entry path.hops path.target
  within : path.hops ⊆ edges
  simple : (path.entry :: path.hops.map (·.callee)).Nodup

/-- The key that `exact_evidence_paths` sorts the hops by. -/
def EvidenceHop.sortKey (hop : EvidenceHop) : SymbolKey ×ₗ Int ×ₗ SymbolKey :=
  toLex (hop.caller.sortKey, toLex (hop.line, hop.callee.sortKey))

def sortedHops (hops : List EvidenceHop) : List EvidenceHop :=
  hops.insertionSort fun a b => a.sortKey ≤ b.sortKey

/-- `adjacency`: the hops of each caller in order. -/
def adjacencyOf (hops : List EvidenceHop) : List (SymbolId × List EvidenceHop) :=
  group ((sortedHops hops).map fun hop => (hop.caller, hop))

section
variable (adjacency : List (SymbolId × List EvidenceHop))
  (operationsBySymbol : SymbolId → List Operation)

/-- `_walk_exact_paths`; `none` when the recursion goes deeper than the fuel. -/
def walkExactPaths (entry : SymbolId) : Nat → SymbolId → List EvidenceHop → List EvidencePath →
    List SymbolId → Option (List EvidencePath)
  | 0, _, _, _, _ => none
  | fuel + 1, symbol, hopsSoFar, paths, visited =>
    (valuesOf adjacency symbol).foldlM
      (fun paths hop =>
        if hop.callee ∈ visited then some paths
        else walkExactPaths entry fuel hop.callee (hopsSoFar ++ [hop]) paths (hop.callee :: visited))
      (if operationsBySymbol symbol = [] then paths else paths ++ [⟨entry, symbol, hopsSoFar⟩])

end

/-- `exact_evidence_paths`; a symbol that the mapping does not have holds no operations. -/
def exactEvidencePaths (fuel : Nat) (entries : List SymbolId) (edges : List EvidenceHop)
    (operationsBySymbol : SymbolId → List Operation) : Option (List EvidencePath) :=
  (sortedSymbols entries).foldlM
    (fun paths entry =>
      walkExactPaths (adjacencyOf edges) operationsBySymbol entry fuel entry [] paths [entry])
    []

section
variable {edges : List EvidenceHop}

theorem valuesOf_adjacencyOf (edges : List EvidenceHop) (symbol : SymbolId) :
    valuesOf (adjacencyOf edges) symbol = (sortedHops edges).filter (·.caller = symbol) := by
  rw [adjacencyOf, valuesOf_group, filter_map, map_map]
  exact map_id _

private theorem mem_valuesOf_adjacencyOf {symbol : SymbolId} {hop : EvidenceHop} :
    hop ∈ valuesOf (adjacencyOf edges) symbol ↔ hop ∈ edges ∧ hop.caller = symbol := by
  rw [valuesOf_adjacencyOf, mem_filter, sortedHops, mem_insertionSort, decide_eq_true_iff]

private theorem nodup_valuesOf_adjacencyOf (distinct : edges.Nodup) (symbol : SymbolId) :
    (valuesOf (adjacencyOf edges) symbol).Nodup := by
  rw [valuesOf_adjacencyOf, sortedHops]
  exact ((perm_insertionSort _ edges).nodup_iff.mpr distinct).filter _

end

theorem foldlM_append {α β : Type} {turn : List β → α → Option (List β)} (found : α → List β)
    {items : List α} (each : ∀ item ∈ items, ∀ out, turn out item = some (out ++ found item))
    (out : List β) : items.foldlM turn out = some (out ++ items.flatMap found) := by
  induction items generalizing out with
  | nil => exact congrArg some (append_nil out).symm
  | cons item rest ih =>
    rw [foldlM_cons, each item mem_cons_self, flatMap_cons, ← append_assoc]
    exact ih (fun other member => each other (mem_cons_of_mem _ member)) _

section
variable (adjacency : List (SymbolId × List EvidenceHop))
  (operationsBySymbol : SymbolId → List Operation)

def emitted (entry : SymbolId) (hopsSoFar : List EvidenceHop)
    (reached : List (List EvidenceHop × SymbolId)) : List EvidencePath :=
  (reached.filter fun path => operationsBySymbol path.2 ≠ []).map fun path =>
    ⟨entry, path.2, hopsSoFar ++ path.1⟩

private theorem emitted_stop (entry symbol : SymbolId) (hopsSoFar : List EvidenceHop)
    (reached : List (List EvidenceHop × SymbolId)) :
    emitted operationsBySymbol entry hopsSoFar (([], symbol) :: reached) =
      (if operationsBySymbol symbol = [] then [] else [⟨entry, symbol, hopsSoFar⟩]) ++
        emitted operationsBySymbol entry hopsSoFar reached := by
  rw [emitted, filter_cons]
  by_cases none : operationsBySymbol symbol = []
  · simp only [none, ne_eq, not_true_eq_false, decide_false, if_true, nil_append]
    rfl
  · simp only [none, ne_eq, not_false_eq_true, decide_true, if_true, if_false, map_cons,
      append_nil]
    rfl

private theorem emitted_flatMap {α : Type} (entry : SymbolId) (hopsSoFar : List EvidenceHop)
    (items : List α) (reached : α → List (List EvidenceHop × SymbolId)) :
    emitted operationsBySymbol entry hopsSoFar (items.flatMap reached) =
      items.flatMap fun item => emitted operationsBySymbol entry hopsSoFar (reached item) := by
  rw [emitted, filter_flatMap, map_flatMap]
  rfl

theorem emitted_cons (entry : SymbolId) (hopsSoFar : List EvidenceHop) (hop : EvidenceHop)
    (reached : List (List EvidenceHop × SymbolId)) :
    emitted operationsBySymbol entry hopsSoFar (reached.map fun path => (hop :: path.1, path.2)) =
      emitted operationsBySymbol entry (hopsSoFar ++ [hop]) reached := by
  rw [emitted, filter_map, map_map, emitted]
  apply map_congr_left
  intro path _
  rw [append_assoc]
  rfl

/-- With enough fuel the walk appends what the simple paths emit, in their order. -/
theorem walkExactPaths_eq {fuel : Nat} {entry symbol : SymbolId} {hopsSoFar : List EvidenceHop}
    {visited : List SymbolId} (paths : List EvidencePath)
    (enough : Enough (valuesOf adjacency) EvidenceHop.callee fuel visited symbol) :
    walkExactPaths adjacency operationsBySymbol entry fuel symbol hopsSoFar paths visited =
      some (paths ++ emitted operationsBySymbol entry hopsSoFar
        (simplePaths (valuesOf adjacency) EvidenceHop.callee fuel visited symbol)) := by
  induction fuel generalizing symbol hopsSoFar visited paths with
  | zero => exact absurd enough.pos (Nat.lt_irrefl 0)
  | succ fuel ih =>
    have skipped : ∀ paths hop,
        (if hop.callee ∈ visited then some paths
          else walkExactPaths adjacency operationsBySymbol entry fuel hop.callee
            (hopsSoFar ++ [hop]) paths (hop.callee :: visited)) =
        if decide (hop.callee ∉ visited) then
          walkExactPaths adjacency operationsBySymbol entry fuel hop.callee (hopsSoFar ++ [hop])
            paths (hop.callee :: visited)
        else pure paths := by
      intro paths hop
      by_cases marked : hop.callee ∈ visited <;> simp [marked]
    rw [walkExactPaths, simplePaths]
    simp only [skipped]
    rw [← foldlM_filter, foldlM_append fun hop =>
      emitted operationsBySymbol entry (hopsSoFar ++ [hop])
        (simplePaths (valuesOf adjacency) EvidenceHop.callee fuel (hop.callee :: visited)
          hop.callee)]
    · rw [emitted_stop, emitted_flatMap]
      simp only [emitted_cons, ← append_assoc]
      congr 2
      split
      next => exact (append_nil paths).symm
      next => rfl
    · intro hop member out
      obtain ⟨leaves, fresh⟩ := mem_filter.mp member
      exact ih out (enough.step leaves (of_decide_eq_true fresh))

end

section
variable {edges : List EvidenceHop} {entries : List SymbolId}

theorem leads_iff {source target : SymbolId} {hops : List EvidenceHop} :
    Leads (valuesOf (adjacencyOf edges)) EvidenceHop.callee source hops target ↔
      Connects source hops target ∧ hops ⊆ edges := by
  induction hops generalizing source with
  | nil => exact ⟨fun same => ⟨same, nil_subset _⟩, And.left⟩
  | cons hop rest ih =>
    rw [Leads, Connects, cons_subset, mem_valuesOf_adjacencyOf, ih]
    constructor
    · rintro ⟨⟨member, calls⟩, onward, others⟩
      exact ⟨⟨calls, onward⟩, member, others⟩
    · rintro ⟨⟨calls, onward⟩, member, others⟩
      exact ⟨⟨member, calls⟩, onward, others⟩

/-- No simple path has more hops than there are, so a recursion of that depth is enough. -/
theorem enough_of_length_lt {fuel : Nat} (deep : edges.length < fuel) (visited : List SymbolId)
    (symbol : SymbolId) :
    Enough (valuesOf (adjacencyOf edges)) EvidenceHop.callee fuel visited symbol :=
  fun _ _ path => (path.length_le (leads_iff.mp path.leads).2).trans_lt deep

variable {path : EvidencePath}

theorem chain_iff : path.Chain edges ↔
    SimplePath (valuesOf (adjacencyOf edges)) EvidenceHop.callee [path.entry] path.entry path.hops
      path.target := by
  rw [simplePath_iff, leads_iff]
  exact ⟨fun ⟨connected, within, simple⟩ => ⟨⟨connected, within⟩, simple⟩,
    fun ⟨⟨connected, within⟩, simple⟩ => ⟨connected, within, simple⟩⟩

variable (operationsBySymbol : SymbolId → List Operation)

def pathsOf (edges : List EvidenceHop) (entry : SymbolId) : List EvidencePath :=
  emitted operationsBySymbol entry [] (simplePaths (valuesOf (adjacencyOf edges))
    EvidenceHop.callee (edges.length + 1) [entry] entry)

theorem mem_pathsOf {entry : SymbolId} :
    path ∈ pathsOf operationsBySymbol edges entry ↔
      path.Chain edges ∧ path.entry = entry ∧ operationsBySymbol path.target ≠ [] := by
  rw [pathsOf, emitted, mem_map]
  constructor
  · rintro ⟨⟨hops, target⟩, member, rfl⟩
    obtain ⟨reached, holds⟩ := mem_filter.mp member
    exact ⟨chain_iff.mpr (mem_simplePaths.mp reached).1, rfl, of_decide_eq_true holds⟩
  · rintro ⟨chain, rfl, holds⟩
    have simple := chain_iff.mp chain
    have short := enough_of_length_lt (Nat.lt_succ_self edges.length) _ _ _ _ simple
    exact ⟨(path.hops, path.target), mem_filter.mpr ⟨mem_simplePaths.mpr ⟨simple, short⟩,
      decide_eq_true holds⟩, rfl⟩

private theorem nodup_pathsOf (distinct : edges.Nodup) (entry : SymbolId) :
    (pathsOf operationsBySymbol edges entry).Nodup := by
  refine ((nodup_simplePaths (nodup_valuesOf_adjacencyOf distinct) _ _ _).filter _).map ?_
  rintro ⟨hops, target⟩ ⟨hops', target'⟩ same
  cases same
  rfl

private theorem exactEvidencePaths_eq {fuel : Nat} (deep : edges.length < fuel) :
    exactEvidencePaths fuel entries edges operationsBySymbol =
      some ((sortedSymbols entries).flatMap (pathsOf operationsBySymbol edges)) := by
  rw [exactEvidencePaths, foldlM_append (pathsOf operationsBySymbol edges), nil_append]
  intro entry _ paths
  have enough := enough_of_length_lt deep [entry] entry
  rw [walkExactPaths_eq _ _ _ enough, pathsOf, simplePaths_eq enough
    (enough_of_length_lt (Nat.lt_succ_self edges.length) [entry] entry)]

/-- `exact_evidence_paths` comes to an end on every graph. Its paths are the chains of hops, with no
symbol twice, from an entry to a symbol that holds an operation, and each of them comes once. -/
theorem exactEvidencePaths_spec (distinctEntries : entries.Nodup) (distinctHops : edges.Nodup) :
    ∃ paths, (∀ fuel, edges.length < fuel →
        exactEvidencePaths fuel entries edges operationsBySymbol = some paths) ∧
      paths.Nodup ∧
      ∀ path, path ∈ paths ↔ path.Chain edges ∧ path.entry ∈ entries ∧
        operationsBySymbol path.target ≠ [] := by
  refine ⟨_, fun fuel deep => exactEvidencePaths_eq operationsBySymbol deep, ?_, fun path => ?_⟩
  · rw [nodup_flatMap]
    refine ⟨fun entry _ => nodup_pathsOf operationsBySymbol distinctHops entry, ?_⟩
    have sorted : (sortedSymbols entries).Nodup :=
      (perm_insertionSort _ entries).nodup_iff.mpr distinctEntries
    refine sorted.imp fun apart path first second => apart ?_
    exact ((mem_pathsOf _).mp first).2.1.symm.trans ((mem_pathsOf _).mp second).2.1
  · rw [mem_flatMap]
    constructor
    · rintro ⟨entry, member, path_⟩
      obtain ⟨chain, rfl, holds⟩ := (mem_pathsOf _).mp path_
      exact ⟨chain, (mem_sortedSymbols _ _).mp member, holds⟩
    · rintro ⟨chain, member, holds⟩
      exact ⟨path.entry, (mem_sortedSymbols _ _).mpr member,
        (mem_pathsOf _).mpr ⟨chain, rfl, holds⟩⟩

end

def calledTwice : List EvidenceHop :=
  let view : SymbolId := ⟨"a.py", none, "view", none⟩
  let save : SymbolId := ⟨"a.py", none, "save", none⟩
  [⟨view, save, 2⟩, ⟨view, save, 3⟩, ⟨save, view, 7⟩]

theorem calledTwice_paths : ∃ paths,
    (∀ fuel, 3 < fuel → exactEvidencePaths fuel [⟨"a.py", none, "view", none⟩] calledTwice
      (fun symbol => if symbol.name = "save" then
        [⟨"a.py", 8, "save", .protectedWrite, "orm_save", none, []⟩] else []) = some paths) ∧
    paths.Nodup ∧ paths.length = 2 := by
  obtain ⟨paths, found, distinct, _⟩ := exactEvidencePaths_spec (fun symbol =>
      if symbol.name = "save" then
        [⟨"a.py", 8, "save", .protectedWrite, "orm_save", none, []⟩] else [])
    (nodup_singleton (⟨"a.py", none, "view", none⟩ : SymbolId))
    (by decide : calledTwice.Nodup)
  refine ⟨paths, found, distinct, ?_⟩
  have run := found 4 (by decide)
  have same : exactEvidencePaths 4 [⟨"a.py", none, "view", none⟩] calledTwice
      (fun symbol => if symbol.name = "save" then
        [⟨"a.py", 8, "save", .protectedWrite, "orm_save", none, []⟩] else []) =
      some [⟨⟨"a.py", none, "view", none⟩, ⟨"a.py", none, "save", none⟩, [calledTwice[0]]⟩,
        ⟨⟨"a.py", none, "view", none⟩, ⟨"a.py", none, "save", none⟩, [calledTwice[1]]⟩] := by
    decide
  cases run.symm.trans same
  rfl

end OpenUltraSast.Obligations
