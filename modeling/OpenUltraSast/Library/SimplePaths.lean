import Mathlib.Order.Lattice.Nat
import OpenUltraSast.Library.Dicts

/-!
# Simple paths

The walks of a graph that come to no vertex twice, and the list of them that a depth-first walk makes
with the vertices of its own path as its marks.
-/

namespace SimplePaths

open List

variable {V E : Type*} (next : V → List E) (dest : E → V)

def Leads (v : V) : List E → V → Prop
  | [], w => v = w
  | edge :: rest, w => edge ∈ next v ∧ Leads (dest edge) rest w

inductive SimplePath : List V → V → List E → V → Prop
  | nil {seen : List V} {v : V} : SimplePath seen v [] v
  | cons {seen : List V} {v w : V} {edge : E} {rest : List E} (leaves : edge ∈ next v)
      (fresh : dest edge ∉ seen) (onward : SimplePath (dest edge :: seen) (dest edge) rest w) :
      SimplePath seen v (edge :: rest) w

variable {next dest}

variable {seen : List V}

variable {edges : List E} {v w : V}

theorem SimplePath.leads (path : SimplePath next dest seen v edges w) :
    Leads next dest v edges w := by
  induction path with
  | nil => rfl
  | cons leaves _ _ ih => exact ⟨leaves, ih⟩

theorem SimplePath.nodup (path : SimplePath next dest seen v edges w) :
    (edges.map dest).Nodup ∧ ∀ edge ∈ edges, dest edge ∉ seen := by
  induction path with
  | nil => exact ⟨nodup_nil, nofun⟩
  | @cons seen v w edge rest _ fresh _ ih =>
    obtain ⟨distinct, apart⟩ := ih
    constructor
    · refine nodup_cons.mpr ⟨fun again => ?_, distinct⟩
      obtain ⟨other, member, same⟩ := mem_map.mp again
      exact apart other member (same ▸ mem_cons_self)
    · intro other member
      rcases mem_cons.mp member with rfl | member
      · exact fresh
      · exact fun seen => apart other member (mem_cons_of_mem _ seen)

theorem simplePath_of_leads (leads : Leads next dest v edges w)
    (distinct : (edges.map dest).Nodup) (apart : ∀ edge ∈ edges, dest edge ∉ seen) :
    SimplePath next dest seen v edges w := by
  induction edges generalizing v seen with
  | nil => exact leads ▸ .nil
  | cons edge rest ih =>
    obtain ⟨leaves, onward⟩ := leads
    obtain ⟨first, distinct⟩ := nodup_cons.mp distinct
    refine .cons leaves (apart edge mem_cons_self) (ih onward distinct ?_)
    intro other member seen
    rcases mem_cons.mp seen with again | seen
    · exact first (mem_map.mpr ⟨other, member, again⟩)
    · exact apart other (mem_cons_of_mem _ member) seen

/-- The simple paths on from a vertex that was seen are those that come to no vertex twice. -/
theorem simplePath_iff :
    SimplePath next dest [v] v edges w ↔
      Leads next dest v edges w ∧ (v :: edges.map dest).Nodup := by
  constructor
  · intro path
    refine ⟨path.leads, nodup_cons.mpr ⟨fun again => ?_, path.nodup.1⟩⟩
    obtain ⟨edge, member, back⟩ := mem_map.mp again
    exact path.nodup.2 edge member (back ▸ mem_singleton_self _)
  · rintro ⟨leads, distinct⟩
    obtain ⟨first, distinct⟩ := nodup_cons.mp distinct
    refine simplePath_of_leads leads distinct fun edge member seen => first ?_
    exact mem_singleton.mp seen ▸ mem_map_of_mem member

theorem SimplePath.length_le {all : List E} (path : SimplePath next dest seen v edges w)
    (within : edges ⊆ all) : edges.length ≤ all.length :=
  (path.nodup.1.of_map.subperm within).length_le

/-- Every simple path on from the vertex has fewer edges than the fuel. -/
def Enough (next : V → List E) (dest : E → V) (fuel : Nat) (seen : List V) (v : V) : Prop :=
  ∀ edges w, SimplePath next dest seen v edges w → edges.length < fuel

theorem Enough.pos {fuel : Nat} (enough : Enough next dest fuel seen v) : 0 < fuel :=
  enough [] v .nil

theorem Enough.step {fuel : Nat} {edge : E} (enough : Enough next dest (fuel + 1) seen v)
    (leaves : edge ∈ next v) (fresh : dest edge ∉ seen) :
    Enough next dest fuel (dest edge :: seen) (dest edge) :=
  fun rest w onward => Nat.lt_of_succ_lt_succ (enough (edge :: rest) w (.cons leaves fresh onward))

variable [DecidableEq V] (next dest)

/-- The simple paths of fewer edges than the fuel, each with the vertex that it ends in. -/
def simplePaths : Nat → List V → V → List (List E × V)
  | 0, _, _ => []
  | fuel + 1, seen, v =>
    ([], v) :: ((next v).filter (dest · ∉ seen)).flatMap fun edge =>
      (simplePaths fuel (dest edge :: seen) (dest edge)).map fun path => (edge :: path.1, path.2)

variable {next dest}

/-- The enumeration yields the simple paths within its fuel, and no others. -/
theorem mem_simplePaths {fuel : Nat} :
    (edges, w) ∈ simplePaths next dest fuel seen v ↔
      SimplePath next dest seen v edges w ∧ edges.length < fuel := by
  induction fuel generalizing seen v edges with
  | zero => exact ⟨nofun, fun ⟨_, short⟩ => absurd short (Nat.not_lt_zero _)⟩
  | succ fuel ih =>
    rw [simplePaths, mem_cons, mem_flatMap]
    constructor
    · rintro (stop | ⟨edge, member, extended⟩)
      · cases stop
        exact ⟨.nil, Nat.succ_pos fuel⟩
      · obtain ⟨⟨rest, last⟩, listed, same⟩ := mem_map.mp extended
        cases same
        obtain ⟨leaves, fresh⟩ := mem_filter.mp member
        obtain ⟨onward, short⟩ := ih.mp listed
        exact ⟨.cons leaves (of_decide_eq_true fresh) onward, Nat.succ_lt_succ short⟩
    · rintro ⟨path, short⟩
      cases path with
      | nil => exact .inl rfl
      | @cons _ _ _ edge rest leaves fresh onward =>
        exact .inr ⟨edge, mem_filter.mpr ⟨leaves, decide_eq_true fresh⟩,
          mem_map.mpr ⟨(rest, w), ih.mpr ⟨onward, Nat.lt_of_succ_lt_succ short⟩, rfl⟩⟩

theorem nodup_simplePaths (distinct : ∀ v, (next v).Nodup) (fuel : Nat) (seen : List V) (v : V) :
    (simplePaths next dest fuel seen v).Nodup := by
  induction fuel generalizing seen v with
  | zero => exact nodup_nil
  | succ fuel ih =>
    rw [simplePaths, nodup_cons, nodup_flatMap]
    refine ⟨fun again => ?_, fun edge _ => (ih _ _).map ?_, ?_⟩
    · obtain ⟨edge, _, extended⟩ := mem_flatMap.mp again
      obtain ⟨path, _, same⟩ := mem_map.mp extended
      cases same
    · rintro ⟨rest, last⟩ ⟨rest', last'⟩ same
      cases same
      rfl
    · refine ((distinct v).filter _).imp ?_
      rintro edge other apart _ first second
      obtain ⟨path, _, rfl⟩ := mem_map.mp first
      obtain ⟨path', _, same⟩ := mem_map.mp second
      exact apart (List.cons.inj (Prod.mk.inj same).1).1.symm

theorem simplePaths_eq {fuel more : Nat} (enough : Enough next dest fuel seen v)
    (more_enough : Enough next dest more seen v) :
    simplePaths next dest fuel seen v = simplePaths next dest more seen v := by
  induction fuel generalizing more seen v with
  | zero => exact absurd enough.pos (Nat.lt_irrefl 0)
  | succ fuel ih =>
    cases more with
    | zero => exact absurd more_enough.pos (Nat.lt_irrefl 0)
    | succ more =>
      rw [simplePaths, simplePaths]
      congr 1
      apply flatMap_congr
      intro edge member
      obtain ⟨leaves, fresh⟩ := mem_filter.mp member
      rw [ih (enough.step leaves (of_decide_eq_true fresh))
        (more_enough.step leaves (of_decide_eq_true fresh))]

end SimplePaths

/-!
## Breadth-first search

A search that takes the vertices of a graph in the order it comes to them and remembers the edge it
came by.
-/

namespace BreadthFirst

open SimplePaths List

variable {V E : Type} [DecidableEq V]

/-- The vertices the search came to, each with the vertex and the edge it came from. -/
abbrev Parents (V E : Type) := List (V × Option (V × E))

/-- The edges from the source to the node along the parents. -/
def trace (parents : Parents V E) : Nat → V → List E → List E
  | 0, _, chain => chain
  | fuel + 1, node, chain =>
    match parents.lookup node with
    | some (some (previous, edge)) => trace parents fuel previous (edge :: chain)
    | _ => chain

def scan (dest : E → V) (target current : V) :
    List E → Parents V E → List V → Except (List E) (Parents V E × List V)
  | [], parents, frontier => .ok (parents, frontier)
  | edge :: rest, parents, frontier =>
    if (parents.lookup (dest edge)).isSome then scan dest target current rest parents frontier
    else
      let parents := (dest edge, some (current, edge)) :: parents
      if dest edge = target then .error (trace parents parents.length target [])
      else scan dest target current rest parents (frontier ++ [dest edge])

def search (next : V → List E) (dest : E → V) (target : V) :
    Nat → Parents V E → List V → Option (List E)
  | 0, _, _ => none
  | _ + 1, _, [] => none
  | fuel + 1, parents, current :: frontier =>
    match scan dest target current (next current) parents frontier with
    | .error chain => some chain
    | .ok (parents, frontier) => search next dest target fuel parents frontier

def findPath (next : V → List E) (dest : E → V) (fuel : Nat) (source target : V) :
    Option (List E) :=
  if source = target then some [] else search next dest target fuel [(source, none)] [source]

section
variable (next : V → List E) (dest : E → V)

def Reaches (source target : V) : Prop := ∃ edges, Leads next dest source edges target

structure Shortest (source : V) (edges : List E) (target : V) : Prop where
  leads : Leads next dest source edges target
  least : ∀ other, Leads next dest source other target → edges.length ≤ other.length

def Finds (source target : V) : Option (List E) → Prop
  | some chain => Shortest next dest source chain target
  | none => ¬ Reaches next dest source target

noncomputable def dist (source target : V) : Nat :=
  sInf {n | ∃ edges, Leads next dest source edges target ∧ edges.length = n}

end

variable {next : V → List E} {dest : E → V} {source target : V}

variable {v : V} {from_ : Option (V × E)}

omit [DecidableEq V] in
theorem leads_append {w : V} {front back : List E} :
    Leads next dest v (front ++ back) w ↔
      ∃ u, Leads next dest v front u ∧ Leads next dest u back w := by
  induction front generalizing v with
  | nil => exact ⟨fun leads => ⟨v, rfl, leads⟩, fun ⟨_, same, leads⟩ => same ▸ leads⟩
  | cons edge front ih =>
    rw [cons_append, Leads, ih]
    constructor
    · rintro ⟨leaves, u, first, second⟩
      exact ⟨u, ⟨leaves, first⟩, second⟩
    · rintro ⟨u, ⟨leaves, first⟩, second⟩
      exact ⟨leaves, u, first, second⟩

omit [DecidableEq V] in
theorem dist_le {edges : List E} (leads : Leads next dest source edges target) :
    dist next dest source target ≤ edges.length :=
  Nat.sInf_le ⟨edges, leads, rfl⟩

omit [DecidableEq V] in
theorem Reaches.exists_dist (reaches : Reaches next dest source target) :
    ∃ edges, Leads next dest source edges target ∧
      edges.length = dist next dest source target := by
  obtain ⟨edges, leads⟩ := reaches
  have some_ : {n | ∃ edges, Leads next dest source edges target ∧ edges.length = n}.Nonempty :=
    ⟨edges.length, edges, leads, rfl⟩
  exact Nat.sInf_mem some_

omit [DecidableEq V] in
theorem dist_self : dist next dest source source = 0 :=
  Nat.le_zero.mp (dist_le (show Leads next dest source [] source from rfl))

variable {edge : E}

omit [DecidableEq V] in
theorem leads_concat {edges : List E} (leads : Leads next dest source edges v)
    (leaves : edge ∈ next v) : Leads next dest source (edges ++ [edge]) (dest edge) :=
  leads_append.mpr ⟨v, leads, leaves, rfl⟩

omit [DecidableEq V] in
theorem Reaches.step (reaches : Reaches next dest source v) (leaves : edge ∈ next v) :
    Reaches next dest source (dest edge) :=
  have ⟨edges, leads⟩ := reaches
  ⟨edges ++ [edge], leads_concat leads leaves⟩

omit [DecidableEq V] in
theorem Reaches.dist_step (reaches : Reaches next dest source v) (leaves : edge ∈ next v) :
    dist next dest source (dest edge) ≤ dist next dest source v + 1 := by
  obtain ⟨edges, leads, length⟩ := reaches.exists_dist
  have further := dist_le (leads_concat leads leaves)
  rwa [length_append, length] at further

def Met (parents : Parents V E) (v : V) : Prop := (parents.lookup v).isSome

theorem met_iff {parents : Parents V E} : Met parents v ↔ v ∈ Dicts.keys parents := by
  rw [Met, Option.isSome_iff_ne_none, ne_eq, Dicts.lookup_eq_none_iff, not_not]

theorem lookup_cons_self {parents : Parents V E} :
    List.lookup v ((v, from_) :: parents) = some from_ := by
  rw [lookup_cons, beq_self_eq_true]

theorem lookup_cons_of_ne {parents : Parents V E} {w : V} (apart : v ≠ w) :
    List.lookup v ((w, from_) :: parents) = parents.lookup v := by
  rw [lookup_cons, beq_false_of_ne apart]

theorem met_cons {parents : Parents V E} {w : V} :
    Met ((w, from_) :: parents) v ↔ v = w ∨ Met parents v := by
  by_cases same : v = w
  · rw [same, Met, lookup_cons_self]
    exact ⟨fun _ => .inl rfl, fun _ => rfl⟩
  · rw [Met, lookup_cons_of_ne same]
    exact ⟨.inr, fun met => met.resolve_left same⟩

variable (next dest source) in
/-- The vertices met but not on the frontier have no edge to a vertex that was not met, and the
frontier is in the order of the distance, which changes by one at most along it. -/
structure Explored (parents : Parents V E) (frontier : List V) : Prop where
  start : parents.lookup source = some none
  root : ∀ v, parents.lookup v = some none → v = source
  parent : ∀ v u edge, parents.lookup v = some (some (u, edge)) →
    edge ∈ next u ∧ dest edge = v ∧ Met parents u ∧ Reaches next dest source u ∧
      dist next dest source v = dist next dest source u + 1
  waiting : ∀ v ∈ frontier, Met parents v
  closed : ∀ v, Met parents v → v ∉ frontier → ∀ edge ∈ next v, Met parents (dest edge)
  sorted : frontier.Pairwise fun a b => dist next dest source a ≤ dist next dest source b
  near : ∀ a ∈ frontier, ∀ b ∈ frontier, dist next dest source b ≤ dist next dest source a + 1
  deep : ∀ v, Met parents v → dist next dest source v < parents.length
  distinct : (Dicts.keys parents).Nodup

variable {fuel : Nat}

section
variable {parents : Parents V E} {frontier : List V}

theorem explored_start : Explored next dest source [(source, none)] [source] where
  start := lookup_cons_self
  root v found := by
    by_contra apart
    rw [lookup_cons_of_ne apart] at found
    cases found
  parent v u edge found := by
    by_cases same : v = source
    · rw [same, lookup_cons_self] at found
      cases found
    · rw [lookup_cons_of_ne same] at found
      cases found
  waiting v member := met_cons.mpr (.inl (mem_singleton.mp member))
  closed v met outside := by
    rcases met_cons.mp met with rfl | met
    · exact absurd (mem_singleton_self v) outside
    · cases met
  sorted := pairwise_singleton _ _
  near a first b second := by
    rw [mem_singleton.mp first, mem_singleton.mp second]
    exact Nat.le_succ _
  deep v met := by
    rcases met_cons.mp met with rfl | met
    · rw [dist_self]
      exact Nat.one_pos
    · cases met
  distinct := nodup_singleton _

namespace Explored
variable (explored : Explored next dest source parents frontier)
include explored

theorem met_source : Met parents source := by
  rw [Met, explored.start]
  rfl

theorem reaches {v : V} (met : Met parents v) : Reaches next dest source v := by
  obtain ⟨from_, found⟩ := Option.isSome_iff_exists.mp met
  cases from_ with
  | none =>
    rw [explored.root v found]
    exact ⟨[], rfl⟩
  | some step =>
    obtain ⟨leaves, came, _, reaches, _⟩ := explored.parent v step.1 step.2 found
    exact came ▸ reaches.step leaves

theorem crosses {w : V} {edges : List E} (leads : Leads next dest v edges w) (met : Met parents v)
    (unmet : ¬ Met parents w) :
    ∃ u ∈ frontier, ∃ front back, edges = front ++ back ∧ back ≠ [] ∧
      Leads next dest v front u := by
  induction edges generalizing v with
  | nil => exact absurd (leads ▸ met) unmet
  | cons edge rest ih =>
    by_cases waits : v ∈ frontier
    · exact ⟨v, waits, [], edge :: rest, rfl, cons_ne_nil _ _, rfl⟩
    · obtain ⟨leaves, onward⟩ := leads
      obtain ⟨u, member, front, back, rfl, more, first⟩ :=
        ih onward (explored.closed v met waits edge leaves)
      exact ⟨u, member, edge :: front, back, rfl, more, leaves, first⟩

theorem trace_eq (met : Met parents v) (enough : dist next dest source v ≤ fuel)
    (chain : List E) :
    ∃ edges, trace parents fuel v chain = edges ++ chain ∧ Leads next dest source edges v ∧
      edges.length = dist next dest source v := by
  induction fuel generalizing v chain with
  | zero =>
    obtain ⟨edges, leads, length⟩ := (explored.reaches met).exists_dist
    have empty : edges = [] := length_eq_zero_iff.mp (length.trans (Nat.le_zero.mp enough))
    exact ⟨[], rfl, empty ▸ leads, empty ▸ length⟩
  | succ fuel ih =>
    obtain ⟨from_, found⟩ := Option.isSome_iff_exists.mp met
    rw [trace, found]
    cases from_ with
    | none =>
      rw [explored.root v found, dist_self]
      exact ⟨[], rfl, rfl, rfl⟩
    | some step =>
      obtain ⟨leaves, came, metParent, _, further⟩ := explored.parent v step.1 step.2 found
      obtain ⟨edges, traced, leads, length⟩ :=
        ih metParent (Nat.le_of_succ_le_succ (further.symm.trans_le enough)) (step.2 :: chain)
      refine ⟨edges ++ [step.2], ?_, came ▸ leads_concat leads leaves, ?_⟩
      · rw [append_assoc]
        exact traced
      · rw [length_append, length, further]
        rfl

end Explored

variable {current : V}

section
variable (explored : Explored next dest source parents (current :: frontier))
include explored

theorem Explored.dist_new (leaves : edge ∈ next current) (unmet : ¬ Met parents (dest edge)) :
    dist next dest source (dest edge) = dist next dest source current + 1 := by
  have reaches := explored.reaches (explored.waiting current mem_cons_self)
  apply (reaches.dist_step leaves).antisymm
  obtain ⟨edges, leads, length⟩ := (reaches.step leaves).exists_dist
  obtain ⟨u, member, front, back, rfl, more, first⟩ :=
    explored.crosses leads explored.met_source unmet
  have nearest : dist next dest source current ≤ dist next dest source u := by
    rcases mem_cons.mp member with rfl | member
    · exact le_rfl
    · exact (pairwise_cons.mp explored.sorted).1 u member
  have shorter := dist_le first
  have left := length_pos_iff.mpr more
  rw [length_append] at length
  omega

theorem Explored.meet (leaves : edge ∈ next current) (unmet : ¬ Met parents (dest edge)) :
    Explored next dest source ((dest edge, some (current, edge)) :: parents)
      (current :: (frontier ++ [dest edge])) := by
  have further := explored.dist_new leaves unmet
  have metCurrent := explored.waiting current mem_cons_self
  have apart : source ≠ dest edge := fun same => unmet (same ▸ explored.met_source)
  have first := (pairwise_cons.mp explored.sorted).1
  have all : ∀ v, v ∈ current :: (frontier ++ [dest edge]) ↔
      v ∈ current :: frontier ∨ v = dest edge := by
    intro v
    rw [mem_cons, mem_append, mem_singleton, mem_cons, or_assoc]
  have least : ∀ v ∈ current :: frontier,
      dist next dest source current ≤ dist next dest source v := by
    intro v member
    rcases mem_cons.mp member with rfl | member
    · exact le_rfl
    · exact first v member
  constructor
  case start => exact (lookup_cons_of_ne apart).trans explored.start
  case root =>
    intro v found
    by_cases same : v = dest edge
    · rw [same, lookup_cons_self] at found
      cases found
    · exact explored.root v ((lookup_cons_of_ne same).symm.trans found)
  case parent =>
    intro v u other found
    by_cases same : v = dest edge
    · rw [same, lookup_cons_self] at found
      cases found
      exact ⟨leaves, same.symm, met_cons.mpr (.inr metCurrent), explored.reaches metCurrent,
        same ▸ further⟩
    · obtain ⟨leaves, came, met, reaches, dist⟩ :=
        explored.parent v u other ((lookup_cons_of_ne same).symm.trans found)
      exact ⟨leaves, came, met_cons.mpr (.inr met), reaches, dist⟩
  case waiting =>
    intro v member
    rcases (all v).mp member with member | same
    · exact met_cons.mpr (.inr (explored.waiting v member))
    · exact met_cons.mpr (.inl same)
  case closed =>
    intro v met outside other member
    have inside := (all v).not.mp outside
    rw [not_or] at inside
    have old := (met_cons.mp met).resolve_left inside.2
    exact met_cons.mpr (.inr (explored.closed v old inside.1 other member))
  case sorted =>
    rw [← cons_append, pairwise_append]
    refine ⟨explored.sorted, pairwise_singleton _ _, ?_⟩
    intro a member b last
    rw [mem_singleton.mp last, further]
    exact explored.near current mem_cons_self a member
  case near =>
    intro a left b right
    rcases (all a).mp left with left | rfl <;> rcases (all b).mp right with right | rfl
    · exact explored.near a left b right
    · rw [further]
      exact Nat.succ_le_succ (least a left)
    · rw [further]
      exact (explored.near current mem_cons_self b right).trans (Nat.le_succ _)
    · exact Nat.le_succ _
  case deep =>
    intro v met
    rcases met_cons.mp met with rfl | met
    · rw [further]
      exact Nat.succ_lt_succ (explored.deep current metCurrent)
    · exact (explored.deep v met).trans (Nat.lt_succ_self _)
  case distinct =>
    exact nodup_cons.mpr ⟨fun member => unmet (met_iff.mpr member), explored.distinct⟩

theorem Explored.scan {edges : List E}
    (unmet : ¬ Met parents target) (leaves : edges ⊆ next current)
    (scanned : ∀ edge ∈ next current, edge ∈ edges ∨ Met parents (dest edge)) :
    match scan dest target current edges parents frontier with
    | .error chain => Shortest next dest source chain target
    | .ok (parents', frontier') => Explored next dest source parents' frontier' ∧
        ¬ Met parents' target ∧
        parents'.length + frontier.length = parents.length + frontier'.length := by
  induction edges generalizing parents frontier with
  | nil =>
    refine ⟨?_, unmet, rfl⟩
    constructor
    case waiting => exact fun v member => explored.waiting v (mem_cons_of_mem _ member)
    case sorted => exact (pairwise_cons.mp explored.sorted).2
    case near =>
      exact fun a left b right => explored.near a (mem_cons_of_mem _ left) b
        (mem_cons_of_mem _ right)
    case closed =>
      intro v met outside edge member
      by_cases same : v = current
      · exact (scanned edge (same ▸ member)).resolve_left not_mem_nil
      · exact explored.closed v met (not_mem_cons_of_ne_of_not_mem same outside) edge member
    case start => exact explored.start
    case root => exact explored.root
    case parent => exact explored.parent
    case deep => exact explored.deep
    case distinct => exact explored.distinct
  | cons edge rest ih =>
    obtain ⟨leavesFirst, leavesRest⟩ := cons_subset.mp leaves
    rw [BreadthFirst.scan]
    by_cases met : (parents.lookup (dest edge)).isSome = true
    · rw [if_pos met]
      refine ih explored unmet leavesRest fun other member => ?_
      rcases scanned other member with here | met'
      · rcases mem_cons.mp here with rfl | later
        · exact .inr met
        · exact .inl later
      · exact .inr met'
    · rw [if_neg met]
      have further := explored.meet leavesFirst met
      by_cases done : dest edge = target
      · simp only [if_pos done]
        have metTarget : Met ((dest edge, some (current, edge)) :: parents) target :=
          met_cons.mpr (.inl done.symm)
        obtain ⟨found, traced, leads, length⟩ :=
          further.trace_eq metTarget (further.deep target metTarget).le []
        rw [traced, append_nil]
        exact ⟨leads, fun other leads' => length.trans_le (dist_le leads')⟩
      · simp only [if_neg done]
        have unmet' : ¬ Met ((dest edge, some (current, edge)) :: parents) target := by
          rw [met_cons, not_or]
          exact ⟨fun same => done same.symm, unmet⟩
        have onward := ih further unmet' leavesRest fun other member => ?_
        · revert onward
          cases BreadthFirst.scan dest target current rest
              ((dest edge, some (current, edge)) :: parents) (frontier ++ [dest edge]) with
          | error chain => exact id
          | ok reached =>
            rintro ⟨explored', unmet', length⟩
            refine ⟨explored', unmet', ?_⟩
            simp only [length_append, length_cons, length_nil] at length
            omega
        · rcases scanned other member with here | met'
          · rcases mem_cons.mp here with rfl | later
            · exact .inr (met_cons.mpr (.inl rfl))
            · exact .inl later
          · exact .inr (met_cons.mpr (.inr met'))

end

theorem Explored.search (all : List V) (starts : source ∈ all)
    (ends : ∀ v, ∀ edge ∈ next v, dest edge ∈ all)
    (explored : Explored next dest source parents frontier) (unmet : ¬ Met parents target)
    (enough : all.length + frontier.length < fuel + parents.length) :
    Finds next dest source target (search next dest target fuel parents frontier) := by
  induction fuel generalizing parents frontier with
  | zero =>
    have within : Dicts.keys parents ⊆ all := by
      intro v member
      obtain ⟨from_, found⟩ := Option.isSome_iff_exists.mp (met_iff.mpr member)
      cases from_ with
      | none => exact explored.root v found ▸ starts
      | some step =>
        obtain ⟨leaves, came, _⟩ := explored.parent v step.1 step.2 found
        exact came ▸ ends step.1 step.2 leaves
    have few := (explored.distinct.subperm within).length_le
    rw [Dicts.keys, length_map] at few
    omega
  | succ fuel ih =>
    cases frontier with
    | nil =>
      rintro ⟨edges, leads⟩
      obtain ⟨u, waits, _⟩ := explored.crosses leads explored.met_source unmet
      exact not_mem_nil waits
    | cons current frontier =>
      rw [BreadthFirst.search]
      have scanned := explored.scan unmet (List.Subset.refl _) fun edge member => .inl member
      revert scanned
      cases BreadthFirst.scan dest target current (next current) parents frontier with
      | error chain => exact id
      | ok reached =>
        rintro ⟨explored', unmet', length⟩
        refine ih explored' unmet' ?_
        rw [length_cons] at enough
        omega

end

/-- With fuel for all nodes the search finds a shortest path, or there is none. -/
theorem findPath_spec (all : List V) (starts : source ∈ all)
    (ends : ∀ v, ∀ edge ∈ next v, dest edge ∈ all) (enough : all.length < fuel) :
    Finds next dest source target (findPath next dest fuel source target) := by
  rw [findPath]
  by_cases same : source = target
  · rw [if_pos same]
    exact ⟨same, fun _ _ => Nat.zero_le _⟩
  · rw [if_neg same]
    refine explored_start.search all starts ends (fun met => ?_) (Nat.succ_lt_succ enough)
    rcases met_cons.mp met with back | met
    · exact same back.symm
    · cases met

end BreadthFirst
