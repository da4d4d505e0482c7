import Mathlib.Algebra.Order.BigOperators.Group.List
import Mathlib.Algebra.Order.Group.Nat
import Mathlib.Algebra.Ring.Nat
import OpenUltraSast.Cfg.Graph
import OpenUltraSast.Library.Dicts
import OpenUltraSast.Library.Dominators

/-!
# Dominators of a graph

`_dominators` ends, with a mask for each node that the entry reaches: bit `a` of the mask of `b` is
set exactly when every path from the entry to `b` passes through `a`.
-/

open Dominators Relation

namespace OpenUltraSast.Cfg

open List

open FunctionCfg (entryIndex)

/-- The loop over the depth-first stack empties it. -/
inductive Walks (successors : Nat → List Nat) :
    List (Nat × Bool) → List Nat → List Nat → List Nat → Prop
  | ended {seen order : List Nat} : Walks successors [] seen order order
  | done {node : Nat} {stack : List (Nat × Bool)} {seen order out : List Nat}
      (rest : Walks successors stack seen (node :: order) out) :
      Walks successors ((node, true) :: stack) seen order out
  | again {node : Nat} {stack : List (Nat × Bool)} {seen order out : List Nat}
      (before : node ∈ seen) (rest : Walks successors stack seen order out) :
      Walks successors ((node, false) :: stack) seen order out
  | first {node : Nat} {stack : List (Nat × Bool)} {seen order out : List Nat}
      (new : node ∉ seen)
      (rest : Walks successors
        (((successors node).filter (· ∉ node :: seen)).map (·, false) ++ (node, true) :: stack)
        (node :: seen) order out) :
      Walks successors ((node, false) :: stack) seen order out

variable {successors : Nat → List Nat} {stack : List (Nat × Bool)} {seen order out : List Nat}

def turns (stack : List (Nat × Bool)) : Nat := (stack.map fun entry => if entry.2 then 1 else 2).sum

variable {node : Nat}

theorem countP_fresh (edges : List (Nat × Nat)) (new : node ∉ seen) :
    edges.countP (·.1 ∉ seen) =
      edges.countP (·.1 = node) + edges.countP (·.1 ∉ node :: seen) := by
  induction edges with
  | nil => rfl
  | cons edge edges ih =>
    simp only [countP_cons, ih]
    by_cases same : edge.1 = node
    · simp [same, new]
      omega
    · simp [same]
      omega

private theorem postorderLoop_walks (edges : List (Nat × Nat))
    (few : ∀ node, (successors node).length ≤ edges.countP (·.1 = node)) (fuel : Nat)
    (stack : List (Nat × Bool)) (seen order : List Nat)
    (enough : turns stack + 2 * edges.countP (·.1 ∉ seen) ≤ fuel) :
    Walks successors stack seen order (postorderLoop successors fuel stack seen order) := by
  induction fuel generalizing stack seen order with
  | zero =>
    cases stack with
    | nil => exact .ended
    | cons entry stack =>
      simp only [turns, map_cons, sum_cons] at enough
      split at enough <;> omega
  | succ fuel ih =>
    cases stack with
    | nil => exact .ended
    | cons entry stack =>
      obtain ⟨node, isDone⟩ := entry
      simp only [turns, map_cons, sum_cons] at enough
      cases isDone with
      | true => exact .done (ih _ _ _ (by simp only [turns, if_true] at enough ⊢; omega))
      | false =>
        simp only [Bool.false_eq_true, if_false] at enough
        unfold postorderLoop
        split
        next before => exact .again before (ih _ _ _ (by simp only [turns]; omega))
        next new =>
          refine .first new (ih _ _ _ ?_)
          -- what is pushed is paid for by the edges of a node that was fresh until now
          have fresh := countP_fresh edges new
          have pushed := (length_filter_le (· ∉ node :: seen) (successors node)).trans (few node)
          simp only [turns, map_append, List.map_map, map_cons, sum_append,
            sum_cons, Function.comp_def, Bool.false_eq_true, if_false, if_true,
            map_const', sum_replicate_nat]
          omega

variable {entry : Nat}

structure Walking (successors : Nat → List Nat) (entry : Nat) (stack : List (Nat × Bool))
    (seen order : List Nat) : Prop where
  held : ∀ n, n ∈ seen ↔ (n, true) ∈ stack ∨ n ∈ order
  once : ((stack.filter (·.2)).map (·.1) ++ order).Nodup
  onward : ∀ n ∈ seen, ∀ m ∈ successors n, m ∈ seen ∨ (m, false) ∈ stack
  stacked : ∀ place ∈ stack, Reached (fun a b => b ∈ successors a) entry place.1
  ordered : ∀ n ∈ order, Reached (fun a b => b ∈ successors a) entry n

theorem Walking.done (walking : Walking successors entry ((node, true) :: stack) seen order) :
    Walking successors entry stack seen (node :: order) where
  held n := by
    rw [walking.held n, mem_cons, mem_cons, Prod.mk.injEq]
    tauto
  once := by simpa [nodup_middle] using walking.once
  onward n member m edge := by simpa using walking.onward n member m edge
  stacked place below := walking.stacked place (mem_cons_of_mem _ below)
  ordered n member := by
    rcases mem_cons.mp member with rfl | before
    · exact walking.stacked _ mem_cons_self
    · exact walking.ordered n before

theorem Walking.first (new : node ∉ seen)
    (walking : Walking successors entry ((node, false) :: stack) seen order) :
    Walking successors entry
      (((successors node).filter (· ∉ node :: seen)).map (·, false) ++ (node, true) :: stack)
      (node :: seen) order := by
  have here := walking.stacked _ mem_cons_self
  constructor
  · intro n
    simp only [mem_cons, walking.held n, mem_append, mem_map, Prod.mk.injEq,
      Bool.false_eq_true, and_false, exists_const, false_or, Bool.true_eq_false, and_true, or_assoc]
  · have once := walking.once
    have unheld := mt (walking.held node).mpr new
    simp only [mem_cons, Prod.mk.injEq, Bool.true_eq_false, and_false, false_or, not_or] at unheld
    have none_ : ((((successors node).filter (· ∉ node :: seen)).map (·, false)).filter (·.2)) = [] := by
      simp [filter_eq_nil_iff]
    -- the node is done neither on the stack nor in the order, since neither was seen
    rw [filter_append, none_, nil_append, filter_cons_of_pos rfl, map_cons,
      cons_append, nodup_cons]
    rw [filter_cons_of_neg (by simp)] at once
    refine ⟨fun member => ?_, once⟩
    rcases mem_append.mp member with open_ | finished
    · obtain ⟨place, kept, same⟩ := mem_map.mp open_
      obtain ⟨member, isDone⟩ := mem_filter.mp kept
      have here : place = (node, true) := Prod.ext same isDone
      exact unheld.1 (here ▸ member)
    · exact unheld.2 finished
  · intro n member m edge
    by_cases known : m ∈ node :: seen
    · exact .inl known
    · right
      rcases mem_cons.mp member with rfl | before
      · refine mem_append_left _ (mem_map.mpr ⟨m, mem_filter.mpr ⟨edge, ?_⟩, rfl⟩)
        simpa using known
      · rcases walking.onward n before m edge with seen | pushed
        · exact absurd (mem_cons_of_mem _ seen) known
        · refine mem_append_right _ (mem_cons_of_mem _ ?_)
          refine (mem_cons.mp pushed).resolve_left fun same => known ?_
          exact (Prod.mk.inj same).1 ▸ mem_cons_self
  · intro place member
    rcases mem_append.mp member with pushed | below
    · obtain ⟨m, kept, rfl⟩ := mem_map.mp pushed
      exact here.step (mem_filter.mp kept).1
    · rcases mem_cons.mp below with rfl | below
      · exact here
      · exact walking.stacked place (mem_cons_of_mem _ below)
  · exact walking.ordered

/-- The search lists each node that the entry reaches once, and no other. -/
theorem Walks.spec (walks : Walks successors stack seen order out)
    (walking : Walking successors entry stack seen order) :
    out.Nodup ∧
      (∀ n ∈ out, Reached (fun a b => b ∈ successors a) entry n ∧ ∀ m ∈ successors n, m ∈ out) ∧
      ∀ n, n ∈ seen ∨ (n, false) ∈ stack → n ∈ out := by
  induction walks with
  | ended =>
    have held : ∀ n, n ∈ _ ↔ n ∈ _ := fun n => by simpa using walking.held n
    refine ⟨by simpa using walking.once, fun n member => ⟨walking.ordered n member, fun m edge => ?_⟩,
      fun n pending => by simpa [held] using pending⟩
    simpa [held] using walking.onward n ((held n).mpr member) m edge
  | done _ ih =>
    obtain ⟨once, closed, all⟩ := ih walking.done
    exact ⟨once, closed, fun n pending => all n (by simpa using pending)⟩
  | @again node stack seen order out before _ ih =>
    have pending : ∀ n, n ∈ seen ∨ (n, false) ∈ (node, false) :: stack →
        n ∈ seen ∨ (n, false) ∈ stack := by
      intro n either
      rcases either with known | pushed
      · exact .inl known
      · rcases mem_cons.mp pushed with same | below
        · exact .inl ((Prod.mk.inj same).1 ▸ before)
        · exact .inr below
    obtain ⟨once, closed, all⟩ := ih ⟨fun n => by simpa using walking.held n,
      by simpa using walking.once, fun n member m edge => pending m (walking.onward n member m edge),
      fun place below => walking.stacked place (mem_cons_of_mem _ below), walking.ordered⟩
    exact ⟨once, closed, fun n either => all n (pending n either)⟩
  | first new _ ih =>
    obtain ⟨once, closed, all⟩ := ih (walking.first new)
    refine ⟨once, closed, fun n either => all n ?_⟩
    rcases either with known | pushed
    · exact .inl (mem_cons_of_mem _ known)
    · rcases mem_cons.mp pushed with same | below
      · exact .inl ((Prod.mk.inj same).1 ▸ mem_cons_self)
      · exact .inr (mem_append_right _ (mem_cons_of_mem _ below))

theorem Walks.head (walks : Walks successors stack seen order out) (front : List (Nat × Bool))
    {bottom : Nat} (split : stack = front ++ [(bottom, true)]) : ∃ rest, out = bottom :: rest := by
  induction walks generalizing front with
  | ended => simp at split
  | @done node stack seen order out walks ih =>
    cases front with
    | nil =>
      simp only [nil_append, List.cons.injEq, Prod.mk.injEq, and_true] at split
      obtain ⟨rfl, rfl⟩ := split
      cases walks
      exact ⟨_, rfl⟩
    | cons place front => exact ih front (List.cons.inj split).2
  | again _ _ ih =>
    cases front with
    | nil => simp at split
    | cons place front => exact ih front (List.cons.inj split).2
  | @first node _ seen _ _ _ _ ih =>
    cases front with
    | nil => simp at split
    | cons place front =>
      have tail := (List.cons.inj split).2
      refine ih (((successors node).filter (· ∉ node :: seen)).map (·, false) ++
        (node, true) :: front) ?_
      rw [tail, append_assoc, cons_append]
      rfl

theorem length_sortedSet_le (values : List Nat) :
    (Collections.sortedSet values).length ≤ values.length := by
  rw [Collections.sortedSet, length_insertionSort]
  exact (subperm_of_subset (Collections.nodup_eraseDups values)
    fun _ member => mem_eraseDups.mp member).length_le

variable (cfg : FunctionCfg)

/-- `a` leads to `b` over a normal or an exceptional edge. -/
abbrev FunctionCfg.Edge (a b : Nat) : Prop := b ∈ cfg.successors a

theorem length_successors_le (node : Nat) :
    (cfg.successors node).length ≤ (cfg.normal ++ cfg.exceptional).countP (·.1 = node) := by
  refine (length_sortedSet_le _).trans ?_
  rw [length_map, countP_eq_length_filter]

theorem reversePostorder_walks :
    Walks cfg.successors [(entryIndex, false)] [] [] (reversePostorder cfg) := by
  refine postorderLoop_walks (cfg.normal ++ cfg.exceptional) (length_successors_le cfg) _ _ _ _ ?_
  have all := countP_le_length (p := fun edge => decide (edge.1 ∉ []))
    (l := cfg.normal ++ cfg.exceptional)
  rw [length_append] at all
  simp only [turns, map_cons, map_nil, sum_cons, sum_nil, Bool.false_eq_true,
    if_false]
  omega

/-- The order begins at the entry and has each reachable node once. -/
theorem reversePostorder_spec :
    ∃ rest, reversePostorder cfg = entryIndex :: rest ∧
      (entryIndex :: rest).Nodup ∧
      ∀ n, n ∈ entryIndex :: rest ↔ Reached cfg.Edge entryIndex n := by
  have walks := reversePostorder_walks cfg
  have start : Walking cfg.successors entryIndex [(entryIndex, false)] [] [] := by
    refine ⟨by simp, by simp, nofun, fun place member => ?_, nofun⟩
    exact mem_singleton.mp member ▸ reached_root
  obtain ⟨once, closed, all⟩ := walks.spec start
  obtain ⟨rest, same⟩ : ∃ rest, reversePostorder cfg = entryIndex :: rest := by
    cases walks with
    | again before => cases before
    | first _ walks => exact walks.head _ rfl
  rw [same] at once closed all
  refine ⟨rest, same, once, fun n => ⟨fun member => (closed n member).1, ?_⟩⟩
  rintro ⟨passed, path⟩
  induction path with
  | root => exact mem_cons_self
  | step _ onward ih => exact (closed _ ih).2 _ onward

theorem testBit_bit (node a : Nat) : (1 <<< node).testBit a = true ↔ a = node := by
  rw [Nat.one_shiftLeft, Nat.testBit_two_pow, decide_eq_true_eq, eq_comm]

private theorem testBit_everything (order : List Nat) (start a : Nat) :
    (order.foldl (fun mask node => mask ||| 1 <<< node) start).testBit a = true ↔
      start.testBit a = true ∨ a ∈ order := by
  induction order generalizing start with
  | nil => simp
  | cons node order ih =>
    rw [foldl_cons, ih, Nat.testBit_or, Bool.or_eq_true, testBit_bit, mem_cons, or_assoc]

/-- Bit `a` of the mask of `b`. -/
def Masks.Holds (dom : Masks) (b a : Nat) : Prop := (dom.get b).testBit a = true

variable {predecessors : Nat → List Nat} {everything : Nat} {dom : Masks}

theorem testBit_meetMask {node a : Nat} :
    (meetMask predecessors everything dom node).testBit a = true ↔
      (everything.testBit a = true ∧ ∀ p ∈ predecessors node, dom.Holds p a) ∨ a = node := by
  have met : ∀ (ps : List Nat) (mask : Nat),
      (ps.foldl (fun mask p => mask &&& dom.get p) mask).testBit a = true ↔
        mask.testBit a = true ∧ ∀ p ∈ ps, dom.Holds p a := by
    intro ps
    induction ps with
    | nil => simp
    | cons p ps ih =>
      intro mask
      rw [foldl_cons, ih, Nat.testBit_and, Bool.and_eq_true, forall_mem_cons, and_assoc]
      rfl
  rw [meetMask, Nat.testBit_or, Bool.or_eq_true, met, testBit_bit]

theorem Masks.keys_set (dom : Masks) (node mask : Nat) :
    Dicts.keys (dom.set node mask) = Dicts.keys dom := by
  rw [Masks.set, Dicts.keys, List.map_map]
  refine map_congr_left fun entry _ => ?_
  rw [Function.comp_apply]
  split
  next same => exact same.symm
  next => rfl

theorem Masks.get_set (member : node ∈ Dicts.keys dom) (mask b : Nat) :
    (dom.set node mask).get b = if b = node then mask else dom.get b := by
  rw [Masks.get, Masks.set, Dicts.lookup_map_set, Masks.get]
  by_cases same : b = node
  · simp [same, member]
  · simp [same]

inductive Revised (predecessors : Nat → List Nat) (everything : Nat) (nodes : List Nat) :
    Masks → Masks → Prop
  | intro {dom : Masks} {node : Nat} (member : node ∈ nodes)
      (differs : meetMask predecessors everything dom node ≠ dom.get node) :
      Revised predecessors everything nodes dom
        (dom.set node (meetMask predecessors everything dom node))

private theorem dominatorPass_cases {nodes rest : List Nat} (subset : rest ⊆ nodes) (dom : Masks)
    (changed : Bool) :
    dominatorPass predecessors everything rest dom changed = (dom, changed) ∧
        (∀ node ∈ rest, meetMask predecessors everything dom node = dom.get node) ∨
      ∃ next, dominatorPass predecessors everything rest dom changed = (next, true) ∧
        TransGen (Revised predecessors everything nodes) dom next := by
  induction rest generalizing dom changed with
  | nil => exact .inl ⟨rfl, nofun⟩
  | cons node rest ih =>
    have others : rest ⊆ nodes := fun n member => subset (mem_cons_of_mem _ member)
    simp only [dominatorPass]
    split
    next differs =>
      have revised : Revised predecessors everything nodes dom _ :=
        .intro (subset mem_cons_self) differs
      right
      -- the rest of the pass already reads the mask that was set
      rcases ih others (dom.set node (meetMask predecessors everything dom node)) true with
        ⟨same, -⟩ | ⟨next, run, later⟩
      · exact ⟨_, same, .single revised⟩
      · exact ⟨next, run, .head revised later⟩
    next same =>
      rw [not_not] at same
      refine (ih others dom changed).imp_left fun ⟨run, all⟩ => ⟨run, ?_⟩
      exact forall_mem_cons.mpr ⟨same, all⟩

/-- Passes until one changes nothing. -/
inductive Settles (pass : Masks → Masks × Bool) : Masks → Masks → Prop
  | ended {dom out : Masks} (run : pass dom = (out, false)) : Settles pass dom out
  | again {dom next out : Masks} (run : pass dom = (next, true)) (rest : Settles pass next out) :
      Settles pass dom out

abbrev FunctionCfg.predecessorsIn (order : List Nat) (node : Nat) : List Nat :=
  order.filter fun p => node ∈ cfg.successors p

/-- `everything`. -/
abbrev maskOf (order : List Nat) : Nat := order.foldl (fun mask node => mask ||| 1 <<< node) 0

abbrev startMasks (order : List Nat) : Masks :=
  order.map fun node => (node, if node = entryIndex then 1 <<< entryIndex else maskOf order)

variable {cfg} {rest : List Nat}

/-- The nodes that the masks are kept for. -/
structure Ordered (cfg : FunctionCfg) (rest : List Nat) : Prop where
  once : (entryIndex :: rest).Nodup
  mem_iff : ∀ n, n ∈ entryIndex :: rest ↔ Reached cfg.Edge entryIndex n

/-- Masks on their way down to the dominators: none is below them, and none below what it should be. -/
structure Descending (cfg : FunctionCfg) (rest : List Nat) (dom : Masks) : Prop where
  keys : Dicts.keys dom = entryIndex :: rest
  within : ∀ b a, dom.Holds b a → a ∈ entryIndex :: rest
  entry : ∀ a, dom.Holds entryIndex a → a = entryIndex
  above : ∀ b ∈ entryIndex :: rest, ∀ a, Dominates cfg.Edge entryIndex a b → dom.Holds b a
  falls : ∀ b ∈ rest, ∀ a, (meetMask (cfg.predecessorsIn (entryIndex :: rest))
    (maskOf (entryIndex :: rest)) dom b).testBit a = true → dom.Holds b a

def bits (order : List Nat) (dom : Masks) : Nat :=
  (order.map fun b => order.countP fun a => (dom.get b).testBit a).sum

theorem bits_le (order : List Nat) (dom : Masks) : bits order dom ≤ order.length * order.length := by
  have each := sum_le_card_nsmul
    (order.map fun b => order.countP fun a => (dom.get b).testBit a) order.length fun n member => by
      obtain ⟨b, -, rfl⟩ := mem_map.mp member
      exact countP_le_length
  rwa [length_map, Nat.nsmul_eq_mul] at each

theorem testBit_maskOf (order : List Nat) (a : Nat) :
    (maskOf order).testBit a = true ↔ a ∈ order := by
  simpa using testBit_everything order 0 a

/-- A pass that changes a mask only takes members out, and takes one out. -/
theorem Descending.revised {next : Masks} (ordered : Ordered cfg rest)
    (descending : Descending cfg rest dom)
    (revised : Revised (cfg.predecessorsIn (entryIndex :: rest)) (maskOf (entryIndex :: rest)) rest
      dom next) :
    Descending cfg rest next ∧ bits (entryIndex :: rest) next < bits (entryIndex :: rest) dom := by
  obtain ⟨member, differs⟩ := revised
  rename_i node
  have isKey : node ∈ Dicts.keys dom := descending.keys ▸ mem_cons_of_mem _ member
  have get_ := Masks.get_set isKey
    (meetMask (cfg.predecessorsIn (entryIndex :: rest)) (maskOf (entryIndex :: rest)) dom node)
  generalize next_ : dom.set node _ = next at get_ ⊢
  have holds_node : ∀ a, next.Holds node a ↔ _ := fun a => by rw [Masks.Holds, get_, if_pos rfl]
  have holds_other : ∀ b, b ≠ node → ∀ a, next.Holds b a ↔ dom.Holds b a := fun b apart a => by
    rw [Masks.Holds, get_, if_neg apart, Masks.Holds]
  have le : ∀ b a, next.Holds b a → dom.Holds b a := by
    intro b a held
    by_cases same : b = node
    · subst same
      exact descending.falls b member a ((holds_node a).mp held)
    · exact (holds_other b same a).mp held
  refine ⟨⟨?_, fun b a held => descending.within b a (le b a held),
    fun a held => descending.entry a (le _ a held), fun b known a dominates => ?_, fun b known a meets => ?_⟩, ?_⟩
  · rw [← next_, Masks.keys_set, descending.keys]
  · by_cases same : b = node
    · subst same
      rw [holds_node, testBit_meetMask, testBit_maskOf, ordered.mem_iff]
      -- another dominator of the node dominates all before it, and so is in what they meet in
      by_cases own : a = b
      · exact .inr own
      · refine .inl ⟨dominates.reached ((ordered.mem_iff b).mp known), fun p before => ?_⟩
        obtain ⟨isNode, edge⟩ := mem_filter.mp before
        exact descending.above p isNode a
          ((dominates.before (of_decide_eq_true edge)).resolve_left own)
    · exact (holds_other b same a).mpr (descending.above b known a dominates)
  · have met : (meetMask (cfg.predecessorsIn (entryIndex :: rest)) (maskOf (entryIndex :: rest)) dom
        b).testBit a = true := by
      rw [testBit_meetMask] at meets ⊢
      -- smaller masks meet in less
      exact meets.imp_left fun ⟨all, each⟩ => ⟨all, fun p before => le p a (each p before)⟩
    by_cases same : b = node
    · subst same
      exact (holds_node a).mpr met
    · exact (holds_other b same a).mpr (descending.falls b known a met)
  · -- the mask of the node loses a bit
    obtain ⟨a, held, lost⟩ : ∃ a, dom.Holds node a ∧ ¬ next.Holds node a := by
      by_contra none_
      refine differs (Nat.eq_of_testBit_eq fun a => Bool.eq_iff_iff.mpr ⟨descending.falls node member a, fun held => ?_⟩)
      by_contra lost
      exact none_ ⟨a, held, fun kept => lost ((holds_node a).mp kept)⟩
    refine sum_lt_sum _ _ (fun b _ => countP_mono_left fun a _ => le b a)
      ⟨node, mem_cons_of_mem _ member, ?_⟩
    exact Collections.countP_lt_of_flip (le node) (descending.within node a held) held
      (Bool.eq_false_iff.mpr lost)

theorem Descending.revisedAll {next : Masks} (ordered : Ordered cfg rest)
    (descending : Descending cfg rest dom)
    (revised : TransGen (Revised (cfg.predecessorsIn (entryIndex :: rest))
      (maskOf (entryIndex :: rest)) rest) dom next) :
    Descending cfg rest next ∧ bits (entryIndex :: rest) next < bits (entryIndex :: rest) dom := by
  induction revised with
  | single revised => exact descending.revised ordered revised
  | tail _ revised ih =>
    have step := ih.1.revised ordered revised
    exact ⟨step.1, step.2.trans ih.2⟩

/-- With more fuel than there are bits to lose, the passes end at a solution of the equations. -/
theorem dominatorLoop_spec (ordered : Ordered cfg rest) (fuel : Nat) (dom : Masks)
    (descending : Descending cfg rest dom) (enough : bits (entryIndex :: rest) dom < fuel) :
    let predecessors := cfg.predecessorsIn (entryIndex :: rest)
    let everything := maskOf (entryIndex :: rest)
    let out := dominatorLoop predecessors everything rest fuel dom
    Settles (fun dom => dominatorPass predecessors everything rest dom false) dom out ∧
      Descending cfg rest out ∧
      ∀ node ∈ rest, meetMask predecessors everything out node = out.get node := by
  induction fuel generalizing dom with
  | zero => omega
  | succ fuel ih =>
    simp only [dominatorLoop]
    rcases dominatorPass_cases (fun _ member => member) dom false with
      ⟨run, all⟩ | ⟨next, run, revised⟩
    · rw [run]
      exact ⟨.ended run, descending, all⟩
    · obtain ⟨still, fewer⟩ := descending.revisedAll ordered revised
      obtain ⟨settles, kept, all⟩ := ih next still (by omega)
      rw [run]
      exact ⟨.again run settles, kept, all⟩

theorem get_startMasks {order : List Nat} {b : Nat} (member : b ∈ order) :
    (startMasks order).get b = if b = entryIndex then 1 <<< entryIndex else maskOf order := by
  rw [Masks.get, Dicts.lookup_graph, if_pos member]
  rfl

private theorem descending_start (ordered : Ordered cfg rest) :
    Descending cfg rest (startMasks (entryIndex :: rest)) := by
  have first : entryIndex ∈ entryIndex :: rest := mem_cons_self
  have later : ∀ b ∈ rest, ∀ a, (startMasks (entryIndex :: rest)).Holds b a ↔ a ∈ entryIndex :: rest := by
    intro b member a
    have apart : b ≠ entryIndex := fun same => (nodup_cons.mp ordered.once).1 (same ▸ member)
    rw [Masks.Holds, get_startMasks (mem_cons_of_mem _ member), if_neg apart, testBit_maskOf]
  have entry : ∀ a, (startMasks (entryIndex :: rest)).Holds entryIndex a ↔ a = entryIndex := by
    intro a
    rw [Masks.Holds, get_startMasks first, if_pos rfl, testBit_bit]
  refine ⟨?_, fun b a held => ?_, fun a => (entry a).mp, fun b known a dominates => ?_, fun b member a meets => ?_⟩
  · rw [startMasks, Dicts.keys, List.map_map]
    exact map_id _
  · by_cases known : b ∈ entryIndex :: rest
    · rcases mem_cons.mp known with rfl | member
      · exact (entry a).mp held ▸ first
      · exact (later b member a).mp held
    · rw [Masks.Holds, Masks.get, Dicts.lookup_graph, if_neg known] at held
      simp at held
  · rcases mem_cons.mp known with rfl | member
    · exact (entry a).mpr dominates.eq_root
    · exact (later b member a).mpr ((ordered.mem_iff a).mpr (dominates.reached ((ordered.mem_iff b).mp known)))
  · rw [later b member a]
    rcases testBit_meetMask.mp meets with ⟨all, -⟩ | same
    · exact (testBit_maskOf _ a).mp all
    · exact same ▸ mem_cons_of_mem _ member

/-- Masks that solve the equations hold the dominators of each reachable node. -/
theorem Descending.holds_iff (ordered : Ordered cfg rest) (descending : Descending cfg rest dom)
    (settled : ∀ node ∈ rest, meetMask (cfg.predecessorsIn (entryIndex :: rest))
      (maskOf (entryIndex :: rest)) dom node = dom.get node) {b : Nat}
    (reached : Reached cfg.Edge entryIndex b) (a : Nat) :
    dom.Holds b a ↔ Dominates cfg.Edge entryIndex a b := by
  refine ⟨dominates_of_solution descending.entry ?_, descending.above b ((ordered.mem_iff b).mpr reached) a⟩
  intro u w before edge apart v held
  have member : w ∈ rest :=
    (mem_cons.mp ((ordered.mem_iff w).mpr (before.step edge))).resolve_left apart
  rw [Masks.Holds, ← settled w member, testBit_meetMask] at held
  refine held.symm.imp_right fun both => both.2 u (mem_filter.mpr ⟨?_, decide_eq_true edge⟩)
  exact (ordered.mem_iff u).mpr before

/-- Both loops of `_dominators` end, and what they come to is `masks`. -/
def FunctionCfg.DominatorsEnd (cfg : FunctionCfg) (masks : Masks) : Prop :=
  ∃ order, Walks cfg.successors [(entryIndex, false)] [] [] order ∧
    Settles (fun dom => dominatorPass (cfg.predecessorsIn order) (maskOf order) order.tail dom false)
      (startMasks order) masks

theorem computeDominators_settled (cfg : FunctionCfg) :
    cfg.DominatorsEnd (computeDominators cfg) ∧ ∃ rest, Ordered cfg rest ∧
      Descending cfg rest (computeDominators cfg) ∧
      ∀ b, Reached cfg.Edge entryIndex b → ∀ a,
        (computeDominators cfg).Holds b a ↔ Dominates cfg.Edge entryIndex a b := by
  obtain ⟨rest, same, once, mem_iff⟩ := reversePostorder_spec cfg
  have ordered : Ordered cfg rest := ⟨once, mem_iff⟩
  have few := bits_le (entryIndex :: rest) (startMasks (entryIndex :: rest))
  obtain ⟨settles, descending, settled⟩ := dominatorLoop_spec ordered _ _ (descending_start ordered)
    (Nat.lt_succ_of_le few)
  have result : computeDominators cfg = dominatorLoop (cfg.predecessorsIn (entryIndex :: rest))
      (maskOf (entryIndex :: rest)) rest
      ((entryIndex :: rest).length * (entryIndex :: rest).length + 1)
      (startMasks (entryIndex :: rest)) := by
    rw [computeDominators, same]
    rfl
  rw [result]
  exact ⟨⟨entryIndex :: rest, same ▸ reversePostorder_walks cfg, settles⟩, rest, ordered, descending,
    fun b reached a => descending.holds_iff ordered settled reached a⟩

/-- `_dominators` ends, its domain is what the entry reaches, and a bit is set exactly for a node that
every path passes through. -/
theorem computeDominators_spec (cfg : FunctionCfg) :
    cfg.DominatorsEnd (computeDominators cfg) ∧ (Dicts.keys (computeDominators cfg)).Nodup ∧
      (∀ b, b ∈ Dicts.keys (computeDominators cfg) ↔ Reached cfg.Edge entryIndex b) ∧
      ∀ b, Reached cfg.Edge entryIndex b → ∀ a,
        ((computeDominators cfg).get b).testBit a = true ↔ Dominates cfg.Edge entryIndex a b := by
  obtain ⟨ends, rest, ordered, descending, holds_iff⟩ := computeDominators_settled cfg
  refine ⟨ends, ?_, fun b => ?_, holds_iff⟩
  · rw [descending.keys]
    exact ordered.once
  · rw [descending.keys, ordered.mem_iff]

theorem FunctionCfg.dominatesNode_iff (built : cfg.dominators = computeDominators cfg) (a b : Nat) :
    cfg.dominatesNode a b = true ↔
      Reached cfg.Edge entryIndex b ∧ Dominates cfg.Edge entryIndex a b := by
  obtain ⟨-, rest, ordered, descending, holds_iff⟩ := computeDominators_settled cfg
  rw [FunctionCfg.dominatesNode, built, ← ordered.mem_iff, ← descending.keys]
  cases found : (computeDominators cfg).lookup b with
  | none =>
    have absent := Dicts.lookup_eq_none_iff.mp found
    exact ⟨nofun, fun both => absurd both.1 absent⟩
  | some mask =>
    have known : b ∈ Dicts.keys (computeDominators cfg) := Dicts.mem_keys_iff.mpr ⟨mask, found⟩
    have reached := (ordered.mem_iff b).mp (descending.keys ▸ known)
    rw [and_iff_right known, ← holds_iff b reached, Masks.Holds, Masks.get, found]
    rfl

end OpenUltraSast.Cfg
