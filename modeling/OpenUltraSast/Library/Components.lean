import OpenUltraSast.Library.Collections

/-!
# Callee-first components of a directed graph

Tarjan's algorithm with an explicit work stack, as an iterative program computes it: visit indices,
lowlinks, the component stack, and one frame for each open node holding the children not yet looked
at.
-/

namespace Components

open Collections List

variable {α : Type} [DecidableEq α]

structure Search (α : Type) where
  visitIndex : α → Option Nat
  lowlink : α → Nat
  stack : List α
  components : List (List α)
  counter : Nat

def Search.start : Search α := ⟨fun _ => none, fun _ => 0, [], [], 0⟩

def Search.idx (s : Search α) (a : α) : Nat := (s.visitIndex a).getD 0

/-- An open node with its children left. -/
abbrev Frame (α : Type) := α × List α

/-- Give a node its index the first time its frame is on top. -/
def enter (node : α) (s : Search α) : Search α :=
  match s.visitIndex node with
  | some _ => s
  | none =>
    { s with
      visitIndex := Function.update s.visitIndex node (some s.counter)
      lowlink := Function.update s.lowlink node s.counter
      stack := node :: s.stack
      counter := s.counter + 1 }

def Search.lower (s : Search α) (node : α) (value : Nat) : Search α :=
  { s with lowlink := Function.update s.lowlink node (min (s.lowlink node) value) }

/-- Look at the children in turn; stop at the first unvisited one. -/
def scan (known : List α) (node : α) :
    List α → Search α → Option (α × List α) × Search α
  | [], s => (none, s)
  | child :: rest, s =>
    if child ∉ known then scan known node rest s
    else
      match s.visitIndex child with
      | none => (some (child, rest), s)
      | some index =>
        if child ∈ s.stack then scan known node rest (s.lower node index)
        else scan known node rest s

def popUntil (node : α) : List α → List α × List α
  | [] => ([], [])
  | top :: stack =>
    if top = node then ([top], stack)
    else (top :: (popUntil node stack).1, (popUntil node stack).2)

def emit (sort : List α → List α) (node : α) (s : Search α) : Search α :=
  if s.visitIndex node ≠ some (s.lowlink node) then s
  else
    let (members, stack) := popUntil node s.stack
    { s with stack := stack, components := s.components ++ [sort members] }

def passUp (node : α) (work : List (Frame α)) (s : Search α) : Search α :=
  match work with
  | [] => s
  | (parent, _) :: _ => s.lower parent (s.lowlink node)

/-- The loop over the work stack. Every known node is opened and closed once. -/
def visitLoop (edges : α → List α) (known : List α) (sort : List α → List α) :
    Nat → List (Frame α) → Search α → Search α
  | 0, _, s => s
  | _ + 1, [], s => s
  | fuel + 1, (node, children) :: work, s =>
    match scan known node children (enter node s) with
    | (some (child, rest), s) =>
      visitLoop edges known sort fuel ((child, edges child) :: (node, rest) :: work) s
    | (none, s) => visitLoop edges known sort fuel work (passUp node work (emit sort node s))

def visitRoots (edges : α → List α) (known : List α) (sort : List α → List α) :
    List α → Search α → Search α
  | [], s => s
  | root :: roots, s =>
    if (s.visitIndex root).isSome then visitRoots edges known sort roots s
    else visitRoots edges known sort roots
      (visitLoop edges known sort (2 * known.length + 1) [(root, edges root)] s)

def components (edges : α → List α) (sort : List α → List α) (known : List α) :
    List (List α) :=
  (visitRoots edges known sort (sort known) .start).components

example : components (fun n => if n = 0 then [1] else if n = 1 then [2, 0] else [])
    (·.insertionSort (· ≤ ·)) [0, 1, 2, 3] = [[2], [0, 1], [3]] := by decide

/-! ### Callee-first lists -/

variable (edges : α → List α) (known : List α)

def CalleeFirst (components : List (List α)) : Prop :=
  ∀ before component after, components = before ++ component :: after →
    ∀ node ∈ component, ∀ child ∈ edges node, child ∈ known →
      child ∈ component ∨ ∃ earlier ∈ before, child ∈ earlier

variable {edges known}

omit [DecidableEq α] in
theorem CalleeFirst.nil : CalleeFirst edges known [] := by
  intro before component after h
  simp at h

omit [DecidableEq α] in
theorem CalleeFirst.snoc {components : List (List α)} {last : List α}
    (h : CalleeFirst edges known components)
    (closed : ∀ node ∈ last, ∀ child ∈ edges node, child ∈ known →
      child ∈ last ∨ ∃ earlier ∈ components, child ∈ earlier) :
    CalleeFirst edges known (components ++ [last]) := by
  intro before component after split
  rcases eq_nil_or_concat after with rfl | ⟨rest, final, rfl⟩
  · obtain ⟨rfl, same⟩ := append_inj' split (by simp)
    simp only [List.cons.injEq, and_true] at same
    exact same ▸ closed
  · rw [concat_eq_append, ← cons_append, ← append_assoc] at split
    obtain ⟨same, -⟩ := append_inj' split (by simp)
    exact h before component rest same

/-! ### The steps of the search -/

@[simp] theorem lower_visitIndex (s : Search α) (node : α) (v : Nat) :
    (s.lower node v).visitIndex = s.visitIndex := rfl
@[simp] theorem lower_stack (s : Search α) (node : α) (v : Nat) :
    (s.lower node v).stack = s.stack := rfl
@[simp] theorem lower_components (s : Search α) (node : α) (v : Nat) :
    (s.lower node v).components = s.components := rfl
@[simp] theorem lower_counter (s : Search α) (node : α) (v : Nat) :
    (s.lower node v).counter = s.counter := rfl
@[simp] theorem lower_idx (s : Search α) (node : α) (v : Nat) (a : α) :
    (s.lower node v).idx a = s.idx a := rfl

theorem lower_lowlink_self (s : Search α) (node : α) (v : Nat) :
    (s.lower node v).lowlink node = min (s.lowlink node) v := by
  simp [Search.lower]

theorem lower_lowlink_of_ne (s : Search α) {node a : α} (v : Nat) (h : a ≠ node) :
    (s.lower node v).lowlink a = s.lowlink a := by
  simp [Search.lower, Function.update_of_ne h]

structure Lowered (node : α) (s t : Search α) : Prop where
  visitIndex : t.visitIndex = s.visitIndex
  stack : t.stack = s.stack
  components : t.components = s.components
  counter : t.counter = s.counter
  others : ∀ a, a ≠ node → t.lowlink a = s.lowlink a
  le : t.lowlink node ≤ s.lowlink node

omit [DecidableEq α] in
theorem Lowered.refl (node : α) (s : Search α) : Lowered node s s :=
  ⟨rfl, rfl, rfl, rfl, fun _ _ => rfl, le_refl _⟩

omit [DecidableEq α] in
theorem Lowered.trans {node : α} {s t u : Search α} (h : Lowered node s t)
    (h' : Lowered node t u) : Lowered node s u :=
  ⟨h'.visitIndex.trans h.visitIndex, h'.stack.trans h.stack, h'.components.trans h.components,
    h'.counter.trans h.counter, fun a ne => (h'.others a ne).trans (h.others a ne),
    h'.le.trans h.le⟩

theorem lowered_lower (node : α) (s : Search α) (v : Nat) : Lowered node s (s.lower node v) :=
  ⟨rfl, rfl, rfl, rfl, fun _ ne => lower_lowlink_of_ne s v ne, by
    rw [lower_lowlink_self]; exact Nat.min_le_left _ _⟩

omit [DecidableEq α] in
theorem Lowered.idx {node : α} {s t : Search α} (h : Lowered node s t) (a : α) :
    t.idx a = s.idx a := by
  rw [Search.idx, Search.idx, h.visitIndex]

/-- A scan passes children that were visited, and stops at the first that was not. -/
theorem scan_spec (known : List α) (node : α) (children : List α) (s : Search α) :
    ∃ passed rest, children = passed ++ rest ∧
      Lowered node s (scan known node children s).2 ∧
      (∀ child ∈ passed, child ∈ known → (s.visitIndex child).isSome = true ∧
        (child ∈ s.stack → (scan known node children s).2.lowlink node ≤ s.idx child)) ∧
      (∀ bound, bound ≤ s.lowlink node → (∀ a ∈ s.stack, bound ≤ s.idx a) →
        bound ≤ (scan known node children s).2.lowlink node) ∧
      match (scan known node children s).1 with
      -- the first child that was not visited stops the scan
      | none => rest = []
      | some (child, left) => rest = child :: left ∧ child ∈ known ∧ s.visitIndex child = none := by
  -- by the children that are left to look at
  induction children generalizing s with
  | nil => exact ⟨[], [], rfl, .refl _ _, by simp, fun _ h _ => h, rfl⟩
  | cons child children ih =>
    unfold scan
    split
    -- a child without a summary is passed over
    next unknown =>
      obtain ⟨passed, rest, split, lowered, seen, bounded, stop⟩ := ih s
      refine ⟨child :: passed, rest, by simp [split], lowered, ?_, bounded, stop⟩
      intro c member isKnown
      rcases mem_cons.mp member with rfl | member
      · exact absurd isKnown unknown
      · exact seen c member isKnown
    next isKnown =>
      simp only [not_not] at isKnown
      cases visited : s.visitIndex child with
      | none => exact ⟨[], child :: children, rfl, .refl _ _, by simp, fun _ h _ => h, rfl, isKnown, visited⟩
      | some index =>
        simp only
        split
        -- a child on the stack lowers the lowlink to its index
        next onStack =>
          obtain ⟨passed, rest, split, lowered, seen, bounded, stop⟩ := ih (s.lower node index)
          refine ⟨child :: passed, rest, by simp [split], (lowered_lower _ _ _).trans lowered,
            ?_, ?_, stop⟩
          · intro c member cKnown
            rcases mem_cons.mp member with rfl | member
            · refine ⟨by simp [visited], fun _ => lowered.le.trans ?_⟩
              rw [lower_lowlink_self]
              simp [Search.idx, visited]
            · exact seen c member cKnown
          · intro bound low above
            refine bounded bound ?_ above
            rw [lower_lowlink_self]
            have := above child onStack
            simp only [Search.idx, visited, Option.getD_some] at this
            omega
        -- a child of a finished component changes nothing
        next offStack =>
          obtain ⟨passed, rest, split, lowered, seen, bounded, stop⟩ := ih s
          refine ⟨child :: passed, rest, by simp [split], lowered, ?_, bounded, stop⟩
          intro c member cKnown
          rcases mem_cons.mp member with rfl | member
          · exact ⟨by simp [visited], fun onStack => absurd onStack offStack⟩
          · exact seen c member cKnown

theorem popUntil_append (node : α) (segment stack : List α) (h : node ∉ segment) :
    popUntil node (segment ++ node :: stack) = (segment ++ [node], stack) := by
  induction segment with
  | nil => simp [popUntil]
  | cons a segment ih =>
    simp only [mem_cons, not_or] at h
    simp [popUntil, Ne.symm h.1, ih h.2]

/-! ### The invariant -/

/-- The edges of one node of the stack, under the frame that owns it: a child is still to
be looked at, or it is visited and, while on the stack, bounds the frame's lowlink. -/
def Looked (edges : α → List α) (known : List α) (s : Search α) (frame : Frame α) (node : α) :
    Prop :=
  ∀ child ∈ edges node, child ∈ known →
    (node = frame.1 ∧ child ∈ frame.2) ∨
      ((s.visitIndex child).isSome = true ∧
        (child ∈ s.stack → s.lowlink frame.1 ≤ s.idx child))

/-- The open frames cut the stack into segments, each from the node above the next
frame's node down to its own. -/
inductive Owned (edges : α → List α) (known : List α) (s : Search α) :
    List (Frame α) → List α → Prop
  | nil : Owned edges known s [] []
  | cons {frame : Frame α} {work : List (Frame α)} {segment stack : List α} :
      (∀ node ∈ segment ++ [frame.1], Looked edges known s frame node) →
      Owned edges known s work stack →
      Owned edges known s (frame :: work) (segment ++ frame.1 :: stack)

/-- What holds whenever the frame on top has been entered. -/
structure Inv (edges : α → List α) (known : List α) (base : Nat) (work : List (Frame α))
    (s : Search α) : Prop where
  descending : s.stack.Pairwise fun a b => s.idx b < s.idx a
  below : ∀ a, (s.visitIndex a).isSome = true → s.idx a < s.counter
  visited : ∀ a, (s.visitIndex a).isSome = true ↔
    a ∈ s.stack ∨ ∃ component ∈ s.components, a ∈ component
  above : ∀ a ∈ s.stack, base ≤ s.idx a
  low : ∀ frame ∈ work, base ≤ s.lowlink frame.1 ∧ s.lowlink frame.1 ≤ s.idx frame.1
  owned : Owned edges known s work s.stack
  closed : CalleeFirst edges known s.components
  rooted : ∀ frame, work.getLast? = some frame → s.idx frame.1 = base
  opened : ∀ frame ∈ work, frame.2 ⊆ edges frame.1
  inside : ∀ a, (s.visitIndex a).isSome = true → a ∈ known

omit [DecidableEq α] in
theorem Owned.mem {edges : α → List α} {known : List α} {s : Search α} {work : List (Frame α)}
    {stack : List α} (h : Owned edges known s work stack) :
    ∀ frame ∈ work, frame.1 ∈ stack := by
  induction h with
  | nil => simp
  | cons _ _ ih =>
    intro frame member
    rcases mem_cons.mp member with rfl | member
    · simp
    · exact mem_append_right _ (mem_cons_of_mem _ (ih frame member))

omit [DecidableEq α] in
/-- The segments survive a change of the tables that looks no different to their frames. -/
theorem Owned.mono {edges : α → List α} {known : List α} {s t : Search α}
    {work : List (Frame α)} {stack : List α} (h : Owned edges known s work stack)
    (looked : ∀ frame ∈ work, ∀ node ∈ stack, Looked edges known s frame node →
      Looked edges known t frame node) :
    Owned edges known t work stack := by
  induction h with
  | nil => exact .nil
  | cons own _ ih =>
    refine .cons (fun node member => looked _ mem_cons_self node ?_ (own node member))
      (ih fun frame frameMem node member => looked frame (mem_cons_of_mem _ frameMem) node
        (mem_append_right _ (mem_cons_of_mem _ member)))
    rcases mem_append.mp member with member | member
    · exact mem_append_left _ member
    · simp only [mem_singleton] at member
      simp [member]

omit [DecidableEq α] in
theorem Lowered.lowlink_le {node : α} {s t : Search α} (h : Lowered node s t) (a : α) :
    t.lowlink a ≤ s.lowlink a := by
  by_cases same : a = node
  · exact same ▸ h.le
  · exact (h.others a same).le

omit [DecidableEq α] in
theorem Looked.lowered {node : α} {s t : Search α} (h : Lowered node s t) {frame : Frame α}
    {w : α} (looked : Looked edges known s frame w) : Looked edges known t frame w := by
  intro child edge isKnown
  rcases looked child edge isKnown with left | ⟨visited, bound⟩
  · exact .inl left
  · right
    rw [h.visitIndex, h.stack, h.idx]
    exact ⟨visited, fun member => (h.lowlink_le _).trans (bound member)⟩

variable {base : Nat} {work : List (Frame α)} {s : Search α} {node : α}

omit [DecidableEq α] in
theorem Inv.lowered {t : Search α} (inv : Inv edges known base work s) (h : Lowered node s t)
    (bound : base ≤ t.lowlink node) : Inv edges known base work t where
  descending := by
    rw [h.stack]
    exact inv.descending.imp fun lt => by rwa [h.idx, h.idx]
  below a visited := by
    rw [h.visitIndex] at visited
    rw [h.idx, h.counter]
    exact inv.below a visited
  visited a := by rw [h.visitIndex, h.stack, h.components]; exact inv.visited a
  above a member := by
    rw [h.stack] at member
    rw [h.idx]
    exact inv.above a member
  low frame member := by
    rw [h.idx]
    refine ⟨?_, (h.lowlink_le _).trans (inv.low frame member).2⟩
    by_cases same : frame.1 = node
    · rw [same]; exact bound
    · rw [h.others _ same]; exact (inv.low frame member).1
  owned := by
    rw [h.stack]
    exact inv.owned.mono fun _ _ _ _ looked => looked.lowered h
  closed := by rw [h.components]; exact inv.closed
  rooted frame last := by rw [h.idx]; exact inv.rooted frame last
  opened := inv.opened
  inside a visited := by rw [h.visitIndex] at visited; exact inv.inside a visited

omit [DecidableEq α] in
theorem Inv.looked {passed rest : List α}
    (inv : Inv edges known base ((node, passed ++ rest) :: work) s)
    (seen : ∀ child ∈ passed, child ∈ known → (s.visitIndex child).isSome = true ∧
      (child ∈ s.stack → s.lowlink node ≤ s.idx child)) :
    Inv edges known base ((node, rest) :: work) s := by
  have owned : Owned edges known s ((node, rest) :: work) s.stack := by
    have before := inv.owned
    generalize s.stack = stack at before
    cases before with
    | cons own tail =>
      refine .cons (fun w member child edge isKnown => ?_) tail
      -- an edge to a child that was passed is now one that was looked at
      rcases own w member child edge isKnown with ⟨same, left⟩ | right
      · rcases mem_append.mp left with done | left
        · exact .inr (seen child done isKnown)
        · exact .inl ⟨same, left⟩
      · exact .inr right
  have frames : ∀ frame ∈ (node, rest) :: work, ∃ frame' ∈ (node, passed ++ rest) :: work,
      frame'.1 = frame.1 := by
    intro frame member
    rcases mem_cons.mp member with rfl | member
    · exact ⟨_, mem_cons_self, rfl⟩
    · exact ⟨frame, mem_cons_of_mem _ member, rfl⟩
  refine { inv with owned := owned, low := ?_, rooted := ?_, opened := ?_ }
  · intro frame member
    obtain ⟨frame', member', same⟩ := frames frame member
    exact same ▸ inv.low frame' member'
  · intro frame last
    cases work with
    | nil =>
      simp only [List.getLast?_singleton, Option.some.injEq] at last
      subst last
      exact inv.rooted (node, passed ++ rest) (by simp)
    | cons frame' work => exact inv.rooted frame (by simpa using last)
  · intro frame member
    rcases mem_cons.mp member with rfl | member
    · exact fun _ left => inv.opened _ mem_cons_self (mem_append_right _ left)
    · exact inv.opened frame (mem_cons_of_mem _ member)

variable {children : List α}

/-- Scanning the children keeps the invariant. -/
theorem Inv.scan (inv : Inv edges known base ((node, children) :: work) s) :
    match Components.scan known node children s with
    | (none, t) => Inv edges known base ((node, []) :: work) t
    | (some (child, rest), t) => Inv edges known base ((node, child :: rest) :: work) t ∧
        child ∈ known ∧ t.visitIndex child = none := by
  obtain ⟨passed, rest, split, lowered, seen, bounded, stop⟩ := scan_spec known node children s
  generalize Components.scan known node children s = result at lowered seen bounded stop
  obtain ⟨next, t⟩ := result
  have after : Inv edges known base ((node, rest) :: work) t := by
    have low := inv.low _ mem_cons_self
    refine ((split ▸ inv).lowered lowered (bounded base low.1 inv.above)).looked ?_
    intro child member isKnown
    rw [lowered.visitIndex, lowered.stack, lowered.idx]
    exact seen child member isKnown
  cases next with
  | none => exact stop ▸ after
  | some found =>
    obtain ⟨rfl, isKnown, unvisited⟩ := stop
    exact ⟨after, isKnown, by rw [lowered.visitIndex]; exact unvisited⟩

/-! Entering a node -/

theorem enter_idx_of_ne {a child : α} (s : Search α) (h : a ≠ child) :
    (enter child s).idx a = s.idx a := by
  unfold enter
  cases s.visitIndex child with
  | some _ => rfl
  | none => simp [Search.idx, Function.update_of_ne h]

theorem enter_lowlink_of_ne {a child : α} (s : Search α) (h : a ≠ child) :
    (enter child s).lowlink a = s.lowlink a := by
  unfold enter
  cases s.visitIndex child with
  | some _ => rfl
  | none => simp [Function.update_of_ne h]

theorem enter_visited (child a : α) (s : Search α) :
    ((enter child s).visitIndex a).isSome = true ↔
      (s.visitIndex a).isSome = true ∨ a = child := by
  unfold enter
  cases visited : s.visitIndex child with
  | some index =>
    simp only
    constructor
    · exact .inl
    · rintro (h | rfl)
      · exact h
      · simp [visited]
  | none =>
    by_cases same : a = child
    · simp [same]
    · simp [same]

variable {child : α}

theorem Inv.enter_fields (unvisited : s.visitIndex child = none) :
    (enter child s).stack = child :: s.stack ∧ (enter child s).idx child = s.counter ∧
      (enter child s).lowlink child = s.counter ∧ (enter child s).counter = s.counter + 1 ∧
      (enter child s).components = s.components := by
  simp [enter, unvisited, Search.idx]

/-- So does entering an unvisited child. -/
theorem Inv.enter {rest : List α}
    (inv : Inv edges known base ((node, child :: rest) :: work) s)
    (isKnown : child ∈ known) (unvisited : s.visitIndex child = none) :
    Inv edges known base ((child, edges child) :: (node, rest) :: work) (enter child s) := by
  obtain ⟨stack, idx, lowlink, counter, components⟩ := Inv.enter_fields unvisited
  have visited_ne : ∀ a, (s.visitIndex a).isSome = true → a ≠ child := by
    rintro a visited rfl
    simp [unvisited] at visited
  have stack_visited : ∀ a ∈ s.stack, (s.visitIndex a).isSome = true := fun a member =>
    (inv.visited a).mpr (.inl member)
  have stack_ne : ∀ a ∈ s.stack, a ≠ child := fun a member => visited_ne a (stack_visited a member)
  have frame_ne : ∀ frame ∈ (node, child :: rest) :: work, frame.1 ≠ child := fun frame member =>
    stack_ne _ (inv.owned.mem frame member)
  have onStack : node ∈ s.stack := inv.owned.mem _ mem_cons_self
  have counted : ∀ a ∈ s.stack, s.idx a < s.counter := fun a member =>
    inv.below a (stack_visited a member)
  have frames : ∀ frame ∈ (node, rest) :: work, ∃ frame' ∈ (node, child :: rest) :: work,
      frame'.1 = frame.1 ∧ frame.2 ⊆ frame'.2 := by
    intro frame member
    rcases mem_cons.mp member with rfl | member
    · exact ⟨_, mem_cons_self, rfl, subset_cons_self _ _⟩
    · exact ⟨frame, mem_cons_of_mem _ member, rfl, fun _ h => h⟩
  -- a looked-at edge stays looked at: its child was visited before, so it is not the new node
  have kept : ∀ frame ∈ (node, child :: rest) :: work, ∀ w,
      Looked edges known s frame w → Looked edges known (Components.enter child s) frame w := by
    intro frame member w looked c edge isKnown
    rcases looked c edge isKnown with left | ⟨visited, bound⟩
    · exact .inl left
    · refine .inr ⟨(enter_visited _ _ _).mpr (.inl visited), fun onStack => ?_⟩
      rw [stack] at onStack
      rw [enter_idx_of_ne _ (visited_ne c visited), enter_lowlink_of_ne _ (frame_ne frame member)]
      exact bound ((mem_cons.mp onStack).resolve_left (visited_ne c visited))
  have owned : Owned edges known (Components.enter child s) ((node, rest) :: work) s.stack := by
    have before := inv.owned
    generalize hs : s.stack = stack' at before
    cases before with
    | cons own tail =>
      refine .cons (fun w member c edge isKnown => ?_)
        (tail.mono fun frame frameMem w _ => kept frame (mem_cons_of_mem _ frameMem) w)
      rcases kept _ mem_cons_self w (own w member) c edge isKnown with ⟨same, left⟩ | right
      · rcases mem_cons.mp left with rfl | left
        · refine .inr ⟨(enter_visited _ _ _).mpr (.inr rfl), fun _ => ?_⟩
          rw [idx, enter_lowlink_of_ne _ (frame_ne _ mem_cons_self)]
          have := inv.low _ mem_cons_self
          have := counted node onStack
          simp only at *
          omega
        · exact .inl ⟨same, left⟩
      · exact .inr right
  constructor
  · rw [stack, pairwise_cons]
    refine ⟨fun a member => ?_, ?_⟩
    · rw [idx, enter_idx_of_ne _ (stack_ne a member)]
      exact counted a member
    · refine inv.descending.imp_of_mem fun {a b} ha hb lt => ?_
      rwa [enter_idx_of_ne _ (stack_ne a ha), enter_idx_of_ne _ (stack_ne b hb)]
  · intro a visited
    rw [counter]
    by_cases same : a = child
    · rw [same, idx]; omega
    · rw [enter_idx_of_ne _ same]
      have := inv.below a (((enter_visited _ _ _).mp visited).resolve_right same)
      omega
  · intro a
    rw [enter_visited, stack, components, inv.visited, mem_cons, or_comm, or_assoc]
  · intro a member
    rw [stack] at member
    rcases mem_cons.mp member with rfl | member
    · rw [idx]
      exact (inv.above node onStack).trans (counted node onStack).le
    · rw [enter_idx_of_ne _ (stack_ne a member)]
      exact inv.above a member
  · intro frame member
    rcases mem_cons.mp member with rfl | member
    · simp only [idx, lowlink, le_refl, and_true]
      exact (inv.above node onStack).trans (counted node onStack).le
    · obtain ⟨frame', member', same, -⟩ := frames frame member
      have ne := frame_ne frame' member'
      rw [← same, enter_lowlink_of_ne _ ne, enter_idx_of_ne _ ne]
      exact inv.low frame' member'
  · rw [stack]
    refine (Owned.cons (fun w member c edge _ => ?_) owned :
      Owned edges known _ ((child, edges child) :: (node, rest) :: work) ([] ++ child :: s.stack))
    simp only [nil_append, mem_singleton] at member
    exact .inl ⟨member, member ▸ edge⟩
  · rw [components]
    exact inv.closed
  · intro frame last
    rw [List.getLast?_cons_cons] at last
    have member : frame ∈ (node, rest) :: work := mem_of_getLast? last
    obtain ⟨frame', member', same, -⟩ := frames frame member
    rw [enter_idx_of_ne _ (same ▸ frame_ne frame' member')]
    cases work with
    | nil =>
      simp only [List.getLast?_singleton, Option.some.injEq] at last
      subst last
      exact inv.rooted (node, child :: rest) (by simp)
    | cons frame'' work => exact inv.rooted frame (by simpa using last)
  · intro frame member
    rcases mem_cons.mp member with rfl | member
    · exact fun _ h => h
    · obtain ⟨frame', member', same, subset⟩ := frames frame member
      exact fun c left => same ▸ inv.opened frame' member' (subset left)
  · intro a visited
    rcases (enter_visited _ _ _).mp visited with visited | rfl
    · exact inv.inside a visited
    · exact isKnown

/-! Closing a node -/

variable {sort : List α → List α}

theorem emit_root (root : s.visitIndex node = some (s.lowlink node)) {segment stack : List α}
    (split : s.stack = segment ++ node :: stack) (fresh : node ∉ segment) :
    emit sort node s = { s with stack, components := s.components ++ [sort (segment ++ [node])] } := by
  unfold emit
  rw [if_neg (by simpa using root), split, popUntil_append node segment stack fresh]

omit [DecidableEq α] in
theorem Inv.top (inv : Inv edges known base ((node, children) :: work) s) :
    ∃ segment stack, s.stack = segment ++ node :: stack ∧
      (∀ w ∈ segment ++ [node], Looked edges known s (node, children) w) ∧
      Owned edges known s work stack ∧ (∀ w ∈ segment, s.idx node < s.idx w) ∧
      (∀ w ∈ stack, s.idx w < s.idx node) ∧ stack.Pairwise fun a b => s.idx b < s.idx a := by
  obtain ⟨segment, stack, split, own, tail⟩ : ∃ segment stack, s.stack = segment ++ node :: stack ∧
      (∀ w ∈ segment ++ [node], Looked edges known s (node, children) w) ∧
      Owned edges known s work stack := by
    have owned := inv.owned
    generalize s.stack = whole at owned
    cases owned with
    | cons own tail => exact ⟨_, _, rfl, own, tail⟩
  have descending := inv.descending
  rw [split, pairwise_append, pairwise_cons] at descending
  obtain ⟨-, ⟨lower, rest⟩, across⟩ := descending
  exact ⟨segment, stack, split, own, tail,
    fun w member => across w member node mem_cons_self, lower, rest⟩

/-- A closed frame that is the root of its component leaves with its segment. -/
theorem Inv.emit (inv : Inv edges known base ((node, []) :: work) s)
    (perm : ∀ l a, a ∈ sort l ↔ a ∈ l) (root : s.lowlink node = s.idx node) :
    Inv edges known base work (emit sort node s) := by
  obtain ⟨segment, stack, split, own, tail, higher, lower, rest⟩ := inv.top
  have fresh : node ∉ segment := fun member => absurd (higher node member) (lt_irrefl _)
  have onStack : node ∈ s.stack := by simp [split]
  have index : s.visitIndex node = some (s.lowlink node) := by
    obtain ⟨index, found⟩ := Option.isSome_iff_exists.mp ((inv.visited node).mpr (.inl onStack))
    simp [root, Search.idx, found]
  have keep : ∀ a ∈ stack, a ∈ s.stack := fun a member => by simp [split, member]
  rw [emit_root index split fresh]
  refine ⟨rest, inv.below, fun a => ?_, fun a member => inv.above a (keep a member),
    fun frame member => inv.low frame (mem_cons_of_mem _ member),
    tail.mono fun frame _ w _ looked child edge isKnown => ?_, inv.closed.snoc ?_,
    fun frame last => ?_, fun frame member => inv.opened frame (mem_cons_of_mem _ member),
    inv.inside⟩
  · rw [inv.visited, split]
    simp only [mem_append, mem_cons, or_and_right, exists_or, exists_eq_left, perm,
      not_mem_nil, or_false]
    grind
  · exact (looked child edge isKnown).imp_right fun ⟨visited, bound⟩ =>
      ⟨visited, fun member => bound (keep child member)⟩
  · intro w member child edge isKnown
    rw [perm] at member ⊢
    rcases own w member child edge isKnown with ⟨-, left⟩ | ⟨visited, bound⟩
    · simp at left
    rcases (inv.visited child).mp visited with childOn | emitted
    · -- the child is on the stack, so not below the root
      left
      have high := bound childOn
      simp only [root] at high
      rw [split] at childOn
      simp only [mem_append, mem_cons, not_mem_nil, or_false] at childOn ⊢
      rcases childOn with member | same | below
      · exact .inl member
      · exact .inr same
      · exact absurd (lower child below) (by omega)
    · exact .inr emitted
  · cases work with
    | nil => simp at last
    | cons frame' work => exact inv.rooted frame (by simpa using last)

theorem Inv.pass {parent : Frame α} (inv : Inv edges known base ((node, []) :: parent :: work) s) :
    Inv edges known base (parent :: work) (s.lower parent.1 (s.lowlink node)) := by
  have bound : base ≤ min (s.lowlink parent.1) (s.lowlink node) :=
    Nat.le_min.mpr ⟨(inv.low parent (by simp)).1, (inv.low _ mem_cons_self).1⟩
  have lowered := inv.lowered (lowered_lower parent.1 s (s.lowlink node))
    (by rw [lower_lowlink_self]; exact bound)
  have passed : (s.lower parent.1 (s.lowlink node)).lowlink parent.1 ≤ s.lowlink node := by
    rw [lower_lowlink_self]
    exact Nat.min_le_right _ _
  refine { lowered with
    low := fun frame member => lowered.low frame (mem_cons_of_mem _ member)
    owned := ?_
    rooted := fun frame last => lowered.rooted frame (by simpa using last)
    opened := fun frame member => lowered.opened frame (mem_cons_of_mem _ member) }
  -- the segment of the closed frame joins that of its parent on the stack
  have before := inv.owned
  have after := lowered.owned
  rw [lower_stack] at after ⊢
  generalize hs : s.stack = stack at before after ⊢
  cases before with
  | @cons _ _ segment rest own tail =>
    have tail' : Owned edges known (s.lower parent.1 (s.lowlink node)) (parent :: work) rest :=
      tail.mono fun _ _ _ _ looked => looked.lowered (lowered_lower _ _ _)
    cases tail' with
    | @cons _ _ segment' rest' own' tail' =>
      rw [show segment ++ node :: (segment' ++ parent.1 :: rest') =
        (segment ++ node :: segment') ++ parent.1 :: rest' by simp]
      refine .cons (fun w member => ?_) tail'
      simp only [append_assoc, cons_append, mem_append, mem_cons] at member
      -- a node of the closed segment has no edges left; its low bound passes to the parent
      by_cases mine : w ∈ segment ++ [node]
      · intro child edge isKnown
        rcases own w mine child edge isKnown with ⟨-, left⟩ | ⟨visited, low⟩
        · simp at left
        · exact .inr ⟨visited, fun onStack => passed.trans (low onStack)⟩
      · refine own' w ?_
        simp only [mem_append, mem_singleton, not_or] at mine
        simp only [mem_append, mem_singleton]
        tauto

/-- So does closing a node, with the component it may emit. -/
theorem Inv.close (inv : Inv edges known base ((node, []) :: work) s)
    (perm : ∀ l a, a ∈ sort l ↔ a ∈ l) :
    Inv edges known base work (passUp node work (Components.emit sort node s)) := by
  have low := inv.low _ mem_cons_self
  simp only at low
  by_cases root : s.lowlink node = s.idx node
  · have emitted := inv.emit perm root
    have same : (Components.emit sort node s).lowlink = s.lowlink := by
      unfold Components.emit
      split <;> rfl
    cases work with
    | nil => exact emitted
    | cons parent work =>
      refine emitted.lowered (lowered_lower parent.1 _ _) ?_
      simp only [passUp]
      rw [lower_lowlink_self, same]
      have := (emitted.low parent mem_cons_self).1
      rw [same] at this
      omega
  · have onStack : node ∈ s.stack := inv.owned.mem _ mem_cons_self
    have kept : Components.emit sort node s = s := by
      unfold Components.emit
      rw [if_pos]
      intro index
      exact root (by simp [Search.idx, index])
    rw [kept]
    cases work with
    | nil =>
      have := inv.rooted (node, []) (by simp)
      simp only at this
      omega
    | cons parent work => exact inv.pass

/-! ### The runs -/

def enterTop : List (Frame α) → Search α → Search α
  | [], s => s
  | (node, _) :: _, s => enter node s

def unvisited (known : List α) (s : Search α) : Nat :=
  known.countP fun a => (s.visitIndex a).isNone

theorem unvisited_enter (isKnown : child ∈ known) (new : s.visitIndex child = none) :
    unvisited known (enter child s) < unvisited known s := by
  refine countP_lt_of_flip (fun a left => ?_) isKnown (by simp [new]) ?_
  · rw [Option.isNone_iff_eq_none, ← Option.not_isSome_iff_eq_none] at left ⊢
    exact fun visited => left ((enter_visited _ _ _).mpr (.inl visited))
  · rw [← Option.not_isSome, Bool.not_eq_false']
    exact (enter_visited _ _ _).mpr (.inr rfl)

theorem enter_of_visited (h : (s.visitIndex node).isSome = true) : enter node s = s := by
  obtain ⟨index, found⟩ := Option.isSome_iff_exists.mp h
  simp [enter, found]

theorem Inv.enterTop_eq (inv : Inv edges known base work s) : enterTop work s = s := by
  cases work with
  | nil => rfl
  | cons frame work =>
    exact enter_of_visited ((inv.visited _).mpr (.inl (inv.owned.mem frame mem_cons_self)))

theorem scan_visitIndex (known : List α) (node : α) (children : List α) (s : Search α) :
    (scan known node children s).2.visitIndex = s.visitIndex := by
  obtain ⟨_, _, _, lowered, -⟩ := scan_spec known node children s
  exact lowered.visitIndex

theorem close_visitIndex (sort : List α → List α) (node : α) (work : List (Frame α))
    (s : Search α) : (passUp node work (emit sort node s)).visitIndex = s.visitIndex := by
  have emitted : (emit sort node s).visitIndex = s.visitIndex := by
    unfold emit
    split <;> rfl
  cases work with
  | nil => exact emitted
  | cons parent work => exact emitted

/-- What the steps of the search keep of its open nodes, latest first, and its tables. -/
structure Kept (edges : α → List α) (known : List α) (sort : List α → List α)
    (Q : List α → Search α → Prop) : Prop where
  scan : ∀ {base node children work s}, Inv edges known base ((node, children) :: work) s →
    Q (node :: work.map Prod.fst) s →
    Q (node :: work.map Prod.fst) (Components.scan known node children s).2
  enter : ∀ {base node child rest work s}, Inv edges known base ((node, child :: rest) :: work) s →
    child ∈ known → s.visitIndex child = none → Q (node :: work.map Prod.fst) s →
    Q (child :: node :: work.map Prod.fst) (Components.enter child s)
  close : ∀ {base node work s}, Inv edges known base ((node, []) :: work) s →
    Q (node :: work.map Prod.fst) s →
    Q (work.map Prod.fst) (passUp node work (Components.emit sort node s))
  root : ∀ {base root s}, Inv edges known base [] s → root ∈ known → s.visitIndex root = none →
    Q [] s → Q [root] (Components.enter root s)

variable {Q : List α → Search α → Prop}

/-- With enough fuel the loop comes to an empty work list, and keeps what its steps keep. -/
theorem visitLoop_spec (perm : ∀ l a, a ∈ sort l ↔ a ∈ l) (kept : Kept edges known sort Q)
    (fuel : Nat) (work : List (Frame α)) (s : Search α)
    (inv : Inv edges known base work (enterTop work s))
    (held : Q (work.map Prod.fst) (enterTop work s))
    (enough : 2 * unvisited known (enterTop work s) + work.length ≤ fuel) :
    Inv edges known base [] (visitLoop edges known sort fuel work s) ∧
      Q [] (visitLoop edges known sort fuel work s) ∧
      ∀ a, ((enterTop work s).visitIndex a).isSome = true →
        ((visitLoop edges known sort fuel work s).visitIndex a).isSome = true := by
  induction fuel generalizing work s with
  | zero =>
    cases work with
    | nil => exact ⟨inv, held, fun _ h => h⟩
    | cons frame work => simp at enough
  | succ fuel ih =>
    cases work with
    | nil => exact ⟨inv, held, fun _ h => h⟩
    | cons frame work =>
      obtain ⟨node, children⟩ := frame
      have scanned := inv.scan
      have still := kept.scan inv held
      have same := scan_visitIndex known node children (enter node s)
      simp only [enterTop] at scanned still enough ⊢
      unfold visitLoop
      generalize scan known node children (enter node s) = result at scanned still same ⊢
      obtain ⟨next, t⟩ := result
      simp only at same still
      have count : unvisited known t = unvisited known (enter node s) := by
        rw [unvisited, same, unvisited]
      simp only [length_cons] at enough
      cases next with
      | none =>
        -- every child is looked at: the frame is closed
        have closed := scanned.close perm
        have index := close_visitIndex sort node work t
        have entered := closed.enterTop_eq
        have step := ih work (passUp node work (emit sort node t)) (by rwa [entered])
          (by rw [entered]; exact kept.close scanned still)
          (by
            rw [entered, unvisited, index, ← unvisited, count]
            omega)
        refine ⟨step.1, step.2.1, fun a visited => step.2.2 a ?_⟩
        rwa [entered, index, same]
      | some found =>
        -- the first unvisited child gets a frame of its own
        obtain ⟨child, rest⟩ := found
        obtain ⟨here, isKnown, new⟩ := scanned
        have fewer := unvisited_enter isKnown new
        have step := ih ((child, edges child) :: (node, rest) :: work) t
          (here.enter isKnown new) (kept.enter here isKnown new still)
          (by
            simp only [enterTop, length_cons]
            omega)
        refine ⟨step.1, step.2.1, fun a visited => step.2.2 a ?_⟩
        simp only [enterTop]
        rw [enter_visited, same]
        exact .inl visited

omit [DecidableEq α] in
theorem Inv.stack_nil (inv : Inv edges known base [] s) : s.stack = [] := by
  have owned := inv.owned
  generalize s.stack = stack at owned ⊢
  cases owned
  rfl

theorem Inv.root {root : α} (inv : Inv edges known base [] s) (isKnown : root ∈ known)
    (new : s.visitIndex root = none) :
    Inv edges known s.counter [(root, edges root)] (Components.enter root s) := by
  obtain ⟨stack, idx, lowlink, counter, components⟩ := Inv.enter_fields new
  rw [inv.stack_nil] at stack
  -- the stack was empty, so the root is all that is on it
  have only : ∀ a ∈ (Components.enter root s).stack, a = root := by
    intro a member
    simpa [stack] using member
  constructor
  · simp [stack]
  · intro a visited
    rw [counter]
    by_cases same : a = root
    · rw [same, idx]; omega
    · rw [enter_idx_of_ne _ same]
      have := inv.below a (((enter_visited _ _ _).mp visited).resolve_right same)
      omega
  · intro a
    rw [enter_visited, inv.visited, inv.stack_nil, stack, components]
    simp [or_comm]
  · intro a member
    rw [only a member, idx]
  · intro frame member
    simp only [mem_singleton] at member
    simp [member, idx, lowlink]
  · rw [stack]
    refine (Owned.cons (fun w member c edge _ => ?_) .nil :
      Owned edges known _ [(root, edges root)] ([] ++ root :: []))
    simp only [nil_append, mem_singleton] at member
    exact .inl ⟨member, member ▸ edge⟩
  · rw [components]
    exact inv.closed
  · intro frame last
    simp only [List.getLast?_singleton, Option.some.injEq] at last
    rw [← last]
    exact idx
  · intro frame member
    simp only [mem_singleton] at member
    simp [member]
  · intro a visited
    rcases (enter_visited _ _ _).mp visited with visited | rfl
    · exact inv.inside a visited
    · exact isKnown

omit [DecidableEq α] in
theorem unvisited_le (known : List α) (s : Search α) : unvisited known s ≤ known.length :=
  countP_le_length

theorem visitRoots_spec (perm : ∀ l a, a ∈ sort l ↔ a ∈ l) (kept : Kept edges known sort Q)
    (roots : List α) (s : Search α) (inside : roots ⊆ known)
    (inv : ∃ base, Inv edges known base [] s) (held : Q [] s) :
    (∃ base, Inv edges known base [] (visitRoots edges known sort roots s)) ∧
      Q [] (visitRoots edges known sort roots s) ∧
      (∀ a, (s.visitIndex a).isSome = true →
        ((visitRoots edges known sort roots s).visitIndex a).isSome = true) ∧
      ∀ root ∈ roots, ((visitRoots edges known sort roots s).visitIndex root).isSome = true := by
  induction roots generalizing s with
  | nil => exact ⟨inv, held, fun _ h => h, by simp⟩
  | cons root roots ih =>
    have rest : roots ⊆ known := fun a member => inside (mem_cons_of_mem _ member)
    unfold visitRoots
    split
    next visited =>
      obtain ⟨closed, still, stays, all⟩ := ih s rest inv held
      refine ⟨closed, still, stays, fun a member => ?_⟩
      rcases mem_cons.mp member with rfl | member
      · exact stays a visited
      · exact all a member
    next new =>
      obtain ⟨base, inv⟩ := inv
      simp only [Option.not_isSome_iff_eq_none] at new
      have opened := inv.root (inside mem_cons_self) new
      have run := visitLoop_spec perm kept (2 * known.length + 1) [(root, edges root)] s opened
        (kept.root inv (inside mem_cons_self) new held) (by
          have := unvisited_le known (Components.enterTop [(root, edges root)] s)
          simp only [length_singleton]
          omega)
      obtain ⟨closed, still, stays, all⟩ := ih _ rest ⟨_, run.1⟩ run.2.1
      have entered : ∀ a, (s.visitIndex a).isSome = true ∨ a = root →
          ((visitLoop edges known sort (2 * known.length + 1) [(root, edges root)] s).visitIndex
            a).isSome = true := fun a h => run.2.2 a ((enter_visited _ _ _).mpr h)
      refine ⟨closed, still, fun a visited => stays a (entered a (.inl visited)),
        fun a member => ?_⟩
      rcases mem_cons.mp member with rfl | member
      · exact stays a (entered a (.inr rfl))
      · exact all a member

omit [DecidableEq α] in
theorem inv_start : Inv edges known 0 [] Search.start where
  descending := List.Pairwise.nil
  below a visited := by simp [Search.start] at visited
  visited a := by simp [Search.start]
  above a member := by simp [Search.start] at member
  low frame member := by simp at member
  owned := .nil
  closed := .nil
  rooted frame last := by simp at last
  opened frame member := by simp at member
  inside a visited := by simp [Search.start] at visited

variable (edges known) in
theorem components_spec (perm : ∀ l a, a ∈ sort l ↔ a ∈ l) (kept : Kept edges known sort Q)
    (start : Q [] .start) :
    ∃ base s, s.components = components edges sort known ∧ Inv edges known base [] s ∧ Q [] s ∧
      ∀ a ∈ known, (s.visitIndex a).isSome = true := by
  obtain ⟨⟨base, inv⟩, held, -, all⟩ := visitRoots_spec perm kept (sort known) .start
    (fun a member => (perm known a).mp member) ⟨0, inv_start⟩ start
  exact ⟨base, _, rfl, inv, held, fun a member => all a ((perm known a).mpr member)⟩

theorem kept_nothing : Kept edges known sort fun _ _ => True :=
  ⟨fun _ _ => trivial, fun _ _ _ _ => trivial, fun _ _ => trivial, fun _ _ _ _ => trivial⟩

theorem mem_components (edges : α → List α) (perm : ∀ l a, a ∈ sort l ↔ a ∈ l) (known : List α) (a : α) :
    (∃ component ∈ components edges sort known, a ∈ component) ↔ a ∈ known := by
  obtain ⟨base, s, same, inv, -, all⟩ := components_spec edges known perm kept_nothing trivial
  rw [← same]
  constructor
  · intro member
    exact inv.inside a ((inv.visited a).mpr (.inr member))
  · intro member
    have visited := (inv.visited a).mp (all a member)
    rw [inv.stack_nil] at visited
    exact visited.resolve_left not_mem_nil

theorem components_calleeFirst (edges : α → List α) (perm : ∀ l a, a ∈ sort l ↔ a ∈ l) (known : List α) :
    CalleeFirst edges known (components edges sort known) := by
  obtain ⟨_, s, same, inv, -⟩ := components_spec edges known perm kept_nothing trivial
  exact same ▸ inv.closed

end Components
