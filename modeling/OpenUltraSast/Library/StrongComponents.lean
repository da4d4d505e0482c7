import OpenUltraSast.Library.Components

/-!
# Strongly connected components

The components that the search lists are the strongly connected components of the graph on the known
nodes.
-/

namespace Components

open Relation List

variable {α : Type} [DecidableEq α] {edges : α → List α} {known : List α}

abbrev Reaches (edges : α → List α) (known : List α) : α → α → Prop :=
  ReflTransGen fun a b => a ∈ known ∧ b ∈ known ∧ b ∈ edges a

structure Tied (edges : α → List α) (known : List α) (sort : List α → List α) (nodes : List α)
    (s : Search α) : Prop where
  up : ∀ node ∈ nodes, ∀ w ∈ s.stack, s.idx node ≤ s.idx w → Reaches edges known node w
  down : ∀ w ∈ s.stack, ∃ node ∈ nodes, s.idx node ≤ s.idx w ∧ Reaches edges known w node
  low : ∀ node ∈ nodes, ∃ w ∈ s.stack, s.lowlink node = s.idx w ∧ Reaches edges known node w
  joined : ∀ component ∈ s.components, component ≠ [] ∧ (∃ members, component = sort members) ∧
    ∀ a ∈ component, ∀ b ∈ component, Reaches edges known a b
  once : (s.stack ++ s.components.flatten).Nodup

variable {sort : List α → List α} {nodes : List α} {base : Nat} {node : α} {work : List (Frame α)}
  {s : Search α}

theorem lower_of_le {v : Nat} (le : s.lowlink node ≤ v) : s.lower node v = s := by
  rw [Search.lower, min_eq_left le, Function.update_eq_self]

theorem Tied.lower (tied : Tied edges known sort nodes s) {w : α} (onStack : w ∈ s.stack)
    (reaches : Reaches edges known node w) :
    Tied edges known sort nodes (s.lower node (s.idx w)) where
  up := tied.up
  down := tied.down
  joined := tied.joined
  once := tied.once
  low other member := by
    by_cases same : other = node
    · subst same
      rw [lower_lowlink_self]
      rcases le_total (s.lowlink other) (s.idx w) with old | new
      · rw [min_eq_left old]
        exact tied.low other member
      · exact ⟨w, onStack, min_eq_right new, reaches⟩
    · rw [lower_lowlink_of_ne s _ same]
      exact tied.low other member

variable {children : List α}

theorem Tied.scan (isKnown : node ∈ known) (subset : children ⊆ edges node)
    (tied : Tied edges known sort nodes s) :
    Tied edges known sort nodes (Components.scan known node children s).2 := by
  induction children generalizing s with
  | nil => exact tied
  | cons child children ih =>
    have rest : children ⊆ edges node := fun c member => subset (mem_cons_of_mem _ member)
    unfold Components.scan
    split
    next => exact ih rest tied
    next childKnown =>
      rw [not_not] at childKnown
      cases visited : s.visitIndex child with
      | none => exact tied
      | some index =>
        simp only
        split
        next onStack =>
          have edge : Reaches edges known node child :=
            .single ⟨isKnown, childKnown, subset mem_cons_self⟩
          have lowered := tied.lower onStack edge
          rw [Search.idx, visited] at lowered
          exact ih rest lowered
        next => exact ih rest tied

omit [DecidableEq α] in
theorem Inv.idx_lt (inv : Inv edges known base ((node, children) :: work) s)
    {other : α} (member : other ∈ work.map Prod.fst) : s.idx other < s.idx node := by
  obtain ⟨_, stack, -, -, tail, -, lower, -⟩ := inv.top
  obtain ⟨frame, open_, rfl⟩ := mem_map.mp member
  exact lower _ (tail.mem frame open_)

omit [DecidableEq α] in
theorem Inv.idx_le (inv : Inv edges known base ((node, children) :: work) s)
    {other : α} (member : other ∈ node :: work.map Prod.fst) : s.idx other ≤ s.idx node := by
  rcases mem_cons.mp member with rfl | below
  · exact le_rfl
  · exact (inv.idx_lt below).le

theorem Tied.enter {child : α} {rest : List α}
    (inv : Inv edges known base ((node, child :: rest) :: work) s) (isKnown : child ∈ known)
    (unvisited : s.visitIndex child = none)
    (tied : Tied edges known sort (node :: work.map Prod.fst) s) :
    Tied edges known sort (child :: node :: work.map Prod.fst) (Components.enter child s) := by
  obtain ⟨stack, idx, lowlink, -, components⟩ := Inv.enter_fields unvisited
  have new : ∀ a, (s.visitIndex a).isSome = true → a ≠ child := by
    rintro a visited rfl
    simp [unvisited] at visited
  have seen : ∀ a ∈ s.stack, (s.visitIndex a).isSome = true := fun a member =>
    (inv.visited a).mpr (.inl member)
  have opened : ∀ a ∈ node :: work.map Prod.fst, a ∈ s.stack := fun a member =>
    have ⟨frame, open_, same⟩ := mem_map.mp (show a ∈ ((node, child :: rest) :: work).map Prod.fst from member)
    same ▸ inv.owned.mem frame open_
  have kept : ∀ a ∈ s.stack, (Components.enter child s).idx a = s.idx a := fun a member =>
    enter_idx_of_ne s (new a (seen a member))
  have edge : Reaches edges known node child :=
    .single ⟨inv.inside node (seen node (opened node mem_cons_self)), isKnown,
      inv.opened _ mem_cons_self mem_cons_self⟩
  constructor
  · intro a open_ w onStack le
    rw [stack, mem_cons] at onStack
    rw [mem_cons] at open_
    rcases open_ with rfl | open_
    · rcases onStack with rfl | before
      · exact .refl
      · -- nothing was visited after the new node
        rw [idx, kept w before] at le
        exact absurd (inv.below w (seen w before)) (by omega)
    · rcases onStack with rfl | before
      · exact (tied.up a open_ node (opened node mem_cons_self) (inv.idx_le open_)).trans edge
      · rw [kept a (opened a open_), kept w before] at le
        exact tied.up a open_ w before le
  · intro w onStack
    rw [stack] at onStack
    rcases mem_cons.mp onStack with rfl | onStack
    · exact ⟨w, mem_cons_self, le_rfl, .refl⟩
    · obtain ⟨a, open_, le, reaches⟩ := tied.down w onStack
      refine ⟨a, mem_cons_of_mem _ open_, ?_, reaches⟩
      rwa [kept a (opened a open_), kept w onStack]
  · intro a open_
    rw [stack]
    rcases mem_cons.mp open_ with rfl | open_
    · exact ⟨a, mem_cons_self, lowlink.trans idx.symm, .refl⟩
    · obtain ⟨w, onStack, low, reaches⟩ := tied.low a open_
      refine ⟨w, mem_cons_of_mem _ onStack, ?_, reaches⟩
      rwa [enter_lowlink_of_ne s (new a (seen a (opened a open_))), kept w onStack]
  · rw [components]
    exact tied.joined
  · rw [stack, components, cons_append, nodup_cons]
    refine ⟨fun member => ?_, tied.once⟩
    have visited := (inv.visited child).mpr ((mem_append.mp member).imp_right mem_flatten.mp)
    exact new child visited rfl

/-- The closed node leaves with the stack above it, all of which it reaches and is reached from. -/
theorem Tied.emit (perm : ∀ l, (sort l).Perm l) (inv : Inv edges known base ((node, []) :: work) s)
    (root : s.lowlink node = s.idx node)
    (tied : Tied edges known sort (node :: work.map Prod.fst) s) :
    Tied edges known sort (work.map Prod.fst) (Components.emit sort node s) := by
  obtain ⟨segment, stack, split, -, tail, higher, lower, -⟩ := inv.top
  have onStack : node ∈ s.stack := by simp [split]
  have index : s.visitIndex node = some (s.lowlink node) := by
    obtain ⟨index, found⟩ := Option.isSome_iff_exists.mp ((inv.visited node).mpr (.inl onStack))
    simp [root, Search.idx, found]
  have keep : ∀ a ∈ stack, a ∈ s.stack := fun a member => by simp [split, member]
  have leaves : ∀ a ∈ segment ++ [node], a ∈ s.stack ∧ s.idx node ≤ s.idx a := by
    intro a member
    rcases mem_append.mp member with above | top
    · exact ⟨by simp [split, above], (higher a above).le⟩
    · rw [mem_singleton.mp top]
      exact ⟨onStack, le_rfl⟩
  have from_ : ∀ a ∈ segment ++ [node], Reaches edges known node a := fun a member =>
    tied.up node mem_cons_self a (leaves a member).1 (leaves a member).2
  have to_ : ∀ a ∈ segment ++ [node], Reaches edges known a node := by
    -- by way of the open node that it reaches, from which the path goes on to this one
    intro a member
    obtain ⟨other, open_, -, reaches⟩ := tied.down a (leaves a member).1
    exact reaches.trans (tied.up other open_ node onStack (inv.idx_le open_))
  rw [emit_root index split fun member => absurd (higher node member) (lt_irrefl _)]
  constructor
  · exact fun a open_ w below => tied.up a (mem_cons_of_mem _ open_) w (keep w below)
  · intro w below
    obtain ⟨a, open_, le, reaches⟩ := tied.down w (keep w below)
    have earlier := lower w below
    refine ⟨a, (mem_cons.mp open_).resolve_left ?_, le, reaches⟩
    rintro rfl
    exact absurd (le.trans_lt earlier) (lt_irrefl _)
  · intro a open_
    obtain ⟨w, member, low, reaches⟩ := tied.low a (mem_cons_of_mem _ open_)
    refine ⟨w, ?_, low, reaches⟩
    -- the lowlink of an open node is below what leaves
    obtain ⟨frame, inWork, rfl⟩ := mem_map.mp open_
    have bound := (inv.low frame (mem_cons_of_mem _ inWork)).2
    have before := inv.idx_lt open_
    rw [low] at bound
    rw [split, append_cons, mem_append] at member
    rcases member with leaving | below
    · exact absurd (leaves w leaving).2 (by omega)
    · exact below
  · intro component member
    rcases mem_append.mp member with old | new
    · exact tied.joined component old
    · rw [mem_singleton.mp new]
      have filled : sort (segment ++ [node]) ≠ [] := fun none_ => by
        simpa [none_] using (perm (segment ++ [node])).length_eq
      refine ⟨filled, ⟨_, rfl⟩, fun a one b two => ?_⟩
      rw [(perm _).mem_iff] at one two
      exact (to_ a one).trans (from_ b two)
  · have once := tied.once
    rw [split] at once
    refine (List.Perm.nodup_iff ?_).mp once
    have moved : ((segment ++ [node]) ++ (stack ++ s.components.flatten)).Perm
        (stack ++ (s.components.flatten ++ sort (segment ++ [node]))) :=
      ((perm _).symm.append_right _).trans (perm_append_comm.trans (by rw [append_assoc]))
    simpa using moved

/-- Closing a node that is no root: what reaches it reaches an open node before it. -/
theorem Tied.pass {parent : Frame α} (inv : Inv edges known base ((node, []) :: parent :: work) s)
    (below : s.lowlink node ≠ s.idx node)
    (tied : Tied edges known sort (node :: (parent :: work).map Prod.fst) s) :
    Tied edges known sort ((parent :: work).map Prod.fst) (s.lower parent.1 (s.lowlink node)) := by
  obtain ⟨b, onStack, low, reaches⟩ := tied.low node mem_cons_self
  have less : s.idx b < s.idx node := by
    have := (inv.low _ mem_cons_self).2
    simp only at this
    omega
  have remaining : Tied edges known sort ((parent :: work).map Prod.fst) s := by
    refine ⟨fun a open_ => tied.up a (mem_cons_of_mem _ open_), fun w member => ?_,
      fun a open_ => tied.low a (mem_cons_of_mem _ open_), tied.joined, tied.once⟩
    obtain ⟨a, open_, le, path⟩ := tied.down w member
    rcases mem_cons.mp open_ with rfl | open_
    -- over the older `b` of the lowlink to an open node, which is then older too
    · obtain ⟨other, open_, le', path'⟩ := tied.down b onStack
      refine ⟨other, (mem_cons.mp open_).resolve_left ?_, by omega, (path.trans reaches).trans path'⟩
      rintro rfl
      omega
    · exact ⟨a, open_, le, path⟩
  have parent_ : parent.1 ∈ (parent :: work).map Prod.fst := mem_cons_self
  rw [low]
  refine remaining.lower onStack (.trans ?_ reaches)
  exact tied.up parent.1 (mem_cons_of_mem _ parent_) node
    (inv.owned.mem _ mem_cons_self) (inv.idx_lt parent_).le

theorem Tied.close (perm : ∀ l, (sort l).Perm l) (inv : Inv edges known base ((node, []) :: work) s)
    (tied : Tied edges known sort (node :: work.map Prod.fst) s) :
    Tied edges known sort (work.map Prod.fst) (passUp node work (Components.emit sort node s)) := by
  by_cases root : s.lowlink node = s.idx node
  · have emitted := tied.emit perm inv root
    have same : (Components.emit sort node s).lowlink = s.lowlink := by
      unfold Components.emit
      split <;> rfl
    cases work with
    | nil => exact emitted
    | cons parent work =>
      rw [passUp, same, lower_of_le]
      · exact emitted
      · have := (inv.low parent (by simp)).2
        have := inv.idx_lt (show parent.1 ∈ (parent :: work).map Prod.fst from mem_cons_self)
        rw [same]
        omega
  · have kept : Components.emit sort node s = s := by
      unfold Components.emit
      rw [if_pos]
      intro index
      exact root (by simp [Search.idx, index])
    rw [kept]
    cases work with
    | nil =>
      have := inv.rooted (node, []) (by simp)
      have := inv.low _ mem_cons_self
      simp only at *
      omega
    | cons parent work => exact tied.pass inv root

theorem kept_tied (perm : ∀ l, (sort l).Perm l) : Kept edges known sort (Tied edges known sort) where
  scan inv tied := tied.scan
    (inv.inside _ ((inv.visited _).mpr (.inl (inv.owned.mem _ mem_cons_self))))
    (inv.opened _ mem_cons_self)
  enter inv isKnown new tied := tied.enter inv isKnown new
  close inv tied := tied.close perm inv
  root {base root s} inv isKnown new tied := by
    obtain ⟨stack, idx, lowlink, -, components⟩ := Inv.enter_fields new
    rw [inv.stack_nil] at stack
    refine ⟨?_, ?_, ?_, components ▸ tied.joined, ?_⟩
    · simp [stack, ReflTransGen.refl]
    · simp [stack, ReflTransGen.refl]
    · simp [stack, idx, lowlink, ReflTransGen.refl]
    · have once := tied.once
      rw [inv.stack_nil, nil_append] at once
      rw [stack, components, singleton_append, nodup_cons]
      refine ⟨fun member => ?_, once⟩
      have visited := (inv.visited root).mpr (.inr (mem_flatten.mp member))
      simp [new] at visited

/-- Every known node in one component, components of nodes that reach each other, and each after all
that it reaches. -/
structure Condensation (edges : α → List α) (known : List α) (components : List (List α)) :
    Prop where
  once : components.flatten.Nodup
  mem_iff : ∀ a, a ∈ components.flatten ↔ a ∈ known
  filled : ∀ component ∈ components, component ≠ []
  class_iff : ∀ component ∈ components, ∀ a ∈ component, ∀ b ∈ known,
    b ∈ component ↔ Reaches edges known a b ∧ Reaches edges known b a
  ordered : ∀ before component after, components = before ++ component :: after →
    ∀ a ∈ component, ∀ b, Reaches edges known a b → b ∈ component ∨ b ∈ before.flatten

variable {component : List α} {before after : List (List α)}

omit [DecidableEq α] in
theorem CalleeFirst.reaches {components : List (List α)} (first : CalleeFirst edges known components)
    (split : components = before ++ component :: after) {a b : α} (member : a ∈ component)
    (path : Reaches edges known a b) : b ∈ component ∨ b ∈ before.flatten := by
  induction path with
  | refl => exact .inl member
  | @tail c d _ edge ih =>
    rcases ih with here | earlier
    · refine (first before component after split c here d edge.2.2 edge.2.1).imp_right ?_
      exact mem_flatten.mpr
    · obtain ⟨other, listed, inside⟩ := mem_flatten.mp earlier
      obtain ⟨front, back, rfl⟩ := append_of_mem listed
      rw [append_assoc, cons_append] at split
      rcases first front other _ split c inside d edge.2.2 edge.2.1 with same | ⟨third, listed', inside'⟩
      · exact .inr (mem_flatten.mpr ⟨other, listed, same⟩)
      · exact .inr (mem_flatten.mpr ⟨third, mem_append_left _ listed', inside'⟩)

omit [DecidableEq α] in
theorem not_mem_before
    (once : (before ++ component :: after).flatten.Nodup) {a : α} (member : a ∈ component) :
    a ∉ before.flatten := by
  rw [flatten_append, flatten_cons, nodup_append'] at once
  exact fun earlier => once.2.2 earlier (mem_append_left _ member)

omit [DecidableEq α] in
theorem CalleeFirst.same_component {components : List (List α)}
    (first : CalleeFirst edges known components) (once : components.flatten.Nodup)
    (listed : component ∈ components) {a b : α} (member : a ∈ component)
    (there : Reaches edges known a b) (back : Reaches edges known b a) : b ∈ component := by
  obtain ⟨before, after, rfl⟩ := append_of_mem listed
  refine (first.reaches rfl member there).resolve_right fun earlier => ?_
  obtain ⟨other, listed', inside⟩ := mem_flatten.mp earlier
  obtain ⟨front, rest, rfl⟩ := append_of_mem listed'
  -- what an earlier component reaches is earlier
  have split : (front ++ other :: rest) ++ component :: after =
      front ++ other :: (rest ++ component :: after) := by simp
  refine not_mem_before once member ?_
  rw [flatten_append, flatten_cons, mem_append, mem_append]
  exact (first.reaches split inside back).elim (fun same => .inr (.inl same)) .inl

/-- The components are the classes of mutual reachability, callees first. -/
theorem components_condensation (edges : α → List α) (perm : ∀ l, (sort l).Perm l) (known : List α) :
    Condensation edges known (components edges sort known) ∧
      ∀ component ∈ components edges sort known, ∃ members, component = sort members := by
  have same : ∀ l a, a ∈ sort l ↔ a ∈ l := fun l a => (perm l).mem_iff
  obtain ⟨base, s, result, inv, tied, all⟩ := components_spec edges known same
    (kept_tied perm)
    ⟨by simp [Search.start], by simp [Search.start], by simp, by simp [Search.start],
      by simp [Search.start]⟩
  have once := tied.once
  rw [inv.stack_nil, nil_append] at once
  rw [← result]
  -- the stack is empty, so what was visited was emitted
  have mem_iff : ∀ a, a ∈ s.components.flatten ↔ a ∈ known := by
    intro a
    have visited := inv.visited a
    rw [inv.stack_nil] at visited
    rw [mem_flatten, ← visited.trans (or_iff_right not_mem_nil)]
    exact ⟨inv.inside a, all a⟩
  refine ⟨⟨once, mem_iff, fun component listed => (tied.joined component listed).1, ?_, ?_⟩,
    fun component listed => (tied.joined component listed).2.1⟩
  · intro component listed a member b isKnown
    refine ⟨fun same => ?_, fun mutual_ => ?_⟩
    · have joined := (tied.joined component listed).2.2
      exact ⟨joined a member b same, joined b same a member⟩
    · exact inv.closed.same_component once listed member mutual_.1 mutual_.2
  · exact fun before component after split a member b path => inv.closed.reaches split member path

end Components
