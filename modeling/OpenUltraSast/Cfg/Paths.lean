import OpenUltraSast.Cfg.Builder
import OpenUltraSast.Cfg.Dominators

/-!
# What a graph says about paths

The answers to the questions by line, in terms of the paths of the graph.
-/

open Dominators Relation

namespace OpenUltraSast.Cfg

open List

open FunctionCfg (entryIndex exitIndex)

/-- The masks are those of a tree at whose root the entry is: a node's mask is that of one other node,
and its own bit. -/
theorem computeDominators_tree (cfg : FunctionCfg) :
    (computeDominators cfg).get entryIndex = 1 <<< entryIndex ∧
      ∀ b, Reached cfg.Edge entryIndex b → b ≠ entryIndex →
        ∃! d, Reached cfg.Edge entryIndex d ∧ ((computeDominators cfg).get d).testBit b = false ∧
          (computeDominators cfg).get b = (computeDominators cfg).get d ||| 1 <<< b := by
  obtain ⟨-, rest, -, descending, holds_iff⟩ := computeDominators_settled cfg
  refine ⟨Nat.eq_of_testBit_eq fun a => Bool.eq_iff_iff.mpr ?_, fun b reached apart => ?_⟩
  · rw [testBit_bit]
    refine ⟨descending.entry a, ?_⟩
    rintro rfl
    exact (holds_iff _ reached_root _).mpr fun _ path => path.mem
  · obtain ⟨d, proper, dominates, below⟩ := exists_immediate reached apart
    have reached_d := dominates.reached reached
    refine ⟨d, ⟨reached_d, ?_, ?_⟩, ?_⟩
    · rw [← Bool.not_eq_true]
      exact fun back => proper (dominates.antisymm ((holds_iff d reached_d b).mp back) reached)
    · refine Nat.eq_of_testBit_eq fun a => Bool.eq_iff_iff.mpr ?_
      rw [Nat.testBit_or, Bool.or_eq_true, testBit_bit]
      refine (holds_iff b reached a).trans (Iff.trans ?_ (or_congr_left (holds_iff d reached_d a).symm))
      constructor
      · exact fun above => (below a above).symm
      · rintro (above | rfl)
        · exact above.trans dominates
        · exact fun _ path => path.mem
    · rintro e ⟨reached_e, lacks, mask⟩
      -- each of two such nodes is in the mask of the other one
      have iff (a : Nat) : Dominates cfg.Edge entryIndex a b ↔
          Dominates cfg.Edge entryIndex a e ∨ a = b := by
        rw [← holds_iff b reached, ← holds_iff e reached_e, Masks.Holds, mask, Nat.testBit_or,
          Bool.or_eq_true, testBit_bit]
        rfl
      have self : Dominates cfg.Edge entryIndex e e := fun _ path => path.mem
      refine ((below e ((iff e).mpr (.inl self))).resolve_left ?_).antisymm
        (((iff d).mp dominates).resolve_right proper) reached_d
      rintro rfl
      have holds := (holds_iff e reached_e e).mpr self
      rw [Masks.Holds, lacks] at holds
      cases holds

/-! ### The relation of two lines -/

variable {cfg : FunctionCfg}

/-- An edge to a node that is not avoided. -/
def FunctionCfg.Onward (cfg : FunctionCfg) (avoid : List Nat) (a b : Nat) : Prop :=
  cfg.Edge a b ∧ b ∉ avoid

/-- With enough fuel the search finds the target exactly where a path leads on to it. -/
theorem reachesLoop_iff {target : Nat} {avoid : List Nat} (fuel : Nat) (seen stack : List Nat)
    (enough : stack.length + (cfg.normal ++ cfg.exceptional).countP (·.1 ∉ seen) ≤ fuel)
    (searched : Searched (cfg.Onward avoid) (· = target) seen stack) :
    cfg.reachesLoop target avoid fuel seen stack = true ↔
      Finds (cfg.Onward avoid) (· = target) stack := by
  induction fuel generalizing seen stack with
  | zero => cases stack <;> simp [FunctionCfg.reachesLoop, Finds] at enough ⊢
  | succ fuel ih =>
    cases stack with
    | nil => simp [FunctionCfg.reachesLoop, Finds]
    | cons node stack =>
      rw [length_cons] at enough
      unfold FunctionCfg.reachesLoop
      split
      next here => exact ⟨fun _ => ⟨node, mem_cons_self, node, here, .refl⟩, fun _ => rfl⟩
      next apart =>
      split
      next before =>
        obtain ⟨still, same⟩ := searched.skip before
        rw [ih seen stack (by omega) still, same]
      next new =>
        have fresh := countP_fresh (cfg.normal ++ cfg.exceptional) new
        have pushed := (length_filter_le (fun n => n ∉ avoid && n ∉ node :: seen)
          (cfg.successors node)).trans (length_successors_le cfg node)
        have sound : ∀ m ∈ (cfg.successors node).filter fun n => n ∉ avoid && n ∉ node :: seen,
            cfg.Onward avoid node m := fun m member => by
          simp only [mem_filter, Bool.and_eq_true, decide_eq_true_eq] at member
          exact ⟨member.1, member.2.1⟩
        obtain ⟨still, same⟩ := searched.expand apart sound fun m onward =>
          or_iff_not_imp_left.mpr fun unseen =>
            mem_filter.mpr ⟨onward.1, by simp [onward.2, unseen]⟩
        rw [ih (node :: seen) _ (by rw [length_append]; omega) still, same]

theorem reaches_iff (start target : Nat) (avoid : List Nat) :
    cfg.reaches [start] target avoid = true ↔
      start ∉ avoid ∧ ReflTransGen (cfg.Onward avoid) start target := by
  have few : ([start].filter (· ∉ avoid)).length ≤ 1 := length_filter_le _ _
  have all := countP_le_length (p := fun edge => decide (edge.1 ∉ []))
    (l := cfg.normal ++ cfg.exceptional)
  rw [length_append] at all
  rw [FunctionCfg.reaches, reachesLoop_iff _ _ _ (by rw [length_singleton]; omega)
    fun _ seen => absurd seen not_mem_nil]
  by_cases avoided : start ∈ avoid <;> simp [Finds, avoided]

/-- What an answer says of the paths that lead to the operation. -/
def FunctionCfg.Relates (cfg : FunctionCfg) (guard operation : Nat) : Relation → Prop
  | .allPaths => Reached cfg.Edge entryIndex operation ∧
      ∀ passed, Path cfg.Edge entryIndex passed operation → guard ∈ passed
  | .somePaths => (∃ passed, Path cfg.Edge entryIndex passed operation ∧ guard ∈ passed) ∧
      ∃ passed, Path cfg.Edge entryIndex passed operation ∧ guard ∉ passed
  | .none => ∀ passed, Path cfg.Edge entryIndex passed operation → guard ∉ passed
  | .after => False

private theorem fromCst_dominators {depth : Nat} {function : Cst} {language : String}
    (available : (fromCst depth function language).available = true) :
    (fromCst depth function language).dominators =
      computeDominators (fromCst depth function language) := by
  revert available
  unfold fromCst
  split
  next => simp
  next =>
    split
    · simp
    · exact fun _ => rfl

theorem FunctionCfg.passes_iff (built : cfg.dominators = computeDominators cfg) (a b : Nat) :
    ((cfg.dominators.lookup a).isSome && cfg.reaches [a] b []) = true ↔
      ∃ passed, Path cfg.Edge entryIndex passed b ∧ a ∈ passed := by
  obtain ⟨-, rest, ordered, descending, -⟩ := computeDominators_settled cfg
  have edges : cfg.Onward [] = cfg.Edge := by
    funext a b
    simp [Onward]
  rw [through_iff, Bool.and_eq_true, reaches_iff, edges, and_iff_right not_mem_nil, built,
    ← ordered.mem_iff, ← descending.keys, Option.isSome_iff_exists, Dicts.mem_keys_iff]

theorem FunctionCfg.relates_iff (built : cfg.dominators = computeDominators cfg)
    (guard operation : Nat) (relation : Cfg.Relation) :
    (if cfg.dominatesNode guard operation then Cfg.Relation.allPaths
      else if (cfg.dominators.lookup guard).isSome && cfg.reaches [guard] operation [] then .somePaths
      else .none) = relation ↔ cfg.Relates guard operation relation := by
  have dominates := dominatesNode_iff built guard operation
  have passes := passes_iff built guard operation
  by_cases all : cfg.dominatesNode guard operation = true
  · rw [if_pos all]
    obtain ⟨⟨way, path⟩, through⟩ := dominates.mp all
    cases relation with
    | allPaths => exact iff_of_true rfl ⟨⟨way, path⟩, through⟩
    | somePaths => exact iff_of_false nofun fun ⟨_, other, path, without⟩ => without (through other path)
    | none => exact iff_of_false nofun fun without => without way path (through way path)
    | after => exact iff_of_false nofun not_false
  · rw [if_neg all]
    rw [dominates, not_and] at all
    by_cases some_ : ((cfg.dominators.lookup guard).isSome && cfg.reaches [guard] operation []) = true
    · rw [if_pos some_]
      obtain ⟨way, path, member⟩ := passes.mp some_
      have around := all ⟨way, path⟩
      unfold Dominates at around
      push Not at around
      cases relation with
      | allPaths => exact iff_of_false nofun fun ⟨reached, through⟩ => all reached through
      | somePaths => exact iff_of_true rfl ⟨⟨way, path, member⟩, around⟩
      | none => exact iff_of_false nofun fun without => without way path member
      | after => exact iff_of_false nofun not_false
    · rw [if_neg some_]
      rw [passes] at some_
      push Not at some_
      cases relation with
      | allPaths => exact iff_of_false nofun fun ⟨⟨way, path⟩, through⟩ => some_ way path (through way path)
      | somePaths => exact iff_of_false nofun fun ⟨⟨way, path, member⟩, _⟩ => some_ way path member
      | none => exact iff_of_true rfl some_
      | after => exact iff_of_false nofun not_false

/-- The relation of two lines is that of the nodes that they name: whether all, some or no paths to the
operation lead through the guard. -/
theorem relation_iff (depth : Nat) (function : Cst) (language : String) (guardLine operationLine : Nat)
    (relation : Cfg.Relation) :
    (fromCst depth function language).relation guardLine operationLine = some relation ↔
      ∃ guard operation, (fromCst depth function language).nodeAt guardLine = some guard ∧
        (fromCst depth function language).nodeAt operationLine = some operation ∧
        if guardLine > operationLine then relation = .after
        else (fromCst depth function language).Relates guard operation relation := by
  have built := @fromCst_dominators depth function language
  generalize fromCst depth function language = cfg at built ⊢
  unfold FunctionCfg.relation
  split
  next guard operation guardAt operationAt =>
    have available : cfg.available = true := by
      by_contra no
      simp [FunctionCfg.nodeAt, no] at guardAt
    have relates := FunctionCfg.relates_iff (built available) guard operation relation
    rw [← Option.some_inj, apply_ite some, apply_ite some] at relates
    constructor
    · intro answer
      refine ⟨guard, operation, guardAt, operationAt, ?_⟩
      split at answer
      next late => rw [if_pos late, ← Option.some.inj answer]
      next early => rwa [if_neg early, ← relates]
    · rintro ⟨a, b, one, other, holds⟩
      obtain rfl := Option.some.inj (guardAt.symm.trans one)
      obtain rfl := Option.some.inj (operationAt.symm.trans other)
      split at holds
      next late => rw [if_pos late, holds]
      next early => rwa [if_neg early, relates]
  next missing =>
    exact iff_of_false nofun fun ⟨guard, operation, one, other, _⟩ => missing guard operation one other

/-! ### The effect of a branch -/

/-- How an arm ends at a node: in a jump, at the end of the function, or not there. -/
def FunctionCfg.endsAs (cfg : FunctionCfg) (n : Nat) : Option (Option NodeKind) :=
  (cfg.kindOf n).bind fun kind =>
    if kind.isJump then some (some kind) else if n = exitIndex then some none else none

def FunctionCfg.Carries (cfg : FunctionCfg) (avoid : List Nat) (a b : Nat) : Prop :=
  a ∉ avoid ∧ (cfg.kindOf a).isSome ∧ cfg.endsAs a = none ∧ b ∈ cfg.normalSuccessors a

def Recorded (found : List NodeKind × Bool) : Option NodeKind → Prop
  | some kind => kind ∈ found.1
  | none => found.2 = true

private theorem length_normalSuccessors_le (node : Nat) :
    (cfg.normalSuccessors node).length ≤ cfg.normal.countP (·.1 = node) := by
  refine (length_sortedSet_le _).trans ?_
  rw [length_map, countP_eq_length_filter]

/-- An ending is collected exactly where a path of the arm comes to it. -/
theorem armEndsLoop_iff {avoid : List Nat} (ending : Option NodeKind) (fuel : Nat)
    (seen stack : List Nat) (found : List NodeKind × Bool)
    (enough : stack.length + cfg.normal.countP (·.1 ∉ seen) ≤ fuel)
    (searched : Recorded found ending ∨ Searched (cfg.Carries avoid)
      (fun n => n ∉ avoid ∧ cfg.endsAs n = some ending) (seen ++ avoid) stack) :
    Recorded (cfg.armEndsLoop avoid fuel seen stack found) ending ↔ Recorded found ending ∨
      Finds (cfg.Carries avoid) (fun n => n ∉ avoid ∧ cfg.endsAs n = some ending) stack := by
  induction fuel generalizing seen stack found with
  | zero => cases stack <;> simp [FunctionCfg.armEndsLoop, Finds] at enough ⊢
  | succ fuel ih =>
    cases stack with
    | nil => simp [FunctionCfg.armEndsLoop, Finds]
    | cons node stack =>
      rw [length_cons] at enough
      obtain ⟨jumps, falls⟩ := found
      unfold FunctionCfg.armEndsLoop
      split
      next before =>
        have before : node ∈ seen ++ avoid := by simpa using before
        rw [ih seen stack _ (by omega) (searched.imp_right fun searched => (searched.skip before).1)]
        by_cases recorded : Recorded (jumps, falls) ending
        · exact iff_of_true (.inl recorded) (.inl recorded)
        · rw [((searched.resolve_left recorded).skip before).2]
      next new =>
        have free : node ∉ seen ∧ node ∉ avoid := by simpa using new
        have fresh := countP_fresh cfg.normal free.1
        -- what the node is recorded for, and what is pushed for it
        have visit (next : List Nat) (found : List NodeKind × Bool)
            (few : next.length ≤ cfg.normal.countP (·.1 = node))
            (records : Recorded found ending ↔
              Recorded (jumps, falls) ending ∨ cfg.endsAs node = some ending)
            (pushes : ∀ m, m ∈ next ↔ cfg.Carries avoid node m) :
            Recorded (cfg.armEndsLoop avoid fuel (node :: seen) (next ++ stack) found) ending ↔
              Recorded (jumps, falls) ending ∨ Finds (cfg.Carries avoid)
                (fun n => n ∉ avoid ∧ cfg.endsAs n = some ending) (node :: stack) := by
          have short : (next ++ stack).length + cfg.normal.countP (·.1 ∉ node :: seen) ≤ fuel := by
            rw [length_append]
            omega
          by_cases recorded : Recorded found ending
          · rw [ih _ _ _ short (.inl recorded)]
            refine iff_of_true (.inl recorded) ((records.mp recorded).imp_right fun hit => ?_)
            exact ⟨node, mem_cons_self, node, ⟨free.2, hit⟩, .refl⟩
          · have ⟨before, apart⟩ := not_or.mp (mt records.mpr recorded)
            have ⟨still, same⟩ := (searched.resolve_left before).expand (fun hit => apart hit.2)
              (fun m => (pushes m).mp) fun m onward => .inr ((pushes m).mpr onward)
            rw [ih _ _ _ short (.inr still), same, or_iff_right recorded, or_iff_right before]
        split
        next kind known =>
          split
          next jump =>
            have ends : cfg.endsAs node = some (some kind) := by simp [FunctionCfg.endsAs, known, jump]
            refine visit [] (kind :: jumps, falls) (Nat.zero_le _) ?_ (by simp [FunctionCfg.Carries, ends])
            cases ending <;> simp [Recorded, ends, or_comm, eq_comm (b := kind)]
          next other =>
          split
          next last =>
            have ends : cfg.endsAs node = some none := by
              rw [FunctionCfg.endsAs, known, Option.bind_some, if_neg other, if_pos last]
            refine visit [] (jumps, true) (Nat.zero_le _) ?_ (by simp [FunctionCfg.Carries, ends])
            cases ending <;> simp [Recorded, ends]
          next apart =>
            have ends : cfg.endsAs node = none := by simp [FunctionCfg.endsAs, known, other, apart]
            exact visit _ _ (length_normalSuccessors_le node) (by simp [ends])
              (by simp [FunctionCfg.Carries, ends, known, free.2])
        next unknown =>
          have ends : cfg.endsAs node = none := by simp [FunctionCfg.endsAs, unknown]
          exact visit [] _ (Nat.zero_le _) (by simp [ends]) (by simp [FunctionCfg.Carries, unknown])

/-- Whether an arm comes to such an end without the branch. -/
def FunctionCfg.ArmEnds (cfg : FunctionCfg) (branch arm : Nat) (ending : Option NodeKind) : Prop :=
  ∃ n, (n ≠ branch ∧ cfg.endsAs n = some ending) ∧ ReflTransGen (cfg.Carries [branch]) arm n

private theorem recorded_armEnds (branch arm : Nat) (ending : Option NodeKind) :
    Recorded (cfg.armEnds arm [branch]) ending ↔ cfg.ArmEnds branch arm ending := by
  have all := countP_le_length (p := fun edge => decide (edge.1 ∉ [])) (l := cfg.normal)
  rw [FunctionCfg.armEnds, armEndsLoop_iff ending _ _ _ _ (by rw [length_singleton]; omega)]
  · cases ending <;> simp [Recorded, Finds, FunctionCfg.ArmEnds]
  · refine .inr fun n avoided => ⟨fun hit => hit.1 avoided, fun m onward => absurd avoided onward.1⟩

/-- What an effect says of the ends of an arm. -/
def FunctionCfg.Names (cfg : FunctionCfg) (branch arm : Nat) : Effect → Prop
  | .branches => cfg.ArmEnds branch arm none ∨ ∀ kind, ¬ cfg.ArmEnds branch arm (some kind)
  | .throws => ¬ cfg.ArmEnds branch arm none ∧ cfg.ArmEnds branch arm (some .throwJump) ∧
      ∀ kind, cfg.ArmEnds branch arm (some kind) → kind = .throwJump
  | .exits => ¬ cfg.ArmEnds branch arm none ∧
      ∃ kind ∈ [NodeKind.exitJump, .breakJump, .continueJump], cfg.ArmEnds branch arm (some kind)
  | .returns => ¬ cfg.ArmEnds branch arm none ∧ cfg.ArmEnds branch arm (some .returnJump) ∧
      ∀ kind, cfg.ArmEnds branch arm (some kind) → kind = .returnJump ∨ kind = .throwJump
  | _ => False

private theorem isJump_of_armEnds {branch arm : Nat} {kind : NodeKind}
    (ends : cfg.ArmEnds branch arm (some kind)) : kind.isJump = true := by
  obtain ⟨n, ⟨-, ends⟩, -⟩ := ends
  obtain ⟨found, -, ends⟩ := Option.bind_eq_some_iff.mp ends
  split at ends
  next jump => exact Option.some.inj (Option.some.inj ends) ▸ jump
  next => split at ends <;> cases ends

theorem names_iff (branch arm : Nat) (effect : Effect) :
    (if (cfg.armEnds arm [branch]).2 = true ∨ (cfg.armEnds arm [branch]).1 = [] then
        some Effect.branches
      else if (cfg.armEnds arm [branch]).1.all (· = .throwJump) then some .throws
      else if (cfg.armEnds arm [branch]).1.any
        (fun jump => jump ∈ [NodeKind.exitJump, .breakJump, .continueJump]) then some .exits
      else some .returns) = some effect ↔ cfg.Names branch arm effect := by
  have jump : ∀ kind, cfg.ArmEnds branch arm (some kind) → kind.isJump = true :=
    fun _ => isJump_of_armEnds
  have recorded : ∀ ending, Recorded (cfg.armEnds arm [branch]) ending ↔ cfg.ArmEnds branch arm ending :=
    recorded_armEnds branch arm
  unfold FunctionCfg.Names
  simp only [← recorded, Recorded] at jump ⊢
  generalize cfg.armEnds arm [branch] = found at jump ⊢
  obtain ⟨jumps, falls⟩ := found
  simp only [decide_eq_true_eq, eq_nil_iff_forall_not_mem, all_eq_true, any_eq_true]
  by_cases open_ : falls = true ∨ ∀ kind, kind ∉ jumps
  · rw [if_pos open_]
    cases effect <;> grind
  rw [if_neg open_]
  by_cases thrown : ∀ kind ∈ jumps, kind = .throwJump
  · rw [if_pos thrown]
    cases effect <;> grind
  rw [if_neg thrown]
  by_cases exits : ∃ kind ∈ jumps, kind ∈ [NodeKind.exitJump, .breakJump, .continueJump]
  · rw [if_pos exits]
    cases effect <;> grind
  · rw [if_neg exits]
    have only : ∀ kind ∈ jumps, kind = .returnJump ∨ kind = .throwJump := by
      intro kind member
      have isJump := jump kind member
      cases kind <;> first | decide | exact absurd ⟨_, member, by decide⟩ exits | cases isJump
    cases effect <;> grind

/-- An arm from which the operation is out of reach without the branch. -/
def FunctionCfg.Fails (cfg : FunctionCfg) (branch operation arm : Nat) : Prop :=
  ¬ (arm ≠ branch ∧ ReflTransGen (cfg.Onward [branch]) arm operation)

/-- A branch has an effect on an operation exactly if the operation can be reached from one arm and not
from another without the branch, and it is the one that the ends of the first such arm name. -/
theorem branchEffect_iff (cfg : FunctionCfg) (branch operation : Nat) (effect : Effect) :
    cfg.branchEffect branch operation = some effect ↔
      cfg.kindOf branch = some .branch ∧ branch ≠ operation ∧
        (∃ arm ∈ cfg.normalSuccessors branch, ¬ cfg.Fails branch operation arm) ∧
        ∃ first ∈ cfg.normalSuccessors branch, cfg.Fails branch operation first ∧
          (∀ arm ∈ cfg.normalSuccessors branch, cfg.Fails branch operation arm → first ≤ arm) ∧
          cfg.Names branch first effect := by
  have mem_failing (arm : Nat) : arm ∈ cfg.failingArms branch operation ↔
      arm ∈ cfg.normalSuccessors branch ∧ cfg.Fails branch operation arm := by
    rw [FunctionCfg.failingArms, mem_filter, Bool.not_eq_true', ← Bool.not_eq_true, reaches_iff,
      mem_singleton]
    rfl
  have sorted : (cfg.failingArms branch operation).Pairwise (· < ·) :=
    (Collections.sortedSet_pairwise _).sublist filter_sublist
  have some_passing : (cfg.normalSuccessors branch).filter (· ∉ cfg.failingArms branch operation) = [] ↔
      ¬ ∃ arm ∈ cfg.normalSuccessors branch, ¬ cfg.Fails branch operation arm := by
    simp +contextual [filter_eq_nil_iff, mem_failing]
  unfold FunctionCfg.branchEffect
  simp only [Option.ite_none_left_eq_some, Bool.or_eq_true, decide_eq_true_eq, not_or, not_not]
  cases failing : cfg.failingArms branch operation with
  | nil =>
    refine iff_of_false (fun both => nomatch both.2) ?_
    rintro ⟨-, -, -, first, arm, fails, -⟩
    have member := (mem_failing first).mpr ⟨arm, fails⟩
    rw [failing] at member
    cases member
  | cons first rest =>
    rw [failing] at some_passing sorted mem_failing
    have ⟨arm, fails⟩ := (mem_failing first).mp mem_cons_self
    have least : ∀ other ∈ cfg.normalSuccessors branch, cfg.Fails branch operation other →
        first ≤ other := by
      intro other arm fails
      rcases mem_cons.mp ((mem_failing other).mpr ⟨arm, fails⟩) with rfl | later
      · exact le_rfl
      · exact ((pairwise_cons.mp sorted).1 other later).le
    simp only [Option.ite_none_left_eq_some, some_passing, not_not]
    constructor
    · rintro ⟨⟨⟨isBranch, -⟩, apart⟩, passes, named⟩
      exact ⟨isBranch, apart, passes, first, arm, fails, least,
        (names_iff branch first effect).mp named⟩
    · rintro ⟨isBranch, apart, passes, other, arm', fails', least', names⟩
      obtain rfl := le_antisymm (least other arm' fails') (least' first arm fails)
      refine ⟨⟨⟨isBranch, fun few => ?_⟩, apart⟩, passes, (names_iff branch first effect).mpr names⟩
      -- the arm that passes is another one than the one that fails
      obtain ⟨second, arm', passes⟩ := passes
      have both : [first, second].Nodup := by
        simpa using fun (same : first = second) => passes (same ▸ fails)
      have more := (subperm_of_subset both (cons_subset.mpr
        ⟨arm, cons_subset.mpr ⟨arm', nil_subset _⟩⟩)).length_le
      exact absurd few (Nat.not_lt.mpr more)

end OpenUltraSast.Cfg
