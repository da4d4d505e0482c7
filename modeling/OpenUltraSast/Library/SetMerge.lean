import OpenUltraSast.Library.Collections

/-!
# Joins of lists

An operation that is associative, commutative and idempotent joins a list to one value, whatever the
order of the list and however often it repeats a member.
-/

structure JoinLaws {α : Type} (join : α → α → α) : Prop where
  assoc : ∀ a b c, join (join a b) c = join a (join b c)
  comm : ∀ a b, join a b = join b a
  idem : ∀ a, join a a = a

namespace JoinLaws

open List

variable {α : Type} {join : α → α → α} (laws : JoinLaws join)
include laws

theorem join_foldl (a b : α) (l : List α) : l.foldl join (join a b) = join a (l.foldl join b) := by
  induction l generalizing b with
  | nil => rfl
  | cons c l ih => rw [foldl_cons, laws.assoc, ih, foldl_cons]

theorem foldl_join {a x : α} {l : List α} (member : x ∈ a :: l) :
    join (l.foldl join a) x = l.foldl join a := by
  induction l generalizing a with
  | nil =>
    rw [mem_singleton.mp member]
    exact laws.idem a
  | cons b l ih =>
    rw [foldl_cons, laws.join_foldl a b l]
    rcases mem_cons.mp member with rfl | later
    · rw [laws.comm, ← laws.assoc, laws.idem]
    · rw [laws.assoc, ih later]

theorem join_foldl_of_forall {a top : α} {l : List α} (above : ∀ x ∈ a :: l, join top x = top) :
    join top (l.foldl join a) = top := by
  induction l generalizing a with
  | nil => exact above a mem_cons_self
  | cons b l ih =>
    rw [foldl_cons, laws.join_foldl a b l, ← laws.assoc, above a mem_cons_self]
    exact ih fun x member => above x (mem_cons_of_mem a member)

theorem foldl_eq_of_mem_iff {a b : α} {l m : List α} (same : ∀ x, x ∈ a :: l ↔ x ∈ b :: m) :
    l.foldl join a = m.foldl join b := by
  have left := laws.join_foldl_of_forall fun x member => laws.foldl_join ((same x).mpr member)
  have right := laws.join_foldl_of_forall fun x member => laws.foldl_join ((same x).mp member)
  rw [← left, laws.comm, right]

theorem join_foldl_foldl (a b : α) (l m : List α) :
    join (l.foldl join a) (m.foldl join b) = (l ++ b :: m).foldl join a := by
  rw [foldl_append, foldl_cons, laws.join_foldl]

end JoinLaws

/-!
## Sorted unions of unordered sets

A program that unions two sequences as sets and sorts the result by a key gets an
arrangement that depends on the order in which the set is iterated, unless the
key tells the elements apart.
-/

namespace Collections

open List

/-- The order in which the union of two sets is iterated. Any listing of the union is
possible, and a different one each of the times (counted by the first argument). -/
structure SetOrder (α : Type) where
  list : Nat → List α → List α → List α
  mem_list : ∀ n left right x, x ∈ list n left right ↔ x ∈ left ∨ x ∈ right
  nodup : ∀ n left right, (list n left right).Nodup

variable {α κ : Type} [LinearOrder κ]

/-- `sorted(set(left) | set(right), key=key)`; the sort is stable. -/
def mergeBy (key : α → κ) (order : SetOrder α) (n : Nat) (left right : List α) : List α :=
  (order.list n left right).insertionSort fun a b => key a ≤ key b

structure Arranged (key : α → κ) (l : List α) : Prop where
  sorted : l.Pairwise fun a b => key a ≤ key b
  nodup : l.Nodup

def TieFree (key : α → κ) (l : List α) : Prop :=
  ∀ a ∈ l, ∀ b ∈ l, key a = key b → a = b

section Merge
variable (key : α → κ) (order : SetOrder α) (n : Nat) (left right : List α)

@[simp] theorem mem_mergeBy (x : α) :
    x ∈ mergeBy key order n left right ↔ x ∈ left ∨ x ∈ right := by
  rw [mergeBy, mem_insertionSort, order.mem_list]

theorem arranged_mergeBy : Arranged key (mergeBy key order n left right) where
  sorted := by
    have : Std.Total fun a b : α => key a ≤ key b := ⟨fun a b => le_total (key a) (key b)⟩
    have : IsTrans α fun a b : α => key a ≤ key b := ⟨fun a b c => le_trans⟩
    exact pairwise_insertionSort _ _
  nodup := (perm_insertionSort _ _).nodup_iff.mpr (order.nodup n left right)

variable {key order n left right}

/-- Without ties a merge does not depend on the order of the set. -/
theorem mergeBy_eq_mergeBy {order' : SetOrder α} {n' : Nat} (ties : TieFree key (left ++ right)) :
    mergeBy key order n left right = mergeBy key order' n' left right := by
  have merged := arranged_mergeBy key order n left right
  have merged' := arranged_mergeBy key order' n' left right
  have all : ∀ x, x ∈ mergeBy key order n left right → x ∈ left ++ right := fun x member =>
    mem_append.mpr ((mem_mergeBy key order n left right x).mp member)
  refine List.Perm.eq_of_pairwise (fun a b ha hb le ge => ?_) merged.sorted merged'.sorted
    ((perm_ext_iff_of_nodup merged.nodup merged'.nodup).mpr fun x => ?_)
  · have hb' : b ∈ left ++ right :=
      mem_append.mpr ((mem_mergeBy key order' n' left right b).mp hb)
    exact ties a (all a ha) b hb' (le_antisymm le ge)
  · rw [mem_mergeBy, mem_mergeBy]

/-- Merging what is there already changes nothing when the key tells the elements apart. -/
theorem mergeBy_eq_left (arranged : Arranged key left) (ties : TieFree key left)
    (subset : right ⊆ left) : mergeBy key order n left right = left := by
  have merged := arranged_mergeBy key order n left right
  have same : ∀ x, x ∈ mergeBy key order n left right ↔ x ∈ left := by
    intro x
    rw [mem_mergeBy]
    exact ⟨fun h => h.elim id fun member => subset member, .inl⟩
  refine List.Perm.eq_of_pairwise (fun a b ha hb le ge => ?_) merged.sorted arranged.sorted
    ((perm_ext_iff_of_nodup merged.nodup arranged.nodup).mpr same)
  exact ties a ((same a).mp ha) b hb (le_antisymm le ge)

end Merge

section Insertion
variable [DecidableEq α]

def SetOrder.insertion : SetOrder α where
  list _ left right := (left ++ right).eraseDups
  mem_list _ left right x := by simp [mem_eraseDups]
  nodup _ left right := nodup_eraseDups _

theorem insertion_eq_left {key : α → κ} {n : Nat} {left right : List α}
    (arranged : Arranged key left) (subset : right ⊆ left) :
    mergeBy key .insertion n left right = left := by
  have same : (left ++ right).eraseDups = left := by
    have none : right.removeAll left = [] := by
      rw [List.removeAll, filter_eq_nil_iff]
      intro a member
      simpa using subset member
    rw [eraseDups_append, none, eraseDups_of_nodup left arranged.nodup]
    simp
  rw [mergeBy]
  exact (congrArg _ same).trans arranged.sorted.insertionSort_eq

end Insertion

section Alternating
variable [DecidableEq α]

def alternatePair (a b : α) (n : Nat) (left : List α) : List α :=
  if n = 0 then if [a, b].Sublist left then [b, a] else [a, b]
  else if [a, b].Sublist left then [a, b] else [b, a]

theorem mem_alternatePair {a b x : α} {n : Nat} {left : List α} :
    x ∈ alternatePair a b n left ↔ x = a ∨ x = b := by
  unfold alternatePair
  split_ifs <;> simp [or_comm]

def SetOrder.alternating (a b : α) (ne : a ≠ b) : SetOrder α where
  list n left right :=
    let union := (left ++ right).eraseDups
    if a ∈ union ∧ b ∈ union then
      alternatePair a b n left ++ union.filter fun x => x ≠ a ∧ x ≠ b
    else union
  mem_list n left right x := by
    simp only
    split
    next both =>
      simp only [mem_eraseDups, mem_append] at both
      simp only [mem_append, mem_alternatePair, mem_filter, mem_eraseDups,
        decide_eq_true_eq]
      constructor
      · rintro ((rfl | rfl) | ⟨h, -⟩)
        · exact both.1
        · exact both.2
        · exact h
      · intro h
        by_cases ha : x = a
        · exact .inl (.inl ha)
        · by_cases hb : x = b
          · exact .inl (.inr hb)
          · exact .inr ⟨h, ha, hb⟩
    next => simp [mem_eraseDups]
  nodup n left right := by
    simp only
    split
    next =>
      refine List.Nodup.append ?_ ((nodup_eraseDups _).filter _) ?_
      · unfold alternatePair
        split_ifs <;> simp [ne, ne.symm]
      · intro x member rest
        simp only [mem_filter, decide_eq_true_eq] at rest
        exact (mem_alternatePair.mp member).elim rest.2.1 rest.2.2
    next => exact nodup_eraseDups _

omit [DecidableEq α] in
theorem not_sublist_of_sublist {a b : α} {l : List α} (nodup : l.Nodup) (ne : a ≠ b)
    (h : [a, b].Sublist l) : ¬ [b, a].Sublist l := by
  induction l with
  | nil => simp at h
  | cons x l ih =>
    rw [nodup_cons] at nodup
    rw [cons_sublist_cons'] at h ⊢
    simp only [singleton_sublist] at h ⊢
    rintro (other | ⟨rfl, other⟩)
    · rcases h with h | ⟨rfl, h⟩
      · exact ih nodup.2 h other
      · exact nodup.1 (other.subset (by simp))
    · rcases h with h | ⟨same, h⟩
      · exact nodup.1 (h.subset (by simp))
      · exact ne same

/-- One merge puts the pair in the order opposite to the list's (the first time) or in
its order, when the key does not tell the two apart. -/
theorem sublist_mergeBy_alternating {key : α → κ} {a b : α} (ne : a ≠ b) (tie : key a = key b)
    (n : Nat) {left : List α} (right : List α) (ha : a ∈ left) (hb : b ∈ left) :
    [a, b].Sublist (mergeBy key (.alternating a b ne) n left right) ↔
      if n = 0 then ¬ [a, b].Sublist left else [a, b].Sublist left := by
  have nodup := (arranged_mergeBy key (.alternating a b ne) n left right).nodup
  have pair : (alternatePair a b n left).Sublist
      (mergeBy key (.alternating a b ne) n left right) := by
    have within : (alternatePair a b n left).Sublist
        ((SetOrder.alternating a b ne).list n left right) := by
      simp only [SetOrder.alternating]
      rw [if_pos (by simp [mem_eraseDups, ha, hb])]
      exact sublist_append_left _ _
    refine sublist_insertionSort ?_ within
    unfold alternatePair
    split_ifs <;> simp [tie]
  unfold alternatePair at pair
  split_ifs with first
  · by_cases before : [a, b].Sublist left
    · simp only [first, if_true, before] at pair
      simp only [before, not_true, iff_false]
      exact not_sublist_of_sublist nodup ne.symm (by simpa [first] using pair)
    · simp only [first, if_true, before, if_false] at pair
      simpa [before, first] using pair
  · by_cases before : [a, b].Sublist left
    · simpa [first, before] using pair
    · simp only [first, before, if_false] at pair
      simp only [before, iff_false]
      exact not_sublist_of_sublist nodup ne.symm pair

end Alternating

end Collections
