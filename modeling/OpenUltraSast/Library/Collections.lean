import Mathlib.Data.List.Dedup
import Mathlib.Data.List.Perm.Basic
import Mathlib.Data.List.Sort

/-!
# Ordered collections

Lists that behave as insertion-ordered sets: deduplication that keeps the first
occurrence, and the sorted list of distinct elements of a collection.
-/

namespace Collections

open List

theorem forall_mem_of_all {β : Type} {l : List β} {p : β → Prop} [DecidablePred p]
    (all : l.all (fun b => decide (p b)) = true) : ∀ b ∈ l, p b := by
  simpa only [all_eq_true, decide_eq_true_eq] using all

variable {α : Type} [DecidableEq α]

theorem nodup_eraseDups (l : List α) : l.eraseDups.Nodup := by
  induction hn : l.length using Nat.strong_induction_on generalizing l with
  | _ n ih =>
    cases l with
    | nil => simp
    | cons a as =>
      rw [eraseDups_cons, nodup_cons]
      have shorter : (as.filter fun b => !b == a).length < n := by
        have := length_filter_le (fun b => !b == a) as
        simp only [length_cons] at hn
        omega
      refine ⟨?_, ih _ shorter _ rfl⟩
      simp [mem_eraseDups]

theorem length_eraseDups_eq_one {l : List α} :
    l.eraseDups.length = 1 ↔ ∃ a, ∀ x, x ∈ l ↔ x = a := by
  rw [length_eq_one_iff]
  refine exists_congr fun a => ?_
  rw [← perm_singleton, perm_ext_iff_of_nodup (nodup_eraseDups l) (nodup_singleton a)]
  simp only [mem_eraseDups, mem_singleton]

theorem eraseDups_of_nodup (l : List α) (h : l.Nodup) : l.eraseDups = l := by
  induction l with
  | nil => rfl
  | cons a as ih =>
    rw [nodup_cons] at h
    have keep : as.filter (fun b => !b == a) = as := by
      rw [filter_eq_self]
      intro b hb
      have : b ≠ a := fun e => h.1 (e ▸ hb)
      simpa using this
    rw [eraseDups_cons, keep, ih h.2]

omit [DecidableEq α] in
theorem countP_lt_of_flip {p q : α → Bool} {l : List α} (le : ∀ a, q a = true → p a = true)
    {x : α} (member : x ∈ l) (dropped : p x = true) (gone : q x = false) :
    l.countP q < l.countP p := by
  induction l with
  | nil => simp at member
  | cons a l ih =>
    have rest : l.countP q ≤ l.countP p := countP_mono_left fun b _ => le b
    simp only [countP_cons]
    rcases mem_cons.mp member with rfl | member
    · simp [dropped, gone]
      omega
    · have := ih member
      have : (if q a = true then 1 else 0) ≤ if p a = true then 1 else 0 := by
        split
        next h => simp [le a h]
        next => exact Nat.zero_le _
      omega

/-- `sorted(set(values))` for a linearly ordered type. -/
def sortedSet {β : Type} [LinearOrder β] (values : List β) : List β :=
  values.eraseDups.insertionSort (· ≤ ·)

section SortedSet
variable {β : Type} [LinearOrder β]

@[simp] theorem mem_sortedSet (values : List β) (x : β) :
    x ∈ sortedSet values ↔ x ∈ values := by
  simp [sortedSet, mem_insertionSort, mem_eraseDups]

theorem nodup_sortedSet (values : List β) : (sortedSet values).Nodup :=
  (perm_insertionSort _ _).nodup_iff.mpr (nodup_eraseDups values)

theorem sortedSet_pairwise (values : List β) : (sortedSet values).Pairwise (· < ·) := by
  have le := pairwise_insertionSort (· ≤ ·) values.eraseDups
  exact (le.and (nodup_sortedSet values)).imp fun h => lt_of_le_of_ne h.1 h.2

theorem sortedSet_eq_iff {l m : List β} : sortedSet l = sortedSet m ↔ ∀ x, x ∈ l ↔ x ∈ m := by
  constructor
  · intro same x
    rw [← mem_sortedSet l, ← mem_sortedSet m, same]
  · intro same
    apply (sortedSet_pairwise l).eq_of_mem_iff (sortedSet_pairwise m)
    intro x
    rw [mem_sortedSet, mem_sortedSet, same]

theorem sortedSet_constant {values : List β} {x : β} (all : ∀ y ∈ values, y = x)
    (some_ : values ≠ []) : sortedSet values = [x] := by
  have among : ∀ y ∈ sortedSet values, y = x := fun y member => all y ((mem_sortedSet values y).mp member)
  have distinct := nodup_sortedSet values
  obtain ⟨y, member⟩ := exists_mem_of_ne_nil values some_
  have listed := (mem_sortedSet values y).mpr member
  cases sorted : sortedSet values with
  | nil =>
    rw [sorted] at listed
    cases listed
  | cons first rest =>
    rw [sorted] at among distinct
    cases rest with
    | nil => rw [among first (mem_cons_self)]
    | cons second more =>
      have same := (among first (by simp)).trans (among second (by simp)).symm
      simp [same] at distinct

end SortedSet

section DedupeBy
variable {β κ : Type} [DecidableEq κ] (key : β → κ)

def addByKey (out : List β) (item : β) : List β :=
  if key item ∈ out.map key then out else out ++ [item]

def dedupeBy (items : List β) : List β := items.foldl (addByKey key) []

theorem key_mem_addByKey (out : List β) (item : β) (k : κ) :
    k ∈ (addByKey key out item).map key ↔ k ∈ out.map key ∨ k = key item := by
  simp only [addByKey]
  split
  next present =>
    constructor
    · exact Or.inl
    · rintro (h | rfl)
      · exact h
      · exact present
  next => simp

theorem key_mem_foldl_addByKey (items out : List β) (k : κ) :
    k ∈ (items.foldl (addByKey key) out).map key ↔ k ∈ out.map key ∨ k ∈ items.map key := by
  induction items generalizing out with
  | nil => simp
  | cons item rest ih =>
    rw [foldl_cons, ih, key_mem_addByKey, map_cons, mem_cons, or_assoc]

theorem key_mem_dedupeBy (items : List β) (k : κ) :
    k ∈ (dedupeBy key items).map key ↔ k ∈ items.map key := by
  simp [dedupeBy, key_mem_foldl_addByKey]

end DedupeBy

theorem lookup_filter_key {β κ : Type} [DecidableEq κ] (p : κ → Bool) (l : List (κ × β)) (k : κ) :
    (l.filter fun entry => p entry.1).lookup k = if p k then l.lookup k else none := by
  induction l with
  | nil => simp
  | cons entry rest ih =>
    by_cases same : k = entry.1
    · subst same
      by_cases kept : p entry.1 = true
      · rw [filter_cons_of_pos (by simpa using kept), if_pos kept]
        exact List.lookup_cons_self.trans List.lookup_cons_self.symm
      · simp [kept, ih]
    · have different : (k == entry.1) = false := by simpa using same
      by_cases kept : p entry.1 = true
      · rw [filter_cons_of_pos (by simpa using kept), lookup_cons, different,
          lookup_cons, different]
        exact ih
      · rw [filter_cons_of_neg (by simpa using kept), lookup_cons, different]
        exact ih

section Forall₂
variable {β γ : Type} {R : β → γ → Prop} {m : List γ}

theorem exists_left_of_forall₂ {l : List β} (h : List.Forall₂ R l m) {c : γ}
    (member : c ∈ m) : ∃ b ∈ l, R b c := by
  induction h with
  | nil => simp at member
  | cons related _ ih =>
    rcases mem_cons.mp member with rfl | member
    · exact ⟨_, mem_cons_self, related⟩
    · obtain ⟨b, hb, related⟩ := ih member
      exact ⟨b, mem_cons_of_mem _ hb, related⟩

theorem exists_right_of_forall₂ {l : List β} (h : List.Forall₂ R l m) {b : β}
    (member : b ∈ l) : ∃ c ∈ m, R b c :=
  exists_left_of_forall₂ h.flip member

theorem exists_forall₂ {l : List β} (each : ∀ b ∈ l, ∃ c, R b c) : ∃ m, List.Forall₂ R l m := by
  induction l with
  | nil => exact ⟨[], .nil⟩
  | cons b l ih =>
    rw [forall_mem_cons] at each
    obtain ⟨⟨c, related⟩, rest⟩ := each
    obtain ⟨m, all⟩ := ih rest
    exact ⟨c :: m, .cons related all⟩

theorem eq_nil_of_forall₂ {l : List β} (h : List.Forall₂ R l m) :
    l = [] ↔ m = [] := by
  rw [← length_eq_zero_iff, h.length_eq, length_eq_zero_iff]

variable {f : β → Option γ}

theorem mapM_eq_some_iff {l : List β} :
    l.mapM f = some m ↔ List.Forall₂ (fun b c => f b = some c) l m := by
  induction l generalizing m with
  | nil => cases m <;> simp
  | cons b l ih =>
    rw [mapM_cons]
    cases first : f b with
    | none => cases m <;> simp [first]
    | some c =>
      cases rest : l.mapM f with
      | none => cases m <;> simp [← ih, rest]
      | some later => cases m <;> simp [← ih, rest, first]

theorem mapM_eq_some_iff_map {l : List β} :
    l.mapM f = some m ↔ l.map f = m.map some := by
  rw [mapM_eq_some_iff, ← forall₂_eq_eq_eq, forall₂_map_left_iff, forall₂_map_right_iff]

theorem perm_map_of_mapM {δ : Type} {f g : β → Option γ} {read : γ → δ} {l k : List β}
    {m n : List γ} (perm : l.Perm k) (one : l.mapM f = some m) (two : k.mapM g = some n)
    (same : ∀ b ∈ l, (f b).map read = (g b).map read) : (m.map read).Perm (n.map read) := by
  have left : l.map (fun b => (f b).map read) = (m.map read).map some := by
    have out := congrArg (List.map (Option.map read)) (mapM_eq_some_iff_map.mp one)
    simpa [Function.comp_def] using out
  have right : k.map (fun b => (g b).map read) = (n.map read).map some := by
    have out := congrArg (List.map (Option.map read)) (mapM_eq_some_iff_map.mp two)
    simpa [Function.comp_def] using out
  have texts : ((m.map read).map some).Perm ((n.map read).map some) := by
    rw [← left, ← right, map_congr_left same]
    exact perm.map _
  exact (map_perm_map_iff (Option.some_injective _)).mp texts

variable {ε : Type}

theorem bind_eq_ok_iff {x : Except ε β} {f : β → Except ε γ} {c : γ} :
    x >>= f = .ok c ↔ ∃ b, x = .ok b ∧ f b = .ok c := by
  cases x with
  | error => exact ⟨nofun, fun ⟨_, same, _⟩ => nomatch same⟩
  | ok b => exact ⟨fun done => ⟨b, rfl, done⟩, fun ⟨_, same, done⟩ => by cases same; exact done⟩

theorem mapM_eq_ok_iff {f : β → Except ε γ} {l : List β} :
    l.mapM f = .ok m ↔ List.Forall₂ (fun b c => f b = .ok c) l m := by
  induction l generalizing m with
  | nil =>
    constructor
    · rintro ⟨⟩
      exact .nil
    · rintro ⟨⟩
      rfl
  | cons b l ih =>
    rw [mapM_cons]
    constructor
    · intro done
      cases first : f b with
      | error => rw [first] at done; cases done
      | ok c =>
        cases rest : l.mapM f with
        | error => rw [first, rest] at done; cases done
        | ok later =>
          rw [first, rest] at done
          cases done
          exact .cons first (ih.mp rest)
    · rintro ⟨⟩
      next first rest =>
        rw [first, ih.mpr rest]
        rfl

theorem forM_eq_ok_iff {f : β → Except ε Unit} {l : List β} :
    l.forM f = .ok () ↔ ∀ b ∈ l, f b = .ok () := by
  induction l with
  | nil => exact ⟨fun _ b member => (not_mem_nil member).elim, fun _ => rfl⟩
  | cons b l ih =>
    rw [forM_eq_forM] at ih ⊢
    rw [forM_cons, bind_eq_ok_iff, forall_mem_cons]
    simp only [ih]
    exact ⟨fun ⟨_, first, rest⟩ => ⟨first, rest⟩, fun ⟨first, rest⟩ => ⟨(), first, rest⟩⟩

theorem exists_of_foldlM_ok {f : γ → β → Except ε γ} {l : List β} {start out : γ}
    (ends : l.foldlM f start = .ok out) : ∀ b ∈ l, ∃ before after, f before b = .ok after := by
  induction l generalizing start with
  | nil => exact fun b member => (not_mem_nil member).elim
  | cons b l ih =>
    rw [foldlM_cons, bind_eq_ok_iff] at ends
    obtain ⟨next, first, rest⟩ := ends
    rw [forall_mem_cons]
    exact ⟨⟨start, next, first⟩, ih rest⟩

theorem mapM_congr_mem {f g : β → Option γ} {l : List β} (same : ∀ b ∈ l, f b = g b) :
    l.mapM f = l.mapM g := by
  induction l with
  | nil => rfl
  | cons b l ih =>
    have first := same b mem_cons_self
    have rest := ih fun c member => same c (mem_cons_of_mem b member)
    rw [mapM_cons, mapM_cons, first, rest]

theorem isSome_mapM_iff {l : List β} :
    (l.mapM f).isSome ↔ ∀ b ∈ l, (f b).isSome := by
  induction l with
  | nil => simp
  | cons b l ih =>
    rw [mapM_cons, forall_mem_cons, ← ih]
    cases f b <;> cases l.mapM f <;> simp

theorem forall₂_imp_mem {S : β → γ → Prop} {l : List β} (h : List.Forall₂ R l m)
    (imp : ∀ b c, b ∈ l → c ∈ m → R b c → S b c) : List.Forall₂ S l m := by
  induction h with
  | nil => exact .nil
  | cons related _ ih =>
    refine .cons (imp _ _ mem_cons_self mem_cons_self related) (ih fun b c hb hc => ?_)
    exact imp b c (mem_cons_of_mem _ hb) (mem_cons_of_mem _ hc)

theorem forall₂_append_iff {l₁ l₂ : List β} {m₁ m₂ : List γ} (length : l₁.length = m₁.length) :
    List.Forall₂ R (l₁ ++ l₂) (m₁ ++ m₂) ↔ List.Forall₂ R l₁ m₁ ∧ List.Forall₂ R l₂ m₂ := by
  constructor
  · intro h
    have first := forall₂_take l₁.length h
    have second := forall₂_drop l₁.length h
    rw [take_left] at first
    rw [drop_left] at second
    rw [length, take_left] at first
    rw [length, drop_left] at second
    exact ⟨first, second⟩
  · exact fun ⟨first, second⟩ => rel_append first second

theorem forall₂_zip {δ : Type} {l : List β} (h : List.Forall₂ R l m) (k : List δ) :
    List.Forall₂ (fun p q => R p.1 q.1 ∧ p.2 = q.2) (l.zip k) (m.zip k) := by
  induction h generalizing k with
  | nil => exact .nil
  | cons related _ ih =>
    cases k with
    | nil => exact .nil
    | cons x k => exact .cons ⟨related, rfl⟩ (ih k)

theorem forall₂_flatMap_iff {δ ε : Type} {P : δ → ε → Prop} {f : δ → List β} {g : ε → List γ}
    (length : ∀ a b, P a b → (f a).length = (g b).length) {l : List δ} {m : List ε}
    (each : List.Forall₂ P l m) :
    List.Forall₂ R (l.flatMap f) (m.flatMap g) ↔
      List.Forall₂ (fun a b => List.Forall₂ R (f a) (g b)) l m := by
  induction each with
  | nil => simp
  | cons related _ ih =>
    rw [flatMap_cons, flatMap_cons, forall₂_append_iff (length _ _ related), ih,
      forall₂_cons]

theorem exists_getElem?_of_forall₂ {l : List β} (h : List.Forall₂ R l m) {i : Nat} {b : β}
    (at_ : l[i]? = some b) : ∃ c, m[i]? = some c ∧ R b c := by
  induction h generalizing i with
  | nil => simp at at_
  | @cons b' c _ _ related _ ih =>
    cases i with
    | zero =>
      cases at_
      exact ⟨c, rfl, related⟩
    | succ i => exact ih at_

theorem exists_pairs_of_forall₂ {l : List β} (h : List.Forall₂ R l m) :
    ∃ pairs : List (β × γ), pairs.map (·.1) = l ∧ pairs.map (·.2) = m ∧
      ∀ pair ∈ pairs, R pair.1 pair.2 := by
  induction h with
  | nil => exact ⟨[], rfl, rfl, nofun⟩
  | @cons b c _ _ related _ ih =>
    obtain ⟨pairs, left, right, each⟩ := ih
    refine ⟨(b, c) :: pairs, by rw [map_cons, left], by rw [map_cons, right], ?_⟩
    exact forall_mem_cons.mpr ⟨related, each⟩

end Forall₂

theorem lookup_of_nodup {β κ : Type} [DecidableEq κ] {l : List (κ × β)} {entry : κ × β}
    (distinct : (l.map (·.1)).Nodup) (member : entry ∈ l) :
    l.lookup entry.1 = some entry.2 := by
  induction l with
  | nil => simp at member
  | cons head l ih =>
    rw [map_cons, nodup_cons] at distinct
    rcases mem_cons.mp member with rfl | member
    · exact List.lookup_cons_self
    · have apart : (entry.1 == head.1) = false := by
        rw [beq_eq_false_iff_ne]
        exact fun same => distinct.1 (same ▸ mem_map_of_mem member)
      rw [lookup_cons, apart]
      exact ih distinct.2 member

end Collections
