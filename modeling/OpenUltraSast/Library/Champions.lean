import Mathlib.Data.List.Induction
import OpenUltraSast.Library.Dicts

/-!
# Champions

Of the items of each key the one of the highest rank is kept, and the first of them where several are.
-/

namespace Champions

open List

variable {α κ ρ : Type} [LinearOrder ρ] (key : α → κ) (rank : α → ρ)

def Top (items : List α) (a : α) : Prop := a ∈ items ∧ ∀ b ∈ items, key b = key a → rank b ≤ rank a

section Top
variable {key rank} {items : List α}

theorem Top.congr {others : List α} (same : ∀ a, a ∈ others ↔ a ∈ items) (a : α) :
    Top key rank others a ↔ Top key rank items a := by
  simp only [Top, same]

theorem Top.append {a b : α} (top : Top key rank items a) (low : key b = key a → rank b ≤ rank a) :
    Top key rank (items ++ [b]) a := by
  refine ⟨mem_append_left _ top.1, fun c member => ?_⟩
  rcases mem_append.mp member with member | member
  · exact top.2 c member
  · rw [mem_singleton.mp member]
    exact low

end Top

variable [DecidableEq κ]

def challenge (held : List (κ × α)) (a : α) : List (κ × α) :=
  match held.lookup (key a) with
  | none => Dicts.set held (key a) a
  | some champion => if rank champion < rank a then Dicts.set held (key a) a else held

def champions (items : List α) : List (κ × α) := items.foldl (challenge key rank) []

structure Crowned (items : List α) (held : List (κ × α)) : Prop where
  distinct : (Dicts.keys held).Nodup
  top : ∀ k a, held.lookup k = some a → key a = k ∧ Top key rank items a
  total : ∀ a ∈ items, ∃ champion, held.lookup (key a) = some champion

theorem challenge_cases (held : List (κ × α)) (a : α) :
    (challenge key rank held a = held ∧
        ∃ champion, held.lookup (key a) = some champion ∧ rank a ≤ rank champion) ∨
      (challenge key rank held a = Dicts.set held (key a) a ∧
        ∀ champion, held.lookup (key a) = some champion → rank champion < rank a) := by
  rw [challenge]
  cases found : held.lookup (key a) with
  | none => exact .inr ⟨rfl, nofun⟩
  | some champion =>
    by_cases lower : rank champion < rank a
    · refine .inr ⟨if_pos lower, ?_⟩
      rintro _ ⟨⟩
      exact lower
    · exact .inl ⟨if_neg lower, champion, rfl, not_lt.mp lower⟩

variable {key rank} {items : List α} {held : List (κ × α)}

/-- One challenge keeps the best of each key, the first of equals. -/
theorem Crowned.challenge (crowned : Crowned key rank items held) (a : α) :
    Crowned key rank (items ++ [a]) (challenge key rank held a) := by
  rcases challenge_cases key rank held a with
    ⟨same, champion, found, high⟩ | ⟨same, low⟩
  · -- the champion of the key stays, and the new item does not rank above it
    rw [same]
    refine ⟨crowned.distinct, fun k b at_ => ?_, fun b member => ?_⟩
    · obtain ⟨rfl, top⟩ := crowned.top k b at_
      refine ⟨rfl, top.append fun own => ?_⟩
      rw [own, at_] at found
      cases found
      exact high
    · rcases mem_append.mp member with member | member
      · exact crowned.total b member
      · rw [mem_singleton.mp member]
        exact ⟨champion, found⟩
  · -- the new item ranks above the champion of its key, and so above all items of the key
    rw [same]
    refine ⟨Dicts.nodup_set crowned.distinct _ _, fun k b at_ => ?_, fun b member => ?_⟩
    · rw [Dicts.lookup_set] at at_
      split at at_
      next own =>
        cases at_
        refine ⟨own.symm, mem_append_right _ (mem_singleton_self a), fun c member alike => ?_⟩
        rcases mem_append.mp member with member | member
        · obtain ⟨champion, found⟩ := crowned.total c member
          have high := (crowned.top _ _ found).2.2 c member (crowned.top _ _ found).1.symm
          rw [alike] at found
          exact high.trans (low champion found).le
        · rw [mem_singleton.mp member]
      next other =>
        obtain ⟨rfl, top⟩ := crowned.top k b at_
        exact ⟨rfl, top.append fun own => absurd own.symm other⟩
    · rw [Dicts.lookup_set]
      by_cases own : key b = key a
      · exact ⟨a, if_pos own⟩
      · rw [if_neg own]
        rcases mem_append.mp member with member | member
        · exact crowned.total b member
        · exact absurd (congrArg key (mem_singleton.mp member)) own

theorem champions_crowned (items : List α) : Crowned key rank items (champions key rank items) := by
  induction items using List.reverseRecOn with
  | nil => exact ⟨nodup_nil, nofun, nofun⟩
  | append_singleton items a ih =>
    rw [champions, foldl_append]
    exact ih.challenge a

variable {a : α}

theorem lookup_champions_cons {rest : List α} (top : Top key rank (a :: rest) a) :
    (champions key rank (a :: rest)).lookup (key a) = some a := by
  -- an item that is held stays so as long as no later one of its key ranks higher
  have stays : ∀ (rest : List α) (held : List (κ × α)),
      (∀ b ∈ rest, key b = key a → rank b ≤ rank a) → held.lookup (key a) = some a →
      (rest.foldl (Champions.challenge key rank) held).lookup (key a) = some a := by
    intro rest
    induction rest with
    | nil => exact fun held _ found => found
    | cons b rest ih =>
      intro held low found
      rw [forall_mem_cons] at low
      refine ih _ low.2 ?_
      rcases challenge_cases key rank held b with ⟨same, -⟩ | ⟨same, higher⟩
      · rw [same]
        exact found
      · rw [same, Dicts.lookup_set]
        split
        next own =>
          rw [own] at found
          exact absurd (low.1 own.symm) (not_le.mpr (higher a found))
        next => exact found
  refine stays rest _ (fun b member => top.2 b (mem_cons_of_mem _ member)) ?_
  simp [challenge]

theorem nodup_champions : (Dicts.keys (champions key rank items)).Nodup :=
  (champions_crowned items).distinct

theorem top_of_mem_champions {k : κ} (held : (k, a) ∈ champions key rank items) :
    key a = k ∧ Top key rank items a :=
  (champions_crowned items).top k a (Collections.lookup_of_nodup nodup_champions held)

theorem exists_champion (member : a ∈ items) :
    ∃ champion, (key a, champion) ∈ champions key rank items := by
  have crowned : Crowned key rank items (champions key rank items) := champions_crowned items
  obtain ⟨champion, found⟩ := crowned.total a member
  exact ⟨champion, Dicts.mem_of_lookup found⟩

theorem mem_champions_cons {rest : List α} (top : Top key rank (a :: rest) a) :
    (key a, a) ∈ champions key rank (a :: rest) :=
  Dicts.mem_of_lookup (lookup_champions_cons top)

end Champions
