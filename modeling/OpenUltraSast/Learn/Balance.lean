import OpenUltraSast.Learn.Retrieve
import OpenUltraSast.Library.Greedy

/-!
# The balanced set

The balance rule is a greedy choice under three caps. It can miss a full set, where that set passes
over a better ranked example for which there is room.
-/

namespace OpenUltraSast.Learn.Retrieve

open Collections Examples List

def labelled (label : Int) (selection : List Example) : Nat := selection.countP (·.label = label)

def grouped (group : String) (selection : List Example) : Nat := selection.countP (·.group = group)

def othersOf (family : String) (selection : List Example) : Nat :=
  selection.countP (·.family ≠ family)

def HoldsFamily (ranked : List Example) (family : String) : Prop := ∃ e ∈ ranked, e.family = family

instance {ranked : List Example} {family : String} : Decidable (HoldsFamily ranked family) :=
  inferInstanceAs (Decidable (∃ e ∈ ranked, e.family = family))

structure WithinCaps (ranked : List Example) (family : String) (k : Nat)
    (selection : List Example) : Prop where
  sublist : selection.Sublist ranked
  labels : ∀ label, labelled label selection ≤ k / 2
  groups : ∀ group, grouped group selection ≤ perGroup
  others : HoldsFamily ranked family → othersOf family selection ≤ contrast

/-- One of `k` members, with the required minimum of each label that the list has. -/
structure Full (ranked : List Example) (family : String) (k : Nat) (selection : List Example) : Prop
    extends WithinCaps ranked family k selection where
  size : selection.length = k
  minima : ∀ label ∈ ([0, 1] : List Int), (∃ e ∈ ranked, e.label = label) →
    min 2 (k / 2) ≤ labelled label selection

def LeavesRoom (ranked : List Example) (family : String) (k : Nat) (taken : List Example)
    (e : Example) : Prop :=
  taken.length < k ∧ labelled e.label taken < k / 2 ∧ grouped e.group taken < perGroup ∧
    (HoldsFamily ranked family → e.family ≠ family → othersOf family taken < contrast)

instance {ranked : List Example} {family : String} {k : Nat} {taken : List Example} {e : Example} :
    Decidable (LeavesRoom ranked family k taken e) := by
  unfold LeavesRoom
  infer_instance

theorem labelled_append (label : Int) (taken : List Example) (e : Example) :
    labelled label (taken ++ [e]) = labelled label taken + if e.label = label then 1 else 0 := by
  simp [labelled, countP_append, countP_singleton]

theorem grouped_append (group : String) (taken : List Example) (e : Example) :
    grouped group (taken ++ [e]) = grouped group taken + if e.group = group then 1 else 0 := by
  simp [grouped, countP_append, countP_singleton]

theorem othersOf_append (family : String) (taken : List Example) (e : Example) :
    othersOf family (taken ++ [e]) = othersOf family taken + if e.family ≠ family then 1 else 0 := by
  simp [othersOf, countP_append, countP_singleton]

variable {ranked : List Example} {family : String} {k : Nat}

theorem WithinCaps.leavesRoom {selection before after : List Example} {e : Example}
    (within : WithinCaps ranked family k selection) (size : selection.length ≤ k)
    (split : selection = before ++ e :: after) : LeavesRoom ranked family k before e := by
  -- what the caps bound in the selection they bound in the piece of it up to `e`
  have part : (before ++ [e]).Sublist selection := by
    rw [split, append_cons before e after]
    exact sublist_append_left _ _
  refine ⟨?_, ?_, ?_, ?_⟩
  · have whole := congrArg List.length split
    rw [length_append, length_cons] at whole
    omega
  · have bound : labelled e.label (before ++ [e]) ≤ k / 2 :=
      part.countP_le.trans (within.labels e.label)
    rw [labelled_append, if_pos rfl] at bound
    omega
  · have bound : grouped e.group (before ++ [e]) ≤ perGroup :=
      part.countP_le.trans (within.groups e.group)
    rw [grouped_append, if_pos rfl] at bound
    omega
  · intro holds other
    have bound : othersOf family (before ++ [e]) ≤ contrast :=
      part.countP_le.trans (within.others holds)
    rw [othersOf_append, if_pos other] at bound
    omega

/-- The counts of the loop are those of what it has taken. -/
structure Taking.Tallied (family : String) (t : Taking) : Prop where
  labels : ∀ label, (t.labels.lookup label).getD 0 = labelled label t.taken
  groups : ∀ group, (t.groups.lookup group).getD 0 = grouped group t.taken
  others : t.others = othersOf family t.taken

theorem tallied_start (family : String) : ({} : Taking).Tallied family :=
  ⟨fun _ => rfl, fun _ => rfl, rfl⟩

theorem Taking.Tallied.add {t : Taking} (tallied : t.Tallied family) (e : Example) :
    (t.add family e).Tallied family := by
  constructor
  · intro label
    rw [Taking.add, labelled_append, ← tallied.labels label, Dicts.lookup_set]
    by_cases same : e.label = label
    · simp [same]
    · simp [same, Ne.symm same]
  · intro group
    rw [Taking.add, grouped_append, ← tallied.groups group, Dicts.lookup_set]
    by_cases same : e.group = group
    · simp [same]
    · simp [same, Ne.symm same]
  · rw [Taking.add, othersOf_append, ← tallied.others]

theorem lt_otherCap_iff {taken : List Example} (size : taken.length < k) :
    othersOf family taken < otherCap ranked family k ↔
      (HoldsFamily ranked family → othersOf family taken < contrast) := by
  -- without the target's family the loop's cap is `k`, which a shorter list cannot reach
  have few : othersOf family taken ≤ taken.length := countP_le_length
  have holds : ranked.any (fun e => decide (e.family = family)) = true ↔ HoldsFamily ranked family := by
    simp [HoldsFamily]
  rw [otherCap]
  by_cases own : HoldsFamily ranked family
  · rw [if_pos (holds.mpr own), lt_min_iff]
    exact ⟨fun both _ => both.1, fun below => ⟨below own, by omega⟩⟩
  · rw [if_neg (mt holds.mp own)]
    exact ⟨fun _ held => absurd held own, fun _ => by omega⟩

/-- The pass keeps its tallies and chooses greedily what leaves room. -/
theorem takeFrom_spec {t : Taking} (tallied : t.Tallied family) (size : t.taken.length ≤ k)
    (rest : List Example) :
    (takeFrom family k (otherCap ranked family k) t rest).Tallied family ∧
      (takeFrom family k (otherCap ranked family k) t rest).taken =
        Greedy.choose (LeavesRoom ranked family k) t.taken rest := by
  -- the counts of the loop stay those of what it has taken
  induction rest generalizing t with
  | nil => exact ⟨tallied, rfl⟩
  | cons e rest ih =>
    rw [takeFrom, Greedy.choose, tallied.labels, tallied.groups]
    by_cases full : t.taken.length = k
    · -- The loop is left, and no example has room any more.
      rw [if_pos full, if_neg fun room => absurd room.1 (by omega)]
      refine ⟨tallied, ?_⟩
      have still : ∀ rest, Greedy.choose (LeavesRoom ranked family k) t.taken rest = t.taken := by
        intro rest
        induction rest with
        | nil => rfl
        | cons e rest ih => rw [Greedy.choose, if_neg fun room => absurd room.1 (by omega), ih]
      exact (still rest).symm
    · have below : t.taken.length < k := by omega
      have cap := @lt_otherCap_iff ranked family k t.taken below
      rw [if_neg full, tallied.others]
      by_cases other : e.family ≠ family ∧ otherCap ranked family k ≤ othersOf family t.taken
      · -- passed over for its family, which the rule has no room for either
        rw [if_pos other, if_neg]
        · exact ih tallied size
        · intro room
          exact absurd (cap.mpr fun holds => room.2.2.2 holds other.1) (by omega)
      · rw [if_neg other]
        have open_ : HoldsFamily ranked family → e.family ≠ family →
            othersOf family t.taken < contrast := fun holds differs =>
          cap.mp (by by_contra full; exact other ⟨differs, by omega⟩) holds
        -- the family is no obstacle, so the loop and the rule ask for the other two caps alone
        by_cases fits : labelled e.label t.taken < k / 2 ∧ grouped e.group t.taken < perGroup
        · rw [if_pos fits, if_pos ⟨below, fits.1, fits.2, open_⟩]
          refine ih (tallied.add e) ?_
          rw [Taking.add, length_append, length_singleton]
          omega
        · rw [if_neg fits, if_neg fun room => fits ⟨room.2.1, room.2.2.1⟩]
          exact ih tallied size

theorem balance_fst (ranked : List Example) (family : String) (k : Nat) :
    (balance ranked family k).1 = Greedy.choose (LeavesRoom ranked family k) [] ranked :=
  (takeFrom_spec (tallied_start family) (Nat.zero_le k) ranked).2

/-- What is taken is within the caps. -/
theorem balance_within (ranked : List Example) (family : String) (k : Nat) :
    WithinCaps ranked family k (balance ranked family k).1 ∧ (balance ranked family k).1.length ≤ k := by
  rw [balance_fst]
  have kept := @Greedy.choose_induction Example (LeavesRoom ranked family k) _
    (fun taken => (∀ label, labelled label taken ≤ k / 2) ∧
      (∀ group, grouped group taken ≤ perGroup) ∧
      (HoldsFamily ranked family → othersOf family taken ≤ contrast) ∧ taken.length ≤ k) ?_ ranked []
    ⟨fun _ => Nat.zero_le _, fun _ => Nat.zero_le _, fun _ => Nat.zero_le _, Nat.zero_le _⟩
  · obtain ⟨labels, groups, others, size⟩ := kept
    exact ⟨⟨Greedy.choose_sublist ranked, labels, groups, others⟩, size⟩
  · -- one more member keeps each cap, because there was room for it under that cap
    rintro taken e ⟨labels, groups, others, size⟩ ⟨below, label, group, other⟩
    refine ⟨fun l => ?_, fun g => ?_, fun holds => ?_, ?_⟩
    · rw [labelled_append]
      by_cases same : e.label = l
      · rw [if_pos same, ← same]
        omega
      · rw [if_neg same]
        exact labels l
    · rw [grouped_append]
      by_cases same : e.group = g
      · rw [if_pos same, ← same]
        omega
      · rw [if_neg same]
        exact groups g
    · rw [othersOf_append]
      by_cases same : e.family = family
      · rw [if_neg (not_not_intro same)]
        exact others holds
      · rw [if_pos same]
        exact other holds same
    · rw [length_append, length_singleton]
      omega

/-- The balance is short exactly where what it took is no full set. -/
theorem balance_snd_short_iff :
    (balance ranked family k).2 = .short ↔ ¬ Full ranked family k (balance ranked family k).1 := by
  obtain ⟨within, size⟩ := balance_within ranked family k
  have tallied := (@takeFrom_spec ranked family k {} (tallied_start family) (Nat.zero_le k) ranked).1
  have short : (balance ranked family k).2 = .short ↔ (balance ranked family k).1.length < k ∨
      ∃ label ∈ ([0, 1] : List Int), label ∈ ranked.map (·.label) ∧
        labelled label (balance ranked family k).1 < min 2 (k / 2) := by
    simp only [balance, tallied.labels]
    split
    next is => exact iff_of_true rfl is
    next is => exact iff_of_false (by simp) is
  rw [short]
  constructor
  · rintro (few | ⟨label, binary, present, low⟩) full
    · exact absurd full.size (by omega)
    · exact absurd (full.minima label binary (mem_map.mp present)) (by omega)
  · intro notFull
    by_contra none_
    rw [not_or, not_exists] at none_
    refine notFull ⟨within, by omega, fun label binary present => ?_⟩
    by_contra low
    exact none_.2 label ⟨binary, mem_map.mpr present, by omega⟩

theorem balance_of_steady {selection : List Example} (full : Full ranked family k selection)
    (steady : Greedy.Steady (LeavesRoom ranked family k) [] ranked selection) :
    (balance ranked family k).1 = selection := by
  rw [balance_fst, Greedy.choose_of_steady steady, nil_append]
  intro before e after split
  exact full.toWithinCaps.leavesRoom full.size.le split

/-- What is taken keeps to the caps, and it is short only if there is no full set. -/
def FullAsCaps (ranked : List Example) (family : String) (k : Nat) : Prop :=
  WithinCaps ranked family k (balance ranked family k).1 ∧
    ((balance ranked family k).2 = .short → ¬ ∃ selection, Full ranked family k selection)

/-- The balanced set is as full as the caps allow if and only if a full set, if there is one, can be
had without passing over an example for which the better ranked members leave room. -/
theorem balance_full_iff (ranked : List Example) (family : String) (k : Nat) :
    FullAsCaps ranked family k ↔
      ((∃ selection, Full ranked family k selection) →
        ∃ selection, Full ranked family k selection ∧
          Greedy.Steady (LeavesRoom ranked family k) [] ranked selection) := by
  constructor
  · rintro ⟨-, short⟩ some_
    -- what is taken is then full, and a greedy choice passes over nothing without need
    have full : Full ranked family k (balance ranked family k).1 := by
      by_contra notFull
      exact short (balance_snd_short_iff.mpr notFull) some_
    obtain ⟨selection, chosen, steady⟩ :=
      Greedy.steady_choose (LeavesRoom ranked family k) [] ranked
    rw [nil_append, ← balance_fst] at chosen
    exact ⟨selection, chosen ▸ full, steady⟩
  · intro steadily
    refine ⟨(balance_within ranked family k).1, fun short some_ => ?_⟩
    obtain ⟨selection, full, steady⟩ := steadily some_
    -- a full set without a needless pass is the choice of the loop, so that is not short
    rw [← balance_of_steady full steady] at full
    exact balance_snd_short_iff.mp short full

def rankedCase (family : String) (label : Int) (group : String) : Example where
  id := group
  group := group
  source := "pairs"
  frameworks := []
  family := family
  label := label
  language := "python"
  profile := .static
  unit := "pin"
  x := []
  instruments := []
  roles := []
  excerptSha := group
  license := ""

/-- Two safe contrast examples first, then three safe and one vulnerable of the target's family, and
two vulnerable contrast examples. -/
def contrastFirst : List Example :=
  [rankedCase "xss" 0 "a", rankedCase "xss" 0 "b", rankedCase "sqli" 0 "c", rankedCase "sqli" 0 "d",
    rankedCase "sqli" 0 "e", rankedCase "sqli" 1 "f", rankedCase "xss" 1 "g", rankedCase "xss" 1 "h"]

/-- The last six are a full set, and four are taken. -/
theorem contrastFirst_not_full : ¬ FullAsCaps contrastFirst "sqli" 6 := by
  rintro ⟨-, short⟩
  refine short (by decide) ⟨contrastFirst.drop 2, ⟨⟨drop_sublist 2 _, ?_, ?_, ?_⟩, rfl, ?_⟩⟩
  · intro label
    -- a label that is neither has no example
    by_cases safe : label = 0
    · subst safe; decide
    · by_cases vulnerable : label = 1
      · subst vulnerable; decide
      · simp [labelled, contrastFirst, rankedCase, Ne.symm safe, Ne.symm vulnerable]
  · intro group
    -- the groups are different ones
    have distinct : ((contrastFirst.drop 2).map (·.group)).Nodup := by decide
    have once := nodup_iff_count_le_one.mp distinct group
    rw [count_eq_countP, countP_map] at once
    exact once.trans (by decide)
  · intro _
    decide
  · decide

end OpenUltraSast.Learn.Retrieve
