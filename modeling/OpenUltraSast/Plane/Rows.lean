import OpenUltraSast.Plane.Memory

/-!
# Stored rows

Normalising fills the queryable fields with texts and touches nothing else; a stored line is normal
and reads back as itself.
-/

namespace OpenUltraSast.Plane.Memory

open Values List Option

theorem lastWith_append (name : String) (l m : List Row) :
    lastWith name (l ++ m) = (lastWith name m).or (lastWith name l) := by
  rw [lastWith, reverse_append, List.find?_append]
  rfl

theorem lastWith_cons (name : String) (row : Row) (l : List Row) :
    lastWith name (row :: l) =
      (lastWith name l).or (if idOf row = name then some row else none) := by
  rw [← singleton_append, lastWith_append]
  congr 1
  simp only [lastWith, reverse_singleton, List.find?_singleton, decide_eq_true_eq]

theorem lastWith_map {f : Row → Row} (same : ∀ row, idOf (f row) = idOf row) (name : String)
    (l : List Row) : lastWith name (l.map f) = (lastWith name l).map f := by
  induction l with
  | nil => rfl
  | cons row l ih =>
    rw [map_cons, lastWith_cons, lastWith_cons, ih, same]
    cases lastWith name l with
    | some later => rfl
    | none => by_cases here : idOf row = name <;> simp [here]

private theorem lastWith_filter (kept : String → Bool) (name : String) (l : List Row) :
    lastWith name (l.filter fun row => kept (idOf row)) =
      if kept name then lastWith name l else none := by
  induction l with
  | nil => simp [lastWith]
  | cons row l ih =>
    rw [lastWith_cons, filter_cons]
    by_cases here : idOf row = name
    · subst here
      by_cases keep : kept (idOf row) = true
      · rw [if_pos keep, lastWith_cons, ih, if_pos keep, if_pos keep]
      · rw [if_neg keep, ih, if_neg keep, if_neg keep]
    · by_cases keep : kept (idOf row) = true
      · rw [if_pos keep, lastWith_cons, ih, if_neg here, or_none, or_none]
      · rw [if_neg keep, ih, if_neg here, or_none]

variable {row : Row}

variable {name : String} {out : Row} {stored : List Row}

theorem mem_of_lastWith {l : List Row} (last : lastWith name l = some row) :
    row ∈ l ∧ idOf row = name := by
  have member := mem_of_find?_eq_some last
  have named := List.find?_some last
  exact ⟨mem_reverse.mp member, by simpa using named⟩

theorem lastWith_filterMap {f : String → Option Row}
    (named : ∀ name row, f name = some row → idOf row = name) (names : List String)
    (name : String) :
    lastWith name (names.filterMap f) = if name ∈ names then f name else none := by
  induction names with
  | nil => rfl
  | cons first names ih =>
    cases value : f first with
    | none =>
      rw [filterMap_cons_none value, ih]
      by_cases here : name = first
      · subst here
        simp [value]
      · simp [here]
    | some row =>
      rw [filterMap_cons_some value, lastWith_cons, ih, named first row value]
      by_cases here : name = first
      · subst here
        by_cases again : name ∈ names <;> simp [value, again]
      · simp [here, Ne.symm here]

/-- Each queryable field is a text. -/
def Normal (row : Row) : Prop := ∀ name ∈ queryable, ∃ value, row.lookup name = some (.str value)

structure Settled (row : Row) : Prop where
  normal : Normal row
  ordered : line row = row

theorem lookup_setField (row : Row) (name other : String) (value : Json) :
    (setField row name value).lookup other =
      if other = name then some value else row.lookup other := by
  unfold setField
  split
  next present =>
    induction row with
    | nil => simp at present
    | cons entry row ih =>
      obtain ⟨key, old⟩ := entry
      rw [map_cons]
      by_cases here : key = name
      · subst here
        by_cases asked : other = key
        · subst asked
          simp
        · -- The rest of the row has the name again or not; neither changes the other key.
          have rest : (row.map fun entry => if entry.1 = key then (key, value) else entry).lookup
              other = row.lookup other := by
            clear present ih
            induction row with
            | nil => rfl
            | cons entry row ih =>
              obtain ⟨next, old⟩ := entry
              rw [map_cons]
              by_cases again : next = key
              · subst again
                rw [if_pos rfl, lookup_cons, lookup_cons, ih,
                  beq_eq_false_iff_ne.mpr asked]
              · rw [if_neg again, lookup_cons, lookup_cons, ih]
          rw [if_pos rfl, lookup_cons, rest, if_neg asked, lookup_cons,
            beq_eq_false_iff_ne.mpr asked]
      · have later : name ∈ row.map (·.1) := by
          rw [map_cons, mem_cons] at present
          exact present.resolve_left (Ne.symm here)
        rw [if_neg here, lookup_cons, ih later, lookup_cons]
        by_cases asked : other = key
        · subst asked
          simp [here]
        · simp [beq_eq_false_iff_ne.mpr asked]
  next absent =>
    rw [lookup_append]
    by_cases asked : other = name
    · subst asked
      have missing : row.lookup other = none := by
        rw [List.lookup_eq_none_iff]
        intro entry member
        rw [bne_iff_ne]
        exact fun same => absent (same ▸ mem_map_of_mem member)
      rw [missing, if_pos rfl]
      simp
    · rw [if_neg asked, lookup_cons, beq_eq_false_iff_ne.mpr asked]
      simp

theorem normaliseField_ok (filled : normaliseField row name = .ok out) :
    (∃ value, out.lookup name = some (.str value)) ∧
      ∀ other, other ≠ name → out.lookup other = row.lookup other := by
  unfold normaliseField at filled
  have blank : Except.ok (setField row name (.str "")) = Except.ok (ε := MemoryStoreError) out →
      (∃ value, out.lookup name = some (.str value)) ∧
        ∀ other, other ≠ name → out.lookup other = row.lookup other := by
    intro same
    cases same
    constructor
    · exact ⟨"", by rw [lookup_setField, if_pos rfl]⟩
    · intro other apart
      rw [lookup_setField, if_neg apart]
  cases found : row.lookup name with
  | none => exact blank (by rw [found] at filled; exact filled)
  | some value =>
    rw [found] at filled
    cases value with
    | null => exact blank filled
    | str value =>
      cases filled
      exact ⟨⟨value, found⟩, fun _ _ => rfl⟩
    | _ => cases filled

theorem foldlM_normaliseField {names : List String} (filled : names.foldlM normaliseField row = .ok out) :
    (∀ name ∈ names, ∃ value, out.lookup name = some (.str value)) ∧
      ∀ other ∉ names, out.lookup other = row.lookup other := by
  induction names generalizing row with
  | nil =>
    cases filled
    exact ⟨by simp, fun _ _ => rfl⟩
  | cons name names ih =>
    rw [foldlM_cons] at filled
    cases first : normaliseField row name with
    | error => rw [first] at filled; cases filled
    | ok next =>
      rw [first] at filled
      obtain ⟨texts, others⟩ := ih filled
      obtain ⟨text, same⟩ := normaliseField_ok first
      constructor
      · intro asked member
        by_cases later : asked ∈ names
        · exact texts asked later
        · have here : asked = name := (mem_cons.mp member).resolve_right later
          rw [here] at later ⊢
          rw [others name later]
          exact text
      · intro other absent
        rw [mem_cons, not_or] at absent
        rw [others other absent.2, same other absent.1]

section
variable (filled : normaliseRow row = .ok out)
include filled

theorem normal_of_normaliseRow : Normal out :=
  (foldlM_normaliseField filled).1

theorem lookup_normaliseRow (other : name ∉ queryable) :
    out.lookup name = row.lookup name :=
  (foldlM_normaliseField filled).2 name other

theorem idOf_normaliseRow : idOf out = idOf row := by
  unfold idOf text
  rw [lookup_normaliseRow filled (by decide)]

end

private theorem normaliseRow_of_normal (normal : Normal row) : normaliseRow row = .ok row := by
  have each : ∀ names, names ⊆ queryable → names.foldlM normaliseField row = .ok row := by
    intro names
    induction names with
    | nil => exact fun _ => rfl
    | cons name names ih =>
      intro among
      obtain ⟨value, found⟩ := normal name (among mem_cons_self)
      have kept : normaliseField row name = .ok row := by
        unfold normaliseField
        rw [found]
      rw [foldlM_cons, kept]
      exact ih fun _ member => among (mem_cons_of_mem _ member)
  exact each queryable fun _ member => member

private theorem normalised_of_normal (normal : Normal row) : normalised row = row := by
  rw [normalised, normaliseRow_of_normal normal]
  rfl

theorem idOf_normalised (row : Row) : idOf (normalised row) = idOf row := by
  unfold normalised
  cases filled : normaliseRow row with
  | error => rfl
  | ok out => exact idOf_normaliseRow filled

theorem lookup_line (row : Row) (name : String) :
    (line row).lookup name = (row.lookup name).map Json.sorted := by
  rw [line, lookup_inKeyOrder, lookup_sortedValues]

private theorem line_line (row : Row) : line (line row) = line row := by
  unfold line
  rw [Json.sortedValues_inKeyOrder, Json.inKeyOrder_idem, Json.sortedValues_idem]

theorem text_line (row : Row) (name : String) : text (line row) name = text row name := by
  unfold text
  rw [lookup_line]
  cases row.lookup name with
  | none => rfl
  | some value => cases value <;> rfl

theorem idOf_line (row : Row) : idOf (line row) = idOf row := text_line row "id"

private theorem settled_line (normal : Normal row) : Settled (line row) := by
  constructor
  · intro name member
    obtain ⟨value, found⟩ := normal name member
    exact ⟨value, by rw [lookup_line, found]; rfl⟩
  · exact line_line row

theorem line_normalised (settled : Settled row) : line (normalised row) = row := by
  rw [normalised_of_normal settled.normal, settled.ordered]

variable {new : List Row}

theorem idOf_merged
    (value : ((lastWith name new).or ((lastWith name stored).map normalised)).map line = some row) :
    idOf row = name := by
  obtain ⟨source, found, rfl⟩ := map_eq_some_iff.mp value
  rw [idOf_line]
  rcases or_eq_some_iff.mp found with delivered | ⟨_, older⟩
  · exact (mem_of_lastWith delivered).2
  · obtain ⟨row, last, rfl⟩ := map_eq_some_iff.mp older
    rw [idOf_normalised]
    exact (mem_of_lastWith last).2

section
variable (settled : ∀ row ∈ stored, Settled row)
include settled

/-- After a merge the row of an id is the new one, or else the stored one. -/
theorem lastWith_mergeRows (new : List Row) (name : String) :
    lastWith name (mergeRows stored new) =
      ((lastWith name new).map line).or (lastWith name stored) := by
  have rewritten : ((lastWith name stored).map normalised).map line = lastWith name stored := by
    cases last : lastWith name stored with
    | none => rfl
    | some row =>
      have settledRow := settled row (mem_of_lastWith last).1
      rw [map_some, map_some, line_normalised settledRow]
  rw [mergeRows, lastWith_filterMap fun _ _ => idOf_merged]
  have value : ((lastWith name new).or ((lastWith name stored).map normalised)).map line =
      ((lastWith name new).map line).or (lastWith name stored) := by
    rw [map_or, rewritten]
  split
  next => exact value
  next absent =>
    -- An id that occurs nowhere has no row on either side.
    have none_of (l : List Row) (sub : l ⊆ stored ++ new) : lastWith name l = none := by
      rw [eq_none_iff_forall_ne_some]
      intro row last
      obtain ⟨member, rfl⟩ := mem_of_lastWith last
      exact absent ((Collections.mem_sortedSet _ _).mpr (mem_map_of_mem (sub member)))
    rw [none_of new (subset_append_right _ _), none_of stored (subset_append_left _ _)]
    rfl

theorem mem_mergeRows
    (member : row ∈ mergeRows stored new) : row ∈ stored ∨ ∃ source ∈ new, row = line source := by
  obtain ⟨name, -, value⟩ := mem_filterMap.mp member
  obtain ⟨source, found, rfl⟩ := map_eq_some_iff.mp value
  rcases or_eq_some_iff.mp found with delivered | ⟨_, older⟩
  · exact .inr ⟨source, (mem_of_lastWith delivered).1, rfl⟩
  · obtain ⟨row, last, rfl⟩ := map_eq_some_iff.mp older
    have among := (mem_of_lastWith last).1
    rw [line_normalised (settled row among)]
    exact .inl among

theorem settled_mergeRows
    (normal : ∀ row ∈ new, Normal row) : ∀ row ∈ mergeRows stored new, Settled row := by
  intro row member
  rcases mem_mergeRows settled member with among | ⟨source, among, rfl⟩
  · exact settled row among
  · exact settled_line (normal source among)

theorem keepRows_eq (ids : List String) :
    keepRows stored ids = stored.filter fun row => idOf row ∉ ids := by
  unfold keepRows
  simp only
  split
  next same => exact (filter_eq_self.mpr (length_filter_eq_length_iff.mp same)).symm
  next =>
    have each : ∀ row ∈ stored.filter fun row => idOf row ∉ ids, line (normalised row) = row :=
      fun row member => line_normalised (settled row (mem_of_mem_filter member))
    exact (map_congr_left each).trans (map_id' _)

theorem lastWith_keepRows (ids : List String) (name : String) :
    lastWith name (keepRows stored ids) = if name ∈ ids then none else lastWith name stored := by
  rw [keepRows_eq settled, lastWith_filter fun name => decide (name ∉ ids)]
  by_cases dropped : name ∈ ids <;> simp [dropped]

end

end OpenUltraSast.Plane.Memory
