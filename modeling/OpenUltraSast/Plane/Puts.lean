import OpenUltraSast.Plane.Repositories

/-!
# Stores that are only put to

After some calls of `put_rows` an object holds, under each id, the last row that a call gave for the
object and the id.
-/

namespace OpenUltraSast.Plane.Memory

open Values Collections List

def readBack (row : Row) : Row := line (normalised row)

def Row.place (b : Backend) (row : Row) : Option String := row.key.bind b.place

/-- Two rows are of one object and one id. -/
def SamePlace (row other : Row) : Prop := row.key = other.key ∧ idOf row = idOf other

def Overwritten (later : List Row) (row : Row) : Prop := ∃ other ∈ later, SamePlace other row

/-- A row of some rows whose place no row after it takes. -/
def Lasting (rows later : List Row) (row : Row) : Prop :=
  ∃ front back, rows = front ++ row :: back ∧ ¬ Overwritten (back ++ later) row

def accepted (rows : List Row) : List Row :=
  match putRows (rows.map .obj) with
  | .ok _ => rows
  | .error _ => []

def putEvent (rows : List Row) : Event := .call (.put (rows.map .obj)) none

variable {rows : List Row} {row : Row} {pairs : List (String × Row)}

theorem Lasting.mem {later : List Row} (lasting : Lasting rows later row) : row ∈ rows := by
  obtain ⟨front, back, rfl, -⟩ := lasting
  simp

theorem lasting_append {others later : List Row} :
    Lasting (rows ++ others) later row ↔
      Lasting rows (others ++ later) row ∨ Lasting others later row := by
  constructor
  · rintro ⟨front, back, shape, kept⟩
    rcases append_eq_append_iff.mp shape with ⟨gap, rfl, rest⟩ | ⟨gap, rfl, rest⟩
    · exact .inr ⟨gap, back, rest, kept⟩
    · cases gap with
      | nil =>
        -- The split is at the row itself.
        exact .inr ⟨[], back, rest.symm, kept⟩
      | cons first gap =>
        obtain ⟨rfl, rfl⟩ := List.cons.inj rest
        exact .inl ⟨front, gap, rfl, by rw [← append_assoc]; exact kept⟩
  · rintro (⟨front, back, rfl, kept⟩ | ⟨front, back, rfl, kept⟩)
    · exact ⟨front, back ++ others, by simp, by rwa [append_assoc]⟩
    · exact ⟨rows ++ front, back, by simp, kept⟩

theorem idOf_readBack (row : Row) : idOf (readBack row) = idOf row := by
  rw [readBack, idOf_line, idOf_normalised]

private theorem normaliseField_kept {out : Row} {name other value : String}
    (filled : normaliseField row name = .ok out) (found : row.lookup other = some (.str value)) :
    out.lookup other = some (.str value) := by
  by_cases here : other = name
  · subst here
    unfold normaliseField at filled
    rw [found] at filled
    cases filled
    exact found
  · rw [(normaliseField_ok filled).2 other here, found]

variable {name value : String}

theorem lookup_readBack_text (found : row.lookup name = some (.str value)) :
    (readBack row).lookup name = some (.str value) := by
  have normal : (normalised row).lookup name = some (.str value) := by
    unfold normalised
    cases filled : normaliseRow row with
    | error => exact found
    | ok out =>
      have kept : ∀ (names : List String) (row : Row), row.lookup name = some (.str value) →
          names.foldlM normaliseField row = .ok out → out.lookup name = some (.str value) := by
        intro names
        induction names with
        | nil =>
          intro row found same
          cases same
          exact found
        | cons first names ih =>
          intro row found filled
          obtain ⟨next, step, rest⟩ := bind_eq_ok_iff.mp filled
          exact ih next (normaliseField_kept step found) rest
      exact kept queryable row found filled
  rw [readBack, lookup_line, normal]
  rfl

theorem lookup_readBack {name : String} (plain : name ∉ queryable) :
    (readBack row).lookup name = (row.lookup name).map Json.sorted := by
  rw [readBack, lookup_line]
  congr 1
  unfold normalised
  cases filled : normaliseRow row with
  | error => rfl
  | ok out => exact lookup_normaliseRow filled plain

theorem text_readBack (found : row.lookup name = some (.str value)) :
    text (readBack row) name = value := by
  rw [text, lookup_readBack_text found]

/-- A row that has a place: its repository has a directory and its pin is one. -/
def HasPlace (row : Row) : Prop := row.key.isSome = true ∧ isPin (text row "pin") = true

theorem HasPlace.dir {row : Row} (has : HasPlace row) :
    ∃ dir, repoDir (text row "repo") = some dir ∧
      row.key = some ("repos/" ++ dir ++ "/" ++ text row "pin" ++ ".jsonl") := by
  obtain ⟨key, keyed⟩ := Option.isSome_iff_exists.mp has.1
  rw [Row.key, objectKey, Option.map_eq_some_iff] at keyed
  obtain ⟨dir, named, rfl⟩ := keyed
  exact ⟨dir, named, by rw [Row.key, objectKey, named]; rfl⟩

theorem HasPlace.place (b : Backend) {row : Row} (has : HasPlace row) :
    ∃ place, row.place b = some place := by
  obtain ⟨dir, named, keyed⟩ := has.dir
  rw [Row.place, keyed, Option.bind_some]
  cases b with
  | bucket => exact ⟨_, rfl⟩
  | directory root => exact ⟨_, place_row root (plain_repoDir named).1 has.2⟩

theorem home_injective {dir other : String} (filled : dir ≠ "") (filledOther : other ≠ "")
    (same : home dir = home other) : dir = other := by
  rcases home_cases filled with ⟨rfl, at_⟩ | ⟨rfl, at_⟩ | ⟨-, -, at_⟩ <;>
    rcases home_cases filledOther with ⟨rfl, atOther⟩ | ⟨rfl, atOther⟩ | ⟨-, -, atOther⟩ <;>
    simp_all

theorem key_of_place {b : Backend} {other : Row} (has : HasPlace row) (hasOther : HasPlace other)
    (same : row.place b = other.place b) : row.key = other.key := by
  obtain ⟨dir, named, keyed⟩ := has.dir
  obtain ⟨dirOther, namedOther, keyedOther⟩ := hasOther.dir
  have plain := plain_repoDir named
  have plainOther := plain_repoDir namedOther
  rw [Row.place, Row.place, keyed, keyedOther, Option.bind_some, Option.bind_some] at same
  rw [keyed, keyedOther]
  cases b with
  | bucket => exact same
  | directory root =>
    rw [place_row root plain.1 has.2, place_row root plainOther.1 hasOther.2,
      Option.some.injEq] at same
    -- The parts of a place are those of the directory, and the file of the pin.
    have paths := congrArg parts same
    rw [parts_place plain.1 has.2, parts_place plainOther.1 hasOther.2] at paths
    obtain ⟨homes, files⟩ := append_inj' paths rfl
    rw [home_injective plain.2 plainOther.2 homes]
    have pins : text row "pin" ++ ".jsonl" = text other "pin" ++ ".jsonl" := by simpa using files
    simp only [String.append_assoc, pins]

variable {steps : List ObjectStep}

theorem hasPlace_of_putRows (put : putRows (rows.map .obj) = .ok steps) :
    ∀ row ∈ rows, HasPlace row := by
  obtain ⟨pairs, checked, -⟩ := putRows_ok put
  intro row member
  obtain ⟨pair, -, source⟩ := exists_right_of_forall₂
    (forall₂_map_left_iff.mp (mapM_eq_ok_iff.mp checked)) member
  obtain ⟨same, valid, -, keyed⟩ := checkRow_ok source
  cases Json.obj.inj (validateRow_ok valid)
  exact ⟨by rw [keyed]; rfl, isPin_of_validateRow valid⟩

theorem groupOf_eq (checks : List.Forall₂ ChecksTo rows pairs) (key : String) :
    groupOf pairs key = (rows.filter fun row => row.key = some key).map normalised := by
  induction checks with
  | nil => rfl
  | @cons row pair rows pairs check checks ih =>
    obtain ⟨filled, keyed⟩ := check
    have same : normalised row = pair.2 := by
      rw [normalised, filled]
      rfl
    unfold groupOf at ih ⊢
    rw [filter_cons, filter_cons, keyed]
    by_cases here : pair.1 = key
    · simp only [here, decide_true, if_true, map_cons, ih, same]
    · simp only [here, decide_false, Bool.false_eq_true, if_false, ih, Option.some.injEq]

def placedPairs (b : Backend) (pairs : List (String × Row)) : List (String × Row) :=
  pairs.map fun pair => ((b.place pair.1).getD "", pair.2)

structure Placed (b : Backend) (pairs : List (String × Row)) : Prop where
  some : ∀ pair ∈ pairs, ∃ place, b.place pair.1 = some place
  apart : ∀ pair ∈ pairs, ∀ other ∈ pairs, b.place pair.1 = b.place other.1 → pair.1 = other.1

theorem groupOf_placedPairs {b : Backend} (placed : Placed b pairs) {key place : String}
    (member : key ∈ pairs.map (·.1)) (there : b.place key = some place) :
    groupOf (placedPairs b pairs) place = groupOf pairs key := by
  obtain ⟨source, among, rfl⟩ := mem_map.mp member
  rw [groupOf, groupOf, placedPairs, filter_map, map_map]
  congr 1
  apply filter_congr
  intro pair inside
  obtain ⟨other, otherAt⟩ := placed.some pair inside
  have same : other = place ↔ pair.1 = source.1 := by
    constructor
    · intro equal
      apply placed.apart pair inside source among
      rw [otherAt, there, equal]
    · intro equal
      rw [equal, there] at otherAt
      exact (Option.some.inj otherAt).symm
  simp [otherAt, same]

theorem placedSteps_mergesOf {b : Backend} (placed : Placed b pairs) {keys : List String}
    (known : keys ⊆ pairs.map (·.1)) :
    placedSteps b (mergesOf pairs keys)
      = mergesOf (placedPairs b pairs) (keys.map fun key => (b.place key).getD "") := by
  induction keys with
  | nil => rfl
  | cons key keys ih =>
    have member := known mem_cons_self
    obtain ⟨pair, among, own⟩ := mem_map.mp member
    obtain ⟨place, there⟩ := placed.some pair among
    rw [own] at there
    have rest := ih fun other later => known (mem_cons_of_mem _ later)
    unfold mergesOf at rest ⊢
    rw [map_cons, placedSteps, there]
    simp only [map_cons, there, Option.getD_some, rest, groupOf_placedPairs placed member there]

theorem placed_of_checks {b : Backend} (checks : List.Forall₂ ChecksTo rows pairs)
    (has : ∀ row ∈ rows, HasPlace row) : Placed b pairs := by
  -- A key is the one of a row, whose place is the key's.
  have source : ∀ pair ∈ pairs, ∃ row ∈ rows, row.key = some pair.1 ∧
      row.place b = b.place pair.1 := by
    intro pair among
    obtain ⟨row, given, -, keyed⟩ := exists_left_of_forall₂ checks among
    exact ⟨row, given, keyed, by rw [Row.place, keyed, Option.bind_some]⟩
  constructor
  · intro pair among
    obtain ⟨row, given, -, at_⟩ := source pair among
    rw [← at_]
    exact (has row given).place b
  · intro pair among other amongOther same
    obtain ⟨row, given, keyed, at_⟩ := source pair among
    obtain ⟨rowOther, givenOther, keyedOther, atOther⟩ := source other amongOther
    have keys : row.key = rowOther.key := by
      apply key_of_place (has row given) (has rowOther givenOther)
      rw [at_, atOther, same]
    exact Option.some.inj (keyed.symm.trans (keys.trans keyedOther))

theorem filter_place {b : Backend} (has : ∀ row ∈ rows, HasPlace row) (given : row ∈ rows)
    {place : String} (there : row.place b = some place) :
    (rows.filter fun other => other.place b = some place)
      = rows.filter fun other => other.key = row.key := by
  apply filter_congr
  intro other inside
  rw [decide_eq_decide, ← there]
  constructor
  · exact key_of_place (has other inside) (has row given)
  · intro same
    rw [Row.place, Row.place, same]

/-- After a put the row of an id is the one that was put, or else the one before. -/
theorem lastRow_put {b : Backend} (put : putRows (rows.map .obj) = .ok steps) (place name : String)
    (log : List ObjectStep) :
    lastRow place name ((placedSteps b steps).reverse ++ log)
      = ((lastWith name (rows.filter fun row => row.place b = some place)).map readBack).or
          (lastRow place name log) := by
  have has := hasPlace_of_putRows put
  obtain ⟨pairs, checked, rfl⟩ := putRows_ok put
  -- every row that was accepted has a key, and its normal form goes under that key
  have checks := checksTo_of_putRows checked
  have placed : Placed b pairs := placed_of_checks checks has
  have known : sortedSet (pairs.map (·.1)) ⊆ pairs.map (·.1) :=
    fun key member => (mem_sortedSet _ _).mp member
  rw [placedSteps_mergesOf placed known, lastRow_mergesOf]
  split
  -- the call has rows at the place: they come last in the log
  next member =>
    obtain ⟨key, among, there⟩ := mem_map.mp member
    obtain ⟨pair, inside, rfl⟩ := mem_map.mp (known among)
    obtain ⟨found, foundAt⟩ := placed.some pair inside
    rw [foundAt, Option.getD_some] at there
    subst there
    obtain ⟨row, given, -, keyed⟩ := exists_left_of_forall₂ checks inside
    have at_ : row.place b = some found := by rw [Row.place, keyed, Option.bind_some, foundAt]
    rw [groupOf_placedPairs placed (known among) foundAt, groupOf_eq checks,
      filter_place has given at_, keyed, lastWith_map idOf_normalised, Option.map_map]
    rfl
  next absent =>
    -- no row of the call is placed here
    have none_ : (rows.filter fun row => row.place b = some place) = [] := by
      rw [filter_eq_nil_iff]
      intro row given here
      rw [decide_eq_true_eq] at here
      obtain ⟨pair, inside, -, keyed⟩ := exists_right_of_forall₂ checks given
      rw [Row.place, keyed, Option.bind_some] at here
      apply absent
      apply mem_map.mpr
      exact ⟨pair.1, (mem_sortedSet _ _).mpr (mem_map_of_mem inside), by rw [here]; rfl⟩
    rw [none_]
    rfl

section Digest
variable {b : Backend} {sha256 : Bytes → String} {linesDigest : List Row → String}

private theorem row_puts (calls : List (List Row)) (place name : String) :
    (historyAt b sha256 linesDigest (calls.map putEvent)).store.row place name
      = (lastWith name ((calls.flatMap accepted).filter fun row => row.place b = some place)).map
          readBack := by
  have agrees : Agrees sha256 (historyAt b sha256 linesDigest (calls.map putEvent)) :=
    (homed_historyAt _).agrees
  rw [agrees.rows]
  clear agrees
  induction calls using List.reverseRecOn with
  | nil => rfl
  | append_singleton calls last ih =>
    have log : (historyAt b sha256 linesDigest ((calls ++ [last]).map putEvent)).log
        = (placedSteps b ((putEvent last).steps sha256 linesDigest
            (historyAt b sha256 linesDigest (calls.map putEvent)).store)).reverse
          ++ (historyAt b sha256 linesDigest (calls.map putEvent)).log := by
      simp [historyAt, History.nextAt, History.extend]
    rw [log, flatMap_append, filter_append, lastWith_append, Option.map_or, ← ih]
    simp only [putEvent, Event.steps, Call.steps, flatMap_cons, flatMap_nil,
      append_nil, accepted]
    cases put : putRows (last.map .obj) with
    | error error => rfl
    | ok steps => exact lastRow_put put place name _

/-- An object never holds two rows of one id. -/
def OncePerId (rows : List Row) : Prop := ∀ row ∈ rows, lastWith (idOf row) rows = some row

theorem oncePerId_mergeRows (stored new : List Row) : OncePerId (mergeRows stored new) := by
  intro row member
  obtain ⟨name, among, value⟩ := mem_filterMap.mp member
  rw [idOf_merged value, mergeRows, lastWith_filterMap fun _ _ => idOf_merged, if_pos among, value]

variable {h : History}

theorem mem_rows (homed : Homed b sha256 h) {repo : String} (some_ : repo ≠ "")
    (listed : h.rows b repo = .ok rows) :
    ∃ dir, repoDir repo = some dir ∧ ∀ row, row ∈ rows ↔
      ∃ place, b.lists ("repos/" ++ dir ++ "/") place = true ∧ row ∈ h.store.objects place := by
  cases named : repoDir repo with
  | none =>
    rw [History.rows, if_neg some_, named] at listed
    cases listed
  | some dir =>
    rw [rows_eq h named] at listed
    split at listed
    · cases listed
    · cases listed
      refine ⟨dir, rfl, fun row => ?_⟩
      simp only [mem_flatMap, mem_filter, mem_insertionSort, mem_present homed]
      constructor
      · rintro ⟨place, ⟨-, shown⟩, member⟩
        exact ⟨place, shown, member⟩
      · rintro ⟨place, shown, member⟩
        exact ⟨place, ⟨ne_nil_of_mem member, shown⟩, member⟩

variable (b sha256 linesDigest) in
theorem merges_putEvent (s : Store) (rows : List Row) :
    ∀ step ∈ placedSteps b ((putEvent rows).steps sha256 linesDigest s),
      ∃ place new, step = .merge place new ∧
        ∀ out ∈ new, Normal out ∧ ∃ row ∈ rows, out = normalised row := by
  intro step member
  simp only [putEvent, Event.steps, Call.steps] at member
  cases put : putRows (rows.map .obj) with
  | error error =>
    rw [put] at member
    cases member
  | ok steps =>
    rw [put] at member
    have has := hasPlace_of_putRows put
    obtain ⟨pairs, checked, rfl⟩ := putRows_ok put
    have checks := checksTo_of_putRows checked
    rw [placedSteps_mergesOf (placed_of_checks checks has)
      fun key among => (mem_sortedSet _ _).mp among] at member
    obtain ⟨place, -, rfl⟩ := mem_map.mp member
    refine ⟨place, _, rfl, ?_⟩
    intro out grouped
    obtain ⟨placed, inside, rfl⟩ := mem_map.mp grouped
    obtain ⟨pair, among, rfl⟩ := mem_map.mp (mem_of_mem_filter inside)
    obtain ⟨row, given, filled, -⟩ := exists_left_of_forall₂ checks among
    exact ⟨normal_of_normaliseRow filled, row, given, by rw [normalised, filled]; rfl⟩

private theorem index_put (h : History) (rows : List Row) :
    (h.nextAt b sha256 linesDigest (putEvent rows)).store.index = h.store.index := by
  have merges := merges_putEvent b sha256 linesDigest h.store rows
  simp only [History.nextAt, History.extend]
  generalize placedSteps b ((putEvent rows).steps sha256 linesDigest h.store) = steps at merges
  generalize h.store = s
  induction steps generalizing s with
  | nil => rfl
  | cons step steps ih =>
    obtain ⟨key, new, rfl, -⟩ := merges step mem_cons_self
    exact ih (fun step later => merges step (mem_cons_of_mem _ later)) _

theorem rows_ok_put {repo : String} {listed : List Row}
    (before : h.rows b repo = .ok listed) :
    ∃ after, (h.nextAt b sha256 linesDigest (putEvent rows)).rows b repo = .ok after := by
  unfold History.rows at before ⊢
  rw [index_put]
  split at before
  · cases before
  · split at before
    · cases before
    next clear =>
      rw [if_neg clear]
      exact ⟨_, rfl⟩

theorem mem_put (homed : Homed b sha256 h) {place : String}
    (member : row ∈ (h.nextAt b sha256 linesDigest (putEvent rows)).store.objects place) :
    row ∈ h.store.objects place ∨ ∃ given ∈ rows, row = readBack given := by
  have settled := homed.agrees.settled
  have merges := merges_putEvent b sha256 linesDigest h.store rows
  simp only [History.nextAt, History.extend] at member
  generalize placedSteps b ((putEvent rows).steps sha256 linesDigest h.store) = steps at member merges
  generalize h.store = s at member settled
  -- on the merges of the call; each adds rows read back from the call to one object
  induction steps generalizing s with
  | nil => exact .inl member
  | cons step steps ih =>
    obtain ⟨key, new, rfl, sources⟩ := merges step mem_cons_self
    have kept : ∀ other, ∀ row ∈ ((ObjectStep.merge key new).apply sha256 s).objects other,
        row ∈ s.objects other ∨ ∃ given ∈ rows, row = readBack given := by
      intro other row inside
      by_cases here : other = key
      · subst here
        simp only [ObjectStep.apply, if_true] at inside
        rcases mem_mergeRows (settled other) inside with older | ⟨out, among, rfl⟩
        · exact .inl older
        · obtain ⟨-, source, given, rfl⟩ := sources out among
          exact .inr ⟨source, given, rfl⟩
      · simp only [ObjectStep.apply, if_neg here] at inside
        exact .inl inside
    -- merging needs settled rows, and leaves them settled
    have settledNext : ∀ other, ∀ row ∈ ((ObjectStep.merge key new).apply sha256 s).objects other,
        Settled row := by
      intro other
      by_cases here : other = key
      · subst here
        simp only [ObjectStep.apply, if_true]
        exact settled_mergeRows (settled other) fun out among => (sources out among).1
      · simp only [ObjectStep.apply, if_neg here]
        exact settled other
    rcases ih (fun step later => merges step (mem_cons_of_mem _ later)) _ member settledNext with
      before | new_
    · exact kept place row before
    · exact .inr new_

theorem oncePerId_merges (merges : ∀ step ∈ steps, ∃ place new, step = .merge place new) {s : Store}
    (once : ∀ place, OncePerId (s.objects place)) (place : String) :
    OncePerId ((steps.foldl (ObjectStep.apply sha256) s).objects place) := by
  induction steps generalizing s with
  | nil => exact once place
  | cons step steps ih =>
    apply ih fun later member => merges later (mem_cons_of_mem _ member)
    intro other
    obtain ⟨key, new, rfl⟩ := merges step mem_cons_self
    by_cases here : other = key
    · simp only [ObjectStep.apply, here, if_true]
      exact oncePerId_mergeRows _ _
    · simp only [ObjectStep.apply, if_neg here]
      exact once other

private theorem oncePerId_puts (calls : List (List Row)) (place : String) :
    OncePerId ((historyAt b sha256 linesDigest (calls.map putEvent)).store.objects place) := by
  induction calls using List.reverseRecOn generalizing place with
  | nil =>
    intro row member
    cases member
  | append_singleton calls last ih =>
    rw [map_append, historyAt, foldl_append]
    apply oncePerId_merges _ ih place
    intro step member
    obtain ⟨place, new, shape, -⟩ := merges_putEvent _ _ _ _ last step member
    exact ⟨place, new, shape⟩

theorem lastWith_filter_eq_some_iff {kind : Row → Bool} {name : String} :
    lastWith name (rows.filter kind) = some row ↔
      (kind row = true ∧ idOf row = name) ∧ ∃ front back, rows = front ++ row :: back ∧
        ∀ other ∈ back, ¬ (kind other = true ∧ idOf other = name) := by
  rw [lastWith, ← filter_reverse, List.find?_filter, List.find?_eq_some_iff_append]
  simp only [decide_eq_true_eq, Bool.not_eq_true', Bool.eq_false_iff, ne_eq]
  apply and_congr_right
  intro _
  constructor
  · rintro ⟨back, front, shape, none_⟩
    refine ⟨front.reverse, back.reverse, ?_, ?_⟩
    · rw [← reverse_reverse rows, shape]
      simp
    · intro other member
      exact none_ other (mem_reverse.mp member)
  · rintro ⟨front, back, shape, none_⟩
    refine ⟨back.reverse, front.reverse, ?_, ?_⟩
    · rw [shape]
      simp
    · intro other member
      exact none_ other (mem_reverse.mp member)

theorem hasPlace_accepted : ∀ row ∈ accepted rows, HasPlace row := by
  intro row member
  unfold accepted at member
  split at member
  next steps put => exact hasPlace_of_putRows put row member
  next => cases member

/-- The store holds the rows that were given and not overwritten since, and no others. -/
theorem mem_puts (calls : List (List Row)) (place : String) (stored : Row) :
    stored ∈ (historyAt b sha256 linesDigest (calls.map putEvent)).store.objects place ↔
      ∃ row, Lasting (calls.flatMap accepted) [] row ∧ row.place b = some place ∧
        stored = readBack row := by
  have has : ∀ row ∈ calls.flatMap accepted, HasPlace row := by
    intro row member
    obtain ⟨call, -, among⟩ := mem_flatMap.mp member
    exact hasPlace_accepted row among
  have member_iff : stored ∈ (historyAt b sha256 linesDigest (calls.map putEvent)).store.objects place
      ↔ (historyAt b sha256 linesDigest (calls.map putEvent)).store.row place (idOf stored)
          = some stored := by
    constructor
    · exact oncePerId_puts calls place stored
    · intro last
      exact (mem_of_lastWith last).1
  rw [member_iff, row_puts, Option.map_eq_some_iff]
  -- Within the rows of a place, the same id means the same object and id.
  have overwritten {front back : List Row} {row : Row}
      (shape : calls.flatMap accepted = front ++ row :: back) (there : row.place b = some place) :
      Overwritten back row ↔ ∃ other ∈ back, other.place b = some place ∧ idOf other = idOf row := by
    apply exists_congr
    intro other
    apply and_congr_right
    intro later
    have hasRow := has row (shape ▸ by simp)
    have hasOther := has other (shape ▸ by simp [later])
    apply and_congr_left
    intro _
    rw [← there]
    constructor
    · intro same
      rw [Row.place, Row.place, same]
    · exact key_of_place hasOther hasRow
  constructor
  · rintro ⟨row, last, rfl⟩
    obtain ⟨⟨there, named⟩, front, back, shape, none_⟩ := lastWith_filter_eq_some_iff.mp last
    rw [decide_eq_true_eq] at there
    refine ⟨row, ⟨front, back, shape, ?_⟩, there, rfl⟩
    rw [append_nil, overwritten shape there]
    rintro ⟨other, later, otherAt, same⟩
    exact none_ other later ⟨decide_eq_true otherAt, same.trans named⟩
  · rintro ⟨row, ⟨front, back, shape, kept⟩, there, rfl⟩
    rw [append_nil] at kept
    refine ⟨row, ?_, rfl⟩
    rw [idOf_readBack]
    apply lastWith_filter_eq_some_iff.mpr
    refine ⟨⟨decide_eq_true there, rfl⟩, front, back, shape, ?_⟩
    rintro other later ⟨otherAt, same⟩
    exact kept ((overwritten shape there).mpr ⟨other, later, of_decide_eq_true otherAt, same⟩)

end Digest

end OpenUltraSast.Plane.Memory
