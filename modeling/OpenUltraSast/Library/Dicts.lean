import OpenUltraSast.Library.Collections

/-!
# Dictionaries

Association lists with one entry a key. A key keeps the place where it was first put.
-/

namespace Dicts

open List

variable {κ β : Type} [DecidableEq κ]

def keys (d : List (κ × β)) : List κ := d.map (·.1)

/-- `d[key] = value`. -/
def set (d : List (κ × β)) (key : κ) (value : β) : List (κ × β) :=
  if key ∈ keys d then d.map fun entry => if entry.1 = key then (key, value) else entry
  else d ++ [(key, value)]

/-- `d.setdefault(key, value)`. -/
def setDefault (d : List (κ × β)) (key : κ) (value : β) : List (κ × β) :=
  if key ∈ keys d then d else d ++ [(key, value)]

/-- `d.setdefault(key, []).extend(values)`. -/
def extend {γ : Type} (d : List (κ × List γ)) (key : κ) (values : List γ) : List (κ × List γ) :=
  set d key ((d.lookup key).getD [] ++ values)

/-- The dictionary that a comprehension builds. -/
def ofEntries (entries : List (κ × β)) : List (κ × β) :=
  entries.foldl (fun d entry => set d entry.1 entry.2) []

variable {d : List (κ × β)} {key : κ} {entry : κ × β}

theorem lookup_eq_none_iff : d.lookup key = none ↔ key ∉ keys d := by
  rw [List.lookup_eq_none_iff, keys, mem_map]
  constructor
  · rintro apart ⟨entry, member, rfl⟩
    simpa using apart entry member
  · intro absent entry member
    rw [bne_iff_ne]
    exact fun here => absent ⟨entry, member, here.symm⟩

theorem lookup_graph (domain : List κ) (f : κ → β) (key : κ) :
    (domain.map fun other => (other, f other)).lookup key
      = if key ∈ domain then some (f key) else none := by
  induction domain with
  | nil => rfl
  | cons other rest ih =>
    by_cases here : key = other
    · simp [here]
    · have beq : (key == other) = false := by simpa using here
      simp [lookup_cons, here, beq, ih]

theorem mem_keys_iff : key ∈ keys d ↔ ∃ value, d.lookup key = some value := by
  rw [← Option.ne_none_iff_exists', ne_eq, lookup_eq_none_iff, not_not]

variable {value : β} {entries : List (κ × β)}

theorem mem_of_lookup (found : d.lookup key = some value) : (key, value) ∈ d := by
  obtain ⟨before, after, rfl, -⟩ := lookup_eq_some_iff.mp found
  exact mem_append_right _ mem_cons_self

theorem keys_set (d : List (κ × β)) (key : κ) (value : β) :
    keys (set d key value) = if key ∈ keys d then keys d else keys d ++ [key] := by
  rw [set]
  split
  · rw [keys, map_map]
    apply map_congr_left
    intro entry _
    by_cases here : entry.1 = key
    · simp [here]
    · simp [here]
  · simp [keys]

theorem mem_keys_set {other : κ} : other ∈ keys (set d key value) ↔ other = key ∨ other ∈ keys d := by
  rw [keys_set]
  split
  next held => exact ⟨.inr, fun is => is.elim (fun here => here ▸ held) id⟩
  next => rw [mem_append, mem_singleton, or_comm]

theorem nodup_set (distinct : (keys d).Nodup) (key : κ) (value : β) :
    (keys (set d key value)).Nodup := by
  rw [keys_set]
  split
  next => exact distinct
  next absent => exact nodup_append.mpr ⟨distinct, nodup_singleton _, by
    rintro a held b here rfl
    rw [mem_singleton] at here
    exact absent (here ▸ held)⟩

theorem lookup_map_set (d : List (κ × β)) (key other : κ) (value : β) :
    (d.map fun entry => if entry.1 = key then (key, value) else entry).lookup other =
      if other = key ∧ key ∈ keys d then some value else d.lookup other := by
  induction d with
  | nil => simp [keys]
  | cons entry d ih =>
    have member : key ∈ keys (entry :: d) ↔ key = entry.1 ∨ key ∈ keys d := mem_cons
    rw [map_cons, lookup_cons, lookup_cons, ih]
    simp only [member]
    by_cases here : entry.1 = key <;> by_cases same : other = key
    · simp [here, same]
    · simp [here, same, beq_false_of_ne same]
    · have apart : ¬ key = entry.1 := fun is => here is.symm
      simp [here, same, apart, beq_false_of_ne apart]
    · simp [here, same]

@[simp] theorem lookup_set (d : List (κ × β)) (key other : κ) (value : β) :
    (set d key value).lookup other = if other = key then some value else d.lookup other := by
  rw [set]
  split
  next held => rw [lookup_map_set]; simp [held]
  next absent =>
    rw [lookup_append, lookup_cons, lookup_nil]
    by_cases here : other = key
    · simp [here, lookup_eq_none_iff.mpr absent]
    · simp [here, beq_false_of_ne here]

theorem mem_set (member : entry ∈ set d key value) : entry = (key, value) ∨ entry ∈ d := by
  rw [set] at member
  split at member
  next =>
    obtain ⟨old, held, rfl⟩ := mem_map.mp member
    by_cases here : old.1 = key
    · exact .inl (if_pos here)
    · rw [if_neg here]
      exact .inr held
  next => exact (mem_append.mp member).symm.imp_left mem_singleton.mp

theorem mem_keys_setDefault {other : κ} :
    other ∈ keys (setDefault d key value) ↔ other = key ∨ other ∈ keys d := by
  rw [setDefault]
  split
  next held => exact ⟨.inr, fun is => is.elim (fun here => here ▸ held) id⟩
  next => simp [keys, or_comm]

theorem nodup_setDefault (distinct : (keys d).Nodup) (key : κ) (value : β) :
    (keys (setDefault d key value)).Nodup := by
  rw [setDefault]
  split
  next => exact distinct
  next absent =>
    rw [keys, map_append, map_singleton]
    exact concat_eq_append ▸ List.Nodup.concat absent distinct

theorem mem_setDefault (member : entry ∈ setDefault d key value) :
    entry = (key, value) ∨ entry ∈ d := by
  rw [setDefault] at member
  split at member
  · exact .inr member
  · exact (mem_append.mp member).symm.imp_left mem_singleton.mp

/-- `d.setdefault(key, value)` for each entry of a dictionary. -/
def setDefaults (d other : List (κ × β)) : List (κ × β) :=
  other.foldl (fun d entry => setDefault d entry.1 entry.2) d

variable {other : List (κ × β)}

theorem mem_keys_setDefaults :
    key ∈ keys (setDefaults d other) ↔ key ∈ keys d ∨ key ∈ keys other := by
  induction other generalizing d with
  | nil => simp [setDefaults, keys]
  | cons entry other ih =>
    have member : key ∈ keys (entry :: other) ↔ key = entry.1 ∨ key ∈ keys other := mem_cons
    rw [setDefaults, foldl_cons, ← setDefaults, ih, mem_keys_setDefault, member, or_assoc,
      or_left_comm]

theorem nodup_setDefaults (other : List (κ × β)) (distinct : (keys d).Nodup) :
    (keys (setDefaults d other)).Nodup := by
  induction other generalizing d with
  | nil => exact distinct
  | cons entry other ih => exact ih (nodup_setDefault distinct entry.1 entry.2)

theorem mem_setDefaults (member : entry ∈ setDefaults d other) :
    entry ∈ d ∨ entry ∈ other := by
  induction other generalizing d with
  | nil => exact .inl member
  | cons first other ih =>
    rcases ih member with held | later
    · rcases mem_setDefault held with rfl | held
      · exact .inr mem_cons_self
      · exact .inl held
    · exact .inr (mem_cons_of_mem _ later)

/-- Several dictionaries, an earlier one before a later one. -/
def mergeFirst (d : List (κ × β)) (others : List (List (κ × β))) : List (κ × β) :=
  others.foldl setDefaults d

theorem mem_keys_mergeFirst {others : List (List (κ × β))} :
    key ∈ keys (mergeFirst d others) ↔ key ∈ keys d ∨ ∃ other ∈ others, key ∈ keys other := by
  induction others generalizing d with
  | nil => simp [mergeFirst]
  | cons other others ih =>
    rw [mergeFirst, foldl_cons, ← mergeFirst, ih, mem_keys_setDefaults,
      exists_mem_cons_iff, or_assoc]

theorem nodup_mergeFirst (others : List (List (κ × β))) (distinct : (keys d).Nodup) :
    (keys (mergeFirst d others)).Nodup := by
  induction others generalizing d with
  | nil => exact distinct
  | cons other others ih => exact ih (nodup_setDefaults other distinct)

theorem mem_mergeFirst {others : List (List (κ × β))} (member : entry ∈ mergeFirst d others) :
    entry ∈ d ∨ ∃ other ∈ others, entry ∈ other := by
  induction others generalizing d with
  | nil => exact .inl member
  | cons other others ih =>
    rcases ih member with held | ⟨later, there, held⟩
    · rcases mem_setDefaults held with old | new
      · exact .inl old
      · exact .inr ⟨other, mem_cons_self, new⟩
    · exact .inr ⟨later, mem_cons_of_mem _ there, held⟩

theorem lookup_setDefault (d : List (κ × β)) (key other : κ) (value : β) :
    (setDefault d key value).lookup other =
      (d.lookup other).or (if other = key then some value else none) := by
  rw [setDefault]
  split
  next held =>
    by_cases here : other = key
    · obtain ⟨old, found⟩ := mem_keys_iff.mp held
      simp [here, found]
    · simp [here]
  next =>
    rw [lookup_append, lookup_cons, lookup_nil]
    by_cases here : other = key
    · simp [here]
    · simp [here, beq_false_of_ne here]

theorem lookup_setDefaults (d other : List (κ × β)) (key : κ) :
    (setDefaults d other).lookup key = (d.lookup key).or (other.lookup key) := by
  induction other generalizing d with
  | nil => simp [setDefaults]
  | cons entry other ih =>
    rw [setDefaults, foldl_cons, ← setDefaults, ih, lookup_setDefault, lookup_cons]
    by_cases here : key = entry.1
    · cases d.lookup key <;> simp [here]
    · simp [here, beq_false_of_ne here]

theorem lookup_mergeFirst (d : List (κ × β)) (others : List (List (κ × β))) (key : κ) :
    (mergeFirst d others).lookup key = (d :: others).findSome? fun one => one.lookup key := by
  induction others generalizing d with
  | nil => cases found : d.lookup key <;> simp [mergeFirst, found]
  | cons other others ih =>
    rw [mergeFirst, foldl_cons, ← mergeFirst, ih, List.findSome?_cons, lookup_setDefaults]
    rw [List.findSome?_cons, List.findSome?_cons]
    cases d.lookup key <;> simp

theorem nodup_foldl_set (entries : List (κ × β)) (distinct : (keys d).Nodup) :
    (keys (entries.foldl (fun d entry => set d entry.1 entry.2) d)).Nodup := by
  induction entries generalizing d with
  | nil => exact distinct
  | cons entry entries ih => exact ih (nodup_set distinct entry.1 entry.2)

theorem nodup_ofEntries (entries : List (κ × β)) : (keys (ofEntries entries)).Nodup :=
  nodup_foldl_set entries nodup_nil

theorem mem_keys_foldl_set (entries d : List (κ × β)) (key : κ) :
    key ∈ keys (entries.foldl (fun d entry => set d entry.1 entry.2) d) ↔
      key ∈ keys entries ∨ key ∈ keys d := by
  induction entries generalizing d with
  | nil => simp [keys]
  | cons entry entries ih =>
    have member : key ∈ keys (entry :: entries) ↔ key = entry.1 ∨ key ∈ keys entries := mem_cons
    rw [foldl_cons, ih, mem_keys_set, member, or_left_comm, or_assoc]

theorem mem_keys_ofEntries (entries : List (κ × β)) (key : κ) :
    key ∈ keys (ofEntries entries) ↔ key ∈ keys entries := by
  rw [ofEntries, mem_keys_foldl_set]
  simp [keys]

theorem mem_foldl_set (member : entry ∈ entries.foldl (fun d entry => set d entry.1 entry.2) d) :
    entry ∈ entries ∨ entry ∈ d := by
  induction entries generalizing d with
  | nil => exact .inr member
  | cons first entries ih =>
    rcases ih member with later | held
    · exact .inl (mem_cons_of_mem _ later)
    · rcases mem_set held with rfl | held
      · exact .inl mem_cons_self
      · exact .inr held

theorem mem_of_mem_ofEntries (member : entry ∈ ofEntries entries) : entry ∈ entries :=
  (mem_foldl_set member).resolve_right not_mem_nil

theorem lookup_foldl_set (entries d : List (κ × β)) (distinct : (keys entries).Nodup) (key : κ) :
    (entries.foldl (fun d entry => set d entry.1 entry.2) d).lookup key =
      (entries.lookup key).or (d.lookup key) := by
  induction entries generalizing d with
  | nil => rfl
  | cons entry entries ih =>
    rw [keys, map_cons, nodup_cons] at distinct
    rw [foldl_cons, ih _ distinct.2, lookup_set, lookup_cons]
    by_cases here : key = entry.1
    · -- No later entry has the key.
      rw [here, lookup_eq_none_iff.mpr distinct.1]
      simp
    · simp [here, beq_false_of_ne here]

theorem foldl_set_eq_append (entries d : List (κ × β)) (distinct : (keys (d ++ entries)).Nodup) :
    entries.foldl (fun d entry => set d entry.1 entry.2) d = d ++ entries := by
  induction entries generalizing d with
  | nil => simp
  | cons entry entries ih =>
    have new : entry.1 ∉ keys d := by
      rw [keys, map_append, nodup_append] at distinct
      intro held
      exact distinct.2.2 _ held _ mem_cons_self rfl
    rw [append_cons] at distinct
    rw [foldl_cons, set, if_neg new, ih _ distinct, ← append_cons]

theorem ofEntries_of_nodup (distinct : (keys entries).Nodup) : ofEntries entries = entries :=
  foldl_set_eq_append entries [] distinct

theorem lookup_ofEntries (distinct : (keys entries).Nodup) (key : κ) :
    (ofEntries entries).lookup key = entries.lookup key := by
  rw [ofEntries, lookup_foldl_set entries [] distinct]
  simp

section Extend

variable {γ : Type}

theorem lookup_extend (d : List (κ × List γ)) (key other : κ) (values : List γ) :
    (extend d key values).lookup other =
      if other = key then some ((d.lookup key).getD [] ++ values) else d.lookup other :=
  lookup_set d key other _

def extendAll (d other : List (κ × List γ)) : List (κ × List γ) :=
  other.foldl (fun d entry => extend d entry.1 entry.2) d

theorem lookup_extendAll {d other : List (κ × List γ)} (distinct : (keys other).Nodup) (key : κ) :
    (extendAll d other).lookup key =
      (other.lookup key).elim (d.lookup key) fun values => some ((d.lookup key).getD [] ++ values) := by
  induction other generalizing d with
  | nil => rfl
  | cons entry other ih =>
    rw [keys, map_cons, nodup_cons] at distinct
    rw [extendAll, foldl_cons, ← extendAll, ih distinct.2, lookup_extend, lookup_cons]
    by_cases here : key = entry.1
    · subst here
      rw [lookup_eq_none_iff.mpr distinct.1]
      simp
    · rw [if_neg here, beq_false_of_ne here]

theorem mem_keys_extendAll {d other : List (κ × List γ)} :
    key ∈ keys (extendAll d other) ↔ key ∈ keys d ∨ key ∈ keys other := by
  induction other generalizing d with
  | nil => simp [extendAll, keys]
  | cons entry other ih =>
    have member : key ∈ keys (entry :: other) ↔ key = entry.1 ∨ key ∈ keys other := mem_cons
    rw [extendAll, foldl_cons, ← extendAll, ih, extend, mem_keys_set, member, or_assoc,
      or_left_comm]

/-- The lists of several dictionaries, one behind the other under each key. -/
def extendEach (d : List (κ × List γ)) (others : List (List (κ × List γ))) : List (κ × List γ) :=
  others.foldl extendAll d

variable {others : List (List (κ × List γ))}

theorem lookup_extendEach {d : List (κ × List γ)}
    (distinct : ∀ other ∈ others, (keys other).Nodup) (key : κ) :
    ((extendEach d others).lookup key).getD [] =
      (d.lookup key).getD [] ++ (others.map fun other => (other.lookup key).getD []).flatten := by
  induction others generalizing d with
  | nil => simp [extendEach]
  | cons other others ih =>
    rw [forall_mem_cons] at distinct
    rw [extendEach, foldl_cons, ← extendEach, ih distinct.2, lookup_extendAll distinct.1,
      map_cons, flatten_cons, ← append_assoc]
    congr 1
    cases other.lookup key <;> simp

theorem mem_keys_extendEach {d : List (κ × List γ)} :
    key ∈ keys (extendEach d others) ↔ key ∈ keys d ∨ ∃ other ∈ others, key ∈ keys other := by
  induction others generalizing d with
  | nil => simp [extendEach]
  | cons other others ih =>
    rw [extendEach, foldl_cons, ← extendEach, ih, mem_keys_extendAll,
      exists_mem_cons_iff, or_assoc]

end Extend

end Dicts

/-!
## Grouping and remembering

Dictionaries that group the values of a list by their keys, and ones that remember what a function
returned.
-/

namespace Dicts

variable {κ β : Type} [DecidableEq κ]

/-- `d.setdefault(key, []).append(value)` for each entry. -/
def group (entries : List (κ × β)) : List (κ × List β) :=
  entries.foldl (fun d entry => extend d entry.1 [entry.2]) []

/-- `d.get(key, ())`. -/
def valuesOf (d : List (κ × List β)) (key : κ) : List β := (d.lookup key).getD []

theorem valuesOf_extend (d : List (κ × List β)) (key other : κ) (values : List β) :
    valuesOf (extend d key values) other =
      valuesOf d other ++ if other = key then values else [] := by
  rw [valuesOf, extend, lookup_set]
  split
  next here => rw [here]; rfl
  next => rw [List.append_nil, valuesOf]

section
variable (entries : List (κ × β))
include entries

theorem valuesOf_foldl (key : κ) :
    ∀ d, valuesOf (entries.foldl (fun d entry => extend d entry.1 [entry.2]) d) key =
      valuesOf d key ++ (entries.filter (·.1 = key)).map (·.2) := by
  induction entries with
  | nil => intro d; exact (List.append_nil _).symm
  | cons entry rest ih =>
    intro d
    rw [List.foldl_cons, ih, valuesOf_extend, List.append_assoc]
    by_cases here : entry.1 = key
    · simp [here]
    · have apart : ¬ key = entry.1 := fun same => here same.symm
      simp [here, apart]

theorem valuesOf_group (key : κ) :
    valuesOf (group entries) key = (entries.filter (·.1 = key)).map (·.2) :=
  valuesOf_foldl entries key []

theorem keys_foldl_extend :
    ∀ d, (keys d).Nodup → keys (entries.foldl (fun d entry => extend d entry.1 [entry.2]) d) =
      keys d ++ ((entries.map (·.1)).filter (· ∉ keys d)).eraseDups := by
  induction entries with
  | nil => exact fun d _ => (List.append_nil _).symm
  | cons entry rest ih =>
    intro d distinct
    have step : keys (extend d entry.1 [entry.2]) =
        if entry.1 ∈ keys d then keys d else keys d ++ [entry.1] := keys_set _ _ _
    have kept : (keys (extend d entry.1 [entry.2])).Nodup := nodup_set distinct _ _
    rw [List.foldl_cons, ih _ kept, step, List.map_cons]
    by_cases held : entry.1 ∈ keys d
    · rw [if_pos held, List.filter_cons_of_neg (by simpa using held)]
    · have others : (rest.map (·.1)).filter (· ∉ keys d ++ [entry.1]) =
          ((rest.map (·.1)).filter (· ∉ keys d)).filter fun k => !k == entry.1 := by
        rw [List.filter_filter]
        apply List.filter_congr
        intro k _
        simp [and_comm, beq_eq_decide]
      rw [if_neg held, List.filter_cons_of_pos (by simpa using held), List.eraseDups_cons, others,
        List.append_assoc]
      rfl

theorem keys_group :
    keys (group entries) = (entries.map (·.1)).eraseDups := by
  rw [group, keys_foldl_extend entries [] List.nodup_nil]
  simp [keys]

theorem group_eq :
    group entries = (entries.map (·.1)).eraseDups.map fun key =>
      (key, (entries.filter (·.1 = key)).map (·.2)) := by
  have distinct : (keys (group entries)).Nodup := by
    rw [keys_group]
    exact Collections.nodup_eraseDups _
  rw [← keys_group, keys, List.map_map]
  refine (List.map_id' _).symm.trans (List.map_congr_left fun entry member => ?_)
  have found := Collections.lookup_of_nodup distinct member
  refine Prod.ext rfl ?_
  rw [Function.comp, ← valuesOf_group, valuesOf, found]
  rfl

end

theorem valuesOf_map {γ : Type} {f : List β → List γ} (empty : f [] = []) (d : List (κ × List β))
    (key : κ) : valuesOf (d.map fun entry => (entry.1, f entry.2)) key = f (valuesOf d key) := by
  induction d with
  | nil => exact empty.symm
  | cons entry d ih =>
    rw [valuesOf, List.map_cons, List.lookup_cons, valuesOf, List.lookup_cons]
    cases key == entry.1 with
    | true => rfl
    | false => exact ih

def recalled (compute : κ → β) (memory : List (κ × β)) (key : κ) : β × List (κ × β) :=
  match memory.lookup key with
  | some value => (value, memory)
  | none => (compute key, set memory key (compute key))

/-- What is remembered is what the function returns. -/
def Remembers (compute : κ → β) (memory : List (κ × β)) : Prop :=
  ∀ key value, memory.lookup key = some value → value = compute key

theorem remembers_nil (compute : κ → β) : Remembers compute [] := fun _ _ found => by cases found

variable {memory : List (κ × β)} {compute : κ → β}

theorem recalled_fst (sound : Remembers compute memory)
    (key : κ) : (recalled compute memory key).1 = compute key := by
  rw [recalled]
  split
  next value found => exact sound key value found
  next => rfl

theorem recalled_snd (sound : Remembers compute memory)
    (key : κ) : Remembers compute (recalled compute memory key).2 := by
  rw [recalled]
  split
  next => exact sound
  next =>
    -- the new entry is what was computed, and the others are as before
    intro other value found
    rw [lookup_set] at found
    split at found
    next here => cases found; rw [here]
    next => exact sound other value found

end Dicts
