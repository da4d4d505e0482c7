import OpenUltraSast.Contracts.Restoration

/-!
# Filling

What `from_payload` accepts is what encoding its result gives back, once the fields that were
omitted are filled in with their defaults and tuples are written as lists.
-/

namespace OpenUltraSast.Contracts

open JsonText List

/-- A payload of a kind, and the same payload with the omitted fields of every dictionary filled
in. A list stands for the tuple or list that was given. -/
inductive Filled (schema : Schema) : Kind → Obj → Obj → Prop
  | scalar {kind : Kind} (scalar : Scalar) : Filled schema kind (.scalar scalar) (.scalar scalar)
  | union {kinds : List Kind} {kind : Kind} {given encoded : Obj} (alternative : kind ∈ kinds)
      (filled : Filled schema kind given encoded) : Filled schema (.union kinds) given encoded
  | variadic {item : Kind} {given : Obj} {pairs : List (Obj × Obj)}
      (items : itemsOf true given = some (pairs.map (·.1)))
      (each : ∀ pair ∈ pairs, Filled schema item pair.1 pair.2) :
      Filled schema (.variadic item) given (.list (pairs.map (·.2)))
  | fixed {given : Obj} {parts : List (Kind × Obj × Obj)}
      (items : itemsOf true given = some (parts.map (·.2.1)))
      (each : ∀ part ∈ parts, Filled schema part.1 part.2.1 part.2.2) :
      Filled schema (.fixed (parts.map (·.1))) given (.list (parts.map (·.2.2)))
  | contract {cls : String} {definition : ClassDef} {entries : List (List CodePoint × Obj)}
      {encoded : Field → Obj} (known : schema cls = some definition)
      (declared : ∀ entry ∈ entries, ∃ field ∈ definition.fields, points field.name = entry.1)
      (present : ∀ field ∈ definition.fields, ∀ given,
        entries.lookup (points field.name) = some given →
          Filled schema field.kind given (encoded field))
      (omitted : ∀ field ∈ definition.fields, entries.lookup (points field.name) = none →
        ∃ default, field.default = some default ∧ encoded field = payload default) :
      Filled schema (.contract cls) (.dict entries)
        (.dict (definition.fields.map fun field => (points field.name, encoded field)))

section Kinds
variable {schema : Schema} {read : String → Obj → Option Obj}

private theorem filled_atom {atom : Atom} {given result : Obj}
    (accepted : atomValue atom given = some result) :
    Filled schema (.atom atom) given (payload result) := by
  cases given with
  | scalar scalar =>
    rw [atomValue] at accepted
    split at accepted
    next =>
      cases accepted
      exact .scalar scalar
    next => cases accepted
  | list | tuple | dict | contract | other => cases accepted

mutual
/-- What is decoded and encoded again is the payload with its defaults filled in. -/
theorem filled_value (nested : ∀ cls given result, read cls given = some result →
      Filled schema (.contract cls) given (payload result)) :
    ∀ (kind : Kind) (given result : Obj), value read true kind given = some result →
      Filled schema kind given (payload result)
  | .atom atom, given, result, accepted => by
    rw [value] at accepted
    exact filled_atom accepted
  | .union kinds, given, result, accepted => by
    rw [value] at accepted
    obtain ⟨kind, alternative, filled⟩ := filled_firstValue nested kinds given result accepted
    exact .union alternative filled
  | .variadic item, given, result, accepted => by
    rw [value] at accepted
    obtain ⟨items, taken, accepted⟩ := Option.bind_eq_some_iff.mp accepted
    obtain ⟨results, decoded, rfl⟩ := Option.map_eq_some_iff.mp accepted
    -- The items of the result are the encodings of the items that were read.
    have each : List.Forall₂ (fun entry encoded => Filled schema item entry encoded) items
        (results.map payload) := by
      rw [forall₂_map_right_iff]
      exact (Collections.mapM_eq_some_iff.mp decoded).imp fun entry result =>
        filled_value nested item entry result
    obtain ⟨pairs, rfl, encoded, each⟩ := Collections.exists_pairs_of_forall₂ each
    rw [payload, payloads_eq_map, ← encoded]
    exact .variadic taken each
  | .fixed kinds, given, result, accepted => by
    rw [value] at accepted
    obtain ⟨items, taken, accepted⟩ := Option.bind_eq_some_iff.mp accepted
    obtain ⟨results, decoded, rfl⟩ := Option.map_eq_some_iff.mp accepted
    obtain ⟨parts, rfl, rfl, encoded, each⟩ := filled_values nested kinds items results decoded
    rw [payload, ← encoded]
    exact .fixed taken each
  | .contract cls, given, result, accepted => by
    rw [value, if_pos rfl] at accepted
    exact nested cls given result accepted

theorem filled_firstValue (nested : ∀ cls given result, read cls given = some result →
      Filled schema (.contract cls) given (payload result)) :
    ∀ (kinds : List Kind) (given result : Obj), firstValue read true kinds given = some result →
      ∃ kind ∈ kinds, Filled schema kind given (payload result)
  | [], _, _, accepted => by
    rw [firstValue] at accepted
    cases accepted
  | kind :: kinds, given, result, accepted => by
    rw [firstValue, Option.or_eq_some_iff] at accepted
    rcases accepted with here | ⟨_, later⟩
    · exact ⟨kind, mem_cons_self, filled_value nested kind given result here⟩
    · obtain ⟨other, member, filled⟩ := filled_firstValue nested kinds given result later
      exact ⟨other, mem_cons_of_mem _ member, filled⟩

theorem filled_values (nested : ∀ cls given result, read cls given = some result →
      Filled schema (.contract cls) given (payload result)) :
    ∀ (kinds : List Kind) (items results : List Obj),
      values read true kinds items = some results →
      ∃ parts : List (Kind × Obj × Obj), parts.map (·.1) = kinds ∧ parts.map (·.2.1) = items ∧
        parts.map (·.2.2) = payloads results ∧
          ∀ part ∈ parts, Filled schema part.1 part.2.1 part.2.2
  | [], [], results, accepted => by
    rw [values] at accepted
    cases accepted
    exact ⟨[], rfl, rfl, rfl, nofun⟩
  | [], _ :: _, _, accepted => by cases accepted
  | _ :: _, [], _, accepted => by cases accepted
  | kind :: kinds, entry :: items, results, accepted => by
    rw [values] at accepted
    obtain ⟨first, here, accepted⟩ := Option.bind_eq_some_iff.mp accepted
    obtain ⟨rest, later, rfl⟩ := Option.map_eq_some_iff.mp accepted
    obtain ⟨parts, rfl, rfl, encoded, each⟩ := filled_values nested kinds items rest later
    have filled := filled_value nested kind entry first here
    refine ⟨(kind, entry, payload first) :: parts, rfl, rfl, ?_, ?_⟩
    · rw [map_cons, payloads, encoded]
    · exact forall_mem_cons.mpr ⟨filled, each⟩
end

end Kinds

variable {entries : List (List CodePoint × Obj)} {given : List (String × Obj)}

section Classes
variable {definition : ClassDef} {read : String → Obj → Option Obj} {field : Field}

section
variable (decoded : arguments read definition entries = some given)
include decoded

theorem lookup_arguments (declared : field ∈ definition.fields) :
    given.lookup field.name =
      (entries.lookup (points field.name)).bind (value read true field.kind) := by
  have related := Collections.mapM_eq_some_iff.mp decoded
  clear decoded
  induction related with
  | nil => rfl
  | @cons entry argument entries given first _ ih =>
    -- The first entry decodes to the argument of the field it names.
    obtain ⟨other, named, first⟩ := Option.bind_eq_some_iff.mp first
    obtain ⟨result, accepted, rfl⟩ := Option.map_eq_some_iff.mp first
    obtain ⟨otherDeclared, key⟩ := fieldNamed_some named
    rw [lookup_cons]
    by_cases same : field.name = other.name
    · -- The entry is the one of this field.
      have here := fieldNamed_name declared
      rw [same, key, named] at here
      obtain rfl := Option.some.inj here
      obtain ⟨name, given⟩ := entry
      simp only at key
      subst key
      rw [beq_self_eq_true, List.lookup_cons_self]
      exact accepted.symm
    · -- An entry of another field is passed over on both sides.
      have apart : (field.name == other.name) = false := beq_eq_false_iff_ne.mpr same
      have keys : (points field.name == entry.1) = false := by
        rw [beq_eq_false_iff_ne, ← key]
        exact fun equal => same (points_injective equal)
      obtain ⟨name, value⟩ := entry
      rw [apart, lookup_cons, keys]
      exact ih

private theorem decoded_of_present (declared : field ∈ definition.fields) {value : Obj}
    (present : entries.lookup (points field.name) = some value) :
    ∃ result, Contracts.value read true field.kind value = some result := by
  obtain ⟨before, after, shape, _⟩ := lookup_eq_some_iff.mp present
  have member : (points field.name, value) ∈ entries := by rw [shape]; simp
  have related := Collections.mapM_eq_some_iff.mp decoded
  obtain ⟨_, _, read⟩ := Collections.exists_right_of_forall₂ related member
  rw [fieldNamed_name declared, Option.bind_some] at read
  obtain ⟨result, accepted, _⟩ := Option.map_eq_some_iff.mp read
  exact ⟨result, accepted⟩

private theorem declared_of_decoded {entry : List CodePoint × Obj} (member : entry ∈ entries) :
    ∃ field ∈ definition.fields, points field.name = entry.1 := by
  have related := Collections.mapM_eq_some_iff.mp decoded
  obtain ⟨_, _, read⟩ := Collections.exists_right_of_forall₂ related member
  obtain ⟨field, named, _⟩ := Option.bind_eq_some_iff.mp read
  obtain ⟨declared, key⟩ := fieldNamed_some named
  exact ⟨field, declared, key⟩

end

def held (fields : List (String × Obj)) (field : Field) : Obj :=
  (fields.lookup field.name).getD (.other 0)

theorem held_of_filled {arguments fields : List (String × Obj)}
    (filled : fillDefaults definition arguments = some fields)
    (declared : field ∈ definition.fields) :
    (arguments.lookup field.name).or field.default = some (held fields field) := by
  have keys : (fields.map (·.1)).Nodup := names_of_filled filled ▸ nodup_names definition
  obtain ⟨entry, member, name, found⟩ :=
    Collections.exists_right_of_forall₂ (fillDefaults_some filled) declared
  rw [held, ← name, Collections.lookup_of_nodup keys member, name]
  exact found

private theorem fieldPayloads_held {fields : List (String × Obj)}
    (named : fields.map (·.1) = definition.names) :
    fieldPayloads fields =
      definition.fields.map fun field => (points field.name, payload (held fields field)) := by
  have keys : (fields.map (·.1)).Nodup := named ▸ nodup_names definition
  have entries : fields = definition.fields.map fun field => (field.name, held fields field) := by
    have names : List.Forall₂ (fun entry field => entry.1 = field.name) fields
        definition.fields := by
      have equal : List.Forall₂ (· = ·) (fields.map (·.1)) (definition.fields.map (·.name)) := by
        rw [forall₂_eq_eq_eq]
        exact named
      exact forall₂_map_left_iff.mp (forall₂_map_right_iff.mp equal)
    rw [← forall₂_eq_eq_eq, forall₂_map_right_iff]
    refine Collections.forall₂_imp_mem names fun entry field member _ name => ?_
    rw [held, ← name, Collections.lookup_of_nodup keys member]
    rfl
  rw [fieldPayloads_eq_map]
  conv_lhs => rw [entries]
  rw [map_map]
  rfl

end Classes

theorem filled_within (schema : Schema) (depth : Nat) (cls : String) (given result : Obj)
    (accepted : fromPayloadWithin schema depth cls given = some result) :
    Filled schema (.contract cls) given (payload result) := by
  induction depth generalizing cls given result with
  | zero => cases accepted
  | succ depth ih =>
    cases given with
    | dict entries =>
      obtain ⟨definition, known, accepted⟩ := Option.bind_eq_some_iff.mp accepted
      obtain ⟨given, decoded, made⟩ := Option.bind_eq_some_iff.mp accepted
      obtain ⟨fields, rfl, filled, _⟩ := construct_some made
      rw [payload, fieldPayloads_held (names_of_filled filled)]
      refine .contract known (fun entry member => declared_of_decoded decoded member) ?_ ?_
      · -- A given field holds what its value decodes to.
        intro field declared value present
        have found := held_of_filled filled declared
        have argument := lookup_arguments decoded declared
        obtain ⟨result, read⟩ := decoded_of_present decoded declared present
        rw [argument, present, Option.bind_some, read, Option.some_or] at found
        obtain rfl := Option.some.inj found
        exact filled_value ih field.kind value _ read
      · -- An omitted one holds its default.
        intro field declared absent
        have found := held_of_filled filled declared
        have argument := lookup_arguments decoded declared
        rw [absent, Option.bind_none] at argument
        rw [argument, Option.none_or] at found
        exact ⟨_, found, rfl⟩
    | scalar | list | tuple | contract | other => cases accepted

theorem fromPayload_filled {schema : Schema} {cls : String} {given result : Obj}
    (accepted : fromPayload schema cls given = some result) :
    Filled schema (.contract cls) given (payload result) :=
  filled_within schema given.depth cls given result accepted

end OpenUltraSast.Contracts
