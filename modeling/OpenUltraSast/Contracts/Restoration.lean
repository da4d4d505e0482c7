import OpenUltraSast.Contracts.Decoding

/-!
# Construction

What a declared kind accepts of a constructor's argument, and what a constructed contract holds:
its fields in the declared order, each one accepted by its kind.
-/

namespace OpenUltraSast.Contracts

open JsonText List

theorem accepts_atom (atom : Atom) (given : Obj) :
    accepts (.atom atom) given = (atomValue atom given).isSome := by
  rw [accepts, value]

@[simp] theorem accepts_contract (cls : String) (given : Obj) :
    accepts (.contract cls) given = isInstance cls given := by
  rw [accepts, value]
  cases isInstance cls given <;> rfl

private theorem isSome_firstValue (kinds : List Kind) (given : Obj) :
    (firstValue (fun _ _ => none) false kinds given).isSome = kinds.any (accepts · given) := by
  induction kinds with
  | nil => rfl
  | cons kind kinds ih => rw [firstValue, Option.isSome_or, ih, any_cons, accepts]

theorem accepts_union (kinds : List Kind) (given : Obj) :
    accepts (.union kinds) given = kinds.any (accepts · given) := by
  rw [accepts, value, isSome_firstValue]

theorem accepts_variadic {item : Kind} {given : Obj} :
    accepts (.variadic item) given = true ↔
      ∃ items, given = .tuple items ∧ ∀ entry ∈ items, accepts item entry = true := by
  rw [accepts, value]
  cases given with
  | tuple items =>
    simp only [itemsOf, Option.bind_some, Option.isSome_map, Obj.tuple.injEq, exists_eq_left']
    exact Collections.isSome_mapM_iff
  | scalar | list | dict | contract | other => simp [itemsOf]

private theorem isSome_values (kinds : List Kind) (items : List Obj) :
    (values (fun _ _ => none) false kinds items).isSome ↔
      List.Forall₂ (fun kind entry => accepts kind entry = true) kinds items := by
  induction kinds generalizing items with
  | nil => cases items <;> simp [values]
  | cons kind kinds ih =>
    cases items with
    | nil => simp [values]
    | cons entry items =>
      rw [values, forall₂_cons, ← ih, accepts]
      cases value (fun _ _ => none) false kind entry <;> simp

theorem accepts_fixed {kinds : List Kind} {given : Obj} :
    accepts (.fixed kinds) given = true ↔ ∃ items, given = .tuple items ∧
      List.Forall₂ (fun kind entry => accepts kind entry = true) kinds items := by
  rw [accepts, value]
  cases given with
  | tuple items =>
    simp only [itemsOf, Option.bind_some, Option.isSome_map, Obj.tuple.injEq, exists_eq_left']
    exact isSome_values kinds items
  | scalar | list | dict | contract | other => simp [itemsOf]

private theorem codePoint_injective : Function.Injective codePoint := by
  intro a b same
  have value := congrArg Fin.val same
  exact Char.toNat_inj.mp value

theorem points_injective : Function.Injective points := by
  intro a b same
  have lists := codePoint_injective.list_map same
  exact String.toList_inj.mp lists

theorem nodup_names (definition : ClassDef) : definition.names.Nodup := definition.distinct

variable {definition : ClassDef}

theorem fieldNamed_name {field : Field} (declared : field ∈ definition.fields) :
    definition.fieldNamed (points field.name) = some field := by
  rw [ClassDef.fieldNamed]
  cases found : definition.fields.find? fun other => points other.name = points field.name with
  | none =>
    rw [List.find?_eq_none] at found
    exact absurd (found field declared) (by simp)
  | some other =>
    have matched := List.find?_some found
    have names : other.name = field.name := points_injective (by simpa using matched)
    rw [inj_on_of_nodup_map definition.distinct (mem_of_find?_eq_some found) declared names]

theorem fieldNamed_some {key : List CodePoint} {field : Field}
    (found : definition.fieldNamed key = some field) :
    field ∈ definition.fields ∧ points field.name = key :=
  ⟨mem_of_find?_eq_some found, by simpa using List.find?_some found⟩

variable {fields arguments : List (String × Obj)}

theorem fillDefaults_some (filled : fillDefaults definition arguments = some fields) :
    List.Forall₂ (fun field entry => entry.1 = field.name ∧
      (arguments.lookup field.name).or field.default = some entry.2) definition.fields fields := by
  refine (Collections.mapM_eq_some_iff.mp filled).imp fun field entry read => ?_
  obtain ⟨given, found, rfl⟩ := Option.map_eq_some_iff.mp read
  exact ⟨rfl, found⟩

theorem names_of_filled (filled : fillDefaults definition arguments = some fields) :
    fields.map (·.1) = definition.names := by
  have related := fillDefaults_some filled
  rw [ClassDef.names]
  generalize definition.fields = declared at related
  clear filled
  induction related with
  | nil => rfl
  | cons first _ ih => rw [map_cons, map_cons, first.1, ih]

theorem construct_some {cls : String} {result : Obj}
    (made : construct definition cls arguments = some result) :
    ∃ fields, result = .contract cls fields ∧ fillDefaults definition arguments = some fields ∧
      postInit definition fields = true := by
  rw [construct] at made
  split at made
  next =>
    obtain ⟨fields, filled, made⟩ := Option.bind_eq_some_iff.mp made
    split at made
    next valid => exact ⟨fields, (Option.some.inj made).symm, filled, valid⟩
    next => cases made
  next => cases made

theorem construct_self {cls : String} (named : fields.map (·.1) = definition.names)
    (valid : postInit definition fields = true) :
    construct definition cls fields = some (.contract cls fields) := by
  have keys : (fields.map (·.1)).Nodup := named ▸ nodup_names definition
  have known : fields.all (·.1 ∈ definition.names) = true := by
    simp only [all_eq_true, decide_eq_true_eq, ← named]
    exact fun entry member => mem_map_of_mem member
  have filled : fillDefaults definition fields = some fields := by
    apply Collections.mapM_eq_some_iff.mpr
    have aligned : List.Forall₂ (fun field entry => field.name = entry.1) definition.fields
        fields := by
      have names : List.Forall₂ (· = ·) (definition.fields.map (·.name)) (fields.map (·.1)) := by
        rw [forall₂_eq_eq_eq]
        exact named.symm
      exact forall₂_map_right_iff.mp (forall₂_map_left_iff.mp names)
    refine Collections.forall₂_imp_mem aligned fun field entry _ member name => ?_
    rw [name, Collections.lookup_of_nodup keys member]
    rfl
  rw [construct, if_pos known, filled, Option.bind_some, if_pos valid]

theorem postInit_accepts (named : fields.map (·.1) = definition.names)
    (valid : postInit definition fields = true) {entry : String × Obj} (member : entry ∈ fields) :
    ∃ field ∈ definition.fields, field.name = entry.1 ∧ accepts field.kind entry.2 = true := by
  have keys : (fields.map (·.1)).Nodup := named ▸ nodup_names definition
  have name : entry.1 ∈ definition.names := named ▸ mem_map_of_mem member
  obtain ⟨field, declared, same⟩ := mem_map.mp name
  rw [postInit, Bool.and_eq_true, all_eq_true] at valid
  have checked := valid.1 field declared
  rw [same, Collections.lookup_of_nodup keys member] at checked
  exact ⟨field, declared, same, checked⟩

inductive Constructed (schema : Schema) : Obj → Prop
  | scalar (value : Scalar) : Constructed schema (.scalar value)
  | other (identity : Nat) : Constructed schema (.other identity)
  | list {items : List Obj} (each : ∀ item ∈ items, Constructed schema item) :
      Constructed schema (.list items)
  | tuple {items : List Obj} (each : ∀ item ∈ items, Constructed schema item) :
      Constructed schema (.tuple items)
  | dict {entries : List (List CodePoint × Obj)}
      (each : ∀ entry ∈ entries, Constructed schema entry.2) : Constructed schema (.dict entries)
  | contract {cls : String} {definition : ClassDef} {arguments fields : List (String × Obj)}
      (known : schema cls = some definition)
      (made : construct definition cls arguments = some (.contract cls fields))
      (each : ∀ entry ∈ fields, Constructed schema entry.2) :
      Constructed schema (.contract cls fields)

end OpenUltraSast.Contracts

/-!
## Restoration

A constructed contract comes back from its payload. Scalars decode as they are checked; a tuple
comes back from the list of its payloads and a contract from its dictionary, and the one
alternative of a union that is not atomic is the one that takes them.
-/

namespace OpenUltraSast.Contracts

open JsonText List

/-- An object comes back from its payload at every kind that accepts it. -/
def Restores (read : String → Obj → Option Obj) (given : Obj) : Prop :=
  ∀ kind : Kind, kind.optional = true → accepts kind given = true →
    value read true kind (payload given) = some given

theorem payloads_eq_map (items : List Obj) : payloads items = items.map payload := by
  induction items with
  | nil => rfl
  | cons item items ih => rw [payloads, ih, map_cons]

theorem fieldPayloads_eq_map (fields : List (String × Obj)) :
    fieldPayloads fields = fields.map fun entry => (points entry.1, payload entry.2) := by
  induction fields with
  | nil => rfl
  | cons entry fields ih =>
    obtain ⟨name, given⟩ := entry
    rw [fieldPayloads, ih, map_cons]

section Scalars
variable {read : String → Obj → Option Obj}

mutual
theorem value_scalar (refuses : ∀ cls scalar, read cls (.scalar scalar) = none)
    (scalar : Scalar) : ∀ kind : Kind, value read true kind (.scalar scalar) =
      if accepts kind (.scalar scalar) then some (.scalar scalar) else none
  | .atom atom => by
    rw [accepts_atom, value, atomValue]
    split <;> rfl
  | .union kinds => by
    rw [accepts_union, value, firstValue_scalar refuses scalar kinds]
  | .variadic item => by
    -- A tuple kind takes no scalar, checking or decoding.
    have refused : ¬ accepts (.variadic item) (.scalar scalar) = true := fun accepted => by
      obtain ⟨_, shape, _⟩ := accepts_variadic.mp accepted
      cases shape
    rw [if_neg refused, value]
    rfl
  | .fixed kinds => by
    have refused : ¬ accepts (.fixed kinds) (.scalar scalar) = true := fun accepted => by
      obtain ⟨_, shape, _⟩ := accepts_fixed.mp accepted
      cases shape
    rw [if_neg refused, value]
    rfl
  | .contract cls => by
    rw [accepts_contract, value, refuses]
    rfl

theorem firstValue_scalar (refuses : ∀ cls scalar, read cls (.scalar scalar) = none)
    (scalar : Scalar) : ∀ kinds : List Kind, firstValue read true kinds (.scalar scalar) =
      if kinds.any (accepts · (.scalar scalar)) then some (.scalar scalar) else none
  | [] => by
    rw [firstValue]
    rfl
  | kind :: kinds => by
    rw [firstValue, any_cons, value_scalar refuses scalar kind,
      firstValue_scalar refuses scalar kinds]
    cases accepts kind (.scalar scalar) <;> rfl
end

private theorem restores_scalar (refuses : ∀ cls scalar, read cls (.scalar scalar) = none)
    (scalar : Scalar) : Restores read (.scalar scalar) := by
  intro kind _ accepted
  rw [payload, value_scalar refuses scalar kind, if_pos accepted]

end Scalars

structure Compound (read : String → Obj → Option Obj) (given : Obj) : Prop where
  atom : ∀ atom, atomValue atom given = none
  payloadAtom : ∀ atom, atomValue atom (payload given) = none
  variadic : ∀ item : Kind, item.optional = true → accepts (.variadic item) given = true →
    value read true (.variadic item) (payload given) = some given
  fixed : ∀ kinds, Kind.allOptional kinds = true → accepts (.fixed kinds) given = true →
    value read true (.fixed kinds) (payload given) = some given
  contract : ∀ cls, accepts (.contract cls) given = true →
    value read true (.contract cls) (payload given) = some given

section Compound
variable {read : String → Obj → Option Obj} {given : Obj}

theorem Compound.refusedByAtoms (compound : Compound read given) {kinds : List Kind}
    (atoms : kinds.filter (! ·.isAtom) = []) : kinds.any (accepts · given) = false := by
  rw [any_eq_false]
  intro kind member
  rw [filter_eq_nil_iff] at atoms
  have plain := atoms kind member
  cases kind with
  | atom atom => rw [accepts_atom, compound.atom]; simp
  | union | variadic | fixed | contract => simp [Kind.isAtom] at plain

mutual
theorem Compound.value (compound : Compound read given) : ∀ kind : Kind,
    kind.optional = true → accepts kind given = true →
      Contracts.value read true kind (payload given) = some given
  | .atom atom, _, accepted => by
    rw [accepts_atom, compound.atom] at accepted
    cases accepted
  | .union kinds, declared, accepted => by
    rw [Kind.optional, Bool.and_eq_true, decide_eq_true_iff] at declared
    rw [accepts_union] at accepted
    rw [Contracts.value]
    exact compound.firstValue kinds declared.2 declared.1 accepted
  | .variadic item, declared, accepted => by
    rw [Kind.optional] at declared
    exact compound.variadic item declared accepted
  | .fixed kinds, declared, accepted => by
    rw [Kind.optional] at declared
    exact compound.fixed kinds declared accepted
  | .contract cls, _, accepted => compound.contract cls accepted

theorem Compound.firstValue (compound : Compound read given) : ∀ kinds : List Kind,
    Kind.allOptional kinds = true → (kinds.filter (! ·.isAtom)).length ≤ 1 →
      kinds.any (accepts · given) = true →
        Contracts.firstValue read true kinds (payload given) = some given
  | [], _, _, accepted => by cases accepted
  | kind :: kinds, declared, single, accepted => by
    rw [Kind.allOptional, Bool.and_eq_true] at declared
    rw [Contracts.firstValue]
    rw [any_cons, Bool.or_eq_true] at accepted
    by_cases plain : kind.isAtom = true
    · -- An atom refuses the object and its payload.
      rw [filter_cons_of_neg (by simp [plain])] at single
      obtain ⟨atom, rfl⟩ : ∃ atom, kind = .atom atom := by
        cases kind with
        | atom atom => exact ⟨atom, rfl⟩
        | union | variadic | fixed | contract => cases plain
      have later : kinds.any (accepts · given) = true := by
        refine accepted.resolve_left ?_
        rw [accepts_atom, compound.atom]
        simp
      rw [Contracts.value, compound.payloadAtom, Option.none_or]
      exact compound.firstValue kinds declared.2 single later
    · -- This is the one other alternative, so it is the one that accepted.
      rw [filter_cons_of_pos (by simp [plain]), length_cons] at single
      have atoms : kinds.filter (! ·.isAtom) = [] := length_eq_zero_iff.mp (by omega)
      have here : accepts kind given = true := by
        refine accepted.resolve_right ?_
        rw [compound.refusedByAtoms atoms]
        simp
      rw [compound.value kind declared.1 here, Option.some_or]
end

theorem Compound.restores (compound : Compound read given) : Restores read given := compound.value

end Compound

variable {fields : List (String × Obj)} {cls : String}

section Shapes
variable {read : String → Obj → Option Obj}

private theorem values_restored {kinds : List Kind} {items : List Obj}
    (each : ∀ item ∈ items, Restores read item) (declared : Kind.allOptional kinds = true)
    (accepted : List.Forall₂ (fun kind entry => accepts kind entry = true) kinds items) :
    values read true kinds (payloads items) = some items := by
  induction accepted with
  | nil => rw [payloads, values]
  | cons first _ ih =>
    rw [Kind.allOptional, Bool.and_eq_true] at declared
    have head := each _ mem_cons_self _ declared.1 first
    have rest := ih (fun item member => each item (mem_cons_of_mem _ member)) declared.2
    rw [payloads, values, head, Option.bind_some, rest]
    rfl

private theorem compound_tuple {items : List Obj} (each : ∀ item ∈ items, Restores read item) :
    Compound read (.tuple items) where
  atom _ := rfl
  payloadAtom _ := rfl
  variadic item declared accepted := by
    obtain ⟨entries, shape, accepted⟩ := accepts_variadic.mp accepted
    cases shape
    -- The payload of a tuple is a list, which decodes item by item.
    have decoded : (payloads items).mapM (value read true item) = some items := by
      rw [payloads_eq_map, Collections.mapM_eq_some_iff, forall₂_map_left_iff,
        forall₂_same]
      exact fun entry member => each entry member item declared (accepted entry member)
    rw [payload, value, itemsOf, if_pos rfl, Option.bind_some, decoded]
    rfl
  fixed kinds declared accepted := by
    obtain ⟨entries, shape, accepted⟩ := accepts_fixed.mp accepted
    cases shape
    rw [payload, value, itemsOf, if_pos rfl, Option.bind_some,
      values_restored each declared accepted]
    rfl
  contract cls accepted := by
    rw [accepts_contract] at accepted
    cases accepted

private theorem compound_contract
    (restored : read cls (payload (.contract cls fields)) = some (.contract cls fields)) :
    Compound read (.contract cls fields) where
  atom _ := rfl
  payloadAtom _ := rfl
  variadic item _ accepted := by
    obtain ⟨_, shape, _⟩ := accepts_variadic.mp accepted
    cases shape
  fixed kinds _ accepted := by
    obtain ⟨_, shape, _⟩ := accepts_fixed.mp accepted
    cases shape
  contract name accepted := by
    rw [accepts_contract, isInstance, decide_eq_true_iff] at accepted
    rw [value, if_pos rfl, ← accepted]
    exact restored

private theorem compound_other {given : Obj} (atom : ∀ atom, atomValue atom given = none)
    (payloadAtom : ∀ atom, atomValue atom (payload given) = none)
    (tuple : ∀ items, given ≠ .tuple items) (contract : ∀ cls, isInstance cls given = false) :
    Compound read given where
  atom := atom
  payloadAtom := payloadAtom
  variadic item _ accepted := by
    obtain ⟨items, shape, _⟩ := accepts_variadic.mp accepted
    exact absurd shape (tuple items)
  fixed kinds _ accepted := by
    obtain ⟨items, shape, _⟩ := accepts_fixed.mp accepted
    exact absurd shape (tuple items)
  contract cls accepted := by
    rw [accepts_contract, contract] at accepted
    cases accepted

end Shapes

variable {schema : Schema}

private theorem fromPayload_fields {definition : ClassDef}
    (known : schema cls = some definition) (named : fields.map (·.1) = definition.names)
    (valid : postInit definition fields = true)
    (each : ∀ entry ∈ fields, Restores (fromPayload schema) entry.2) :
    fromPayload schema cls (.dict (fieldPayloads fields)) = some (.contract cls fields) := by
  have decoded : arguments (fromPayload schema) definition (fieldPayloads fields) =
      some fields := by
    rw [arguments, fieldPayloads_eq_map, Collections.mapM_eq_some_iff, forall₂_map_left_iff,
      forall₂_same]
    intro entry member
    -- The key finds the field again, and its kind accepted the value.
    obtain ⟨field, declared, name, accepted⟩ := postInit_accepts named valid member
    have optional := all_eq_true.mp definition.optional field declared
    have restored := each entry member field.kind optional accepted
    rw [← name, fieldNamed_name declared, Option.bind_some, restored, Option.map_some, name]
  rw [fromPayload_dict, known, Option.bind_some, decoded, Option.bind_some,
    construct_self named valid]

private theorem fromPayload_scalar (schema : Schema) (cls : String) (scalar : Scalar) :
    fromPayload schema cls (.scalar scalar) = none := rfl

/-- A contract that its constructor accepts is read back from its payload. -/
theorem Constructed.restores {given : Obj} (built : Constructed schema given) :
    Restores (fromPayload schema) given := by
  induction built with
  | scalar scalar => exact restores_scalar (fromPayload_scalar schema) scalar
  | other | list | dict =>
    refine (compound_other ?_ ?_ ?_ ?_).restores <;> intros <;> first | rfl | nofun
  | tuple _ restored => exact (compound_tuple restored).restores
  | contract known made _ restored =>
    obtain ⟨fields, same, filled, valid⟩ := construct_some made
    cases same
    exact (compound_contract
      (fromPayload_fields known (names_of_filled filled) valid restored)).restores

theorem fromPayload_toPayload (built : Constructed schema (.contract cls fields)) :
    fromPayload schema cls (payload (.contract cls fields)) = some (.contract cls fields) := by
  have accepted : accepts (.contract cls) (.contract cls fields) = true := by
    rw [accepts_contract, isInstance, decide_eq_true_iff]
  have restored := built.restores (.contract cls) rfl accepted
  rwa [value, if_pos rfl] at restored

end OpenUltraSast.Contracts
