import OpenUltraSast.Contracts.Restoration

/-!
# Transport

A payload that passes through JSON text. The writer refuses an integer of too many digits, and
the reader joins what looks like a surrogate pair; a payload without either comes back as it was.
-/

namespace OpenUltraSast.Contracts

open JsonText List

def dumpScalar : Scalar → Option Document
  | .none => some .null
  | .bool value => some (.bool value)
  | .int value => if fitsDigits value then some (.int value) else none
  | .float value => some (.float value)
  | .special value => some (.special value)
  | .str text => some (.string (writeString text))

mutual
/-- `json.dumps`, `none` where it raises; a payload holds no object of another type. -/
def dumps : Obj → Option Document
  | .scalar value => dumpScalar value
  | .list items => (dumpItems items).map .array
  | .tuple items => (dumpItems items).map .array
  | .dict entries => (dumpEntries entries).map .object
  | .contract _ _ => none
  | .other _ => none

def dumpItems : List Obj → Option (List Document)
  | [] => some []
  | item :: items => (dumps item).bind fun first => (dumpItems items).map (first :: ·)

def dumpEntries : List (List CodePoint × Obj) → Option (List (List CodeUnit × Document))
  | [] => some []
  | (key, given) :: entries => (dumps given).bind fun first =>
    (dumpEntries entries).map ((writeString key, first) :: ·)
end

/-- `entries[key] = given`. -/
def put (entries : List (List CodePoint × Obj)) (entry : List CodePoint × Obj) :
    List (List CodePoint × Obj) :=
  if entries.any (·.1 = entry.1) then
    entries.map fun other => if other.1 = entry.1 then entry else other
  else entries ++ [entry]

mutual
/-- `json.loads`, `none` where it raises. -/
def loads : Document → Option Obj
  | .null => some (.scalar .none)
  | .bool value => some (.scalar (.bool value))
  | .int value => if fitsDigits value then some (.scalar (.int value)) else none
  | .float value => some (.scalar (.float value))
  | .special value => some (.scalar (.special value))
  | .string units => some (.scalar (.str (readString units)))
  | .array items => (loadItems items).map .list
  | .object members => (loadMembers members).map fun entries => .dict (entries.foldl put [])

def loadItems : List Document → Option (List Obj)
  | [] => some []
  | item :: items => (loads item).bind fun first => (loadItems items).map (first :: ·)

def loadMembers : List (List CodeUnit × Document) → Option (List (List CodePoint × Obj))
  | [] => some []
  | (key, given) :: members => (loads given).bind fun first =>
    (loadMembers members).map ((readString key, first) :: ·)
end

def Scalar.portable : Scalar → Bool
  | .int value => fitsDigits value
  | .str text => pairFree text
  | _ => true

mutual
/-- No string holds a high surrogate directly before a low one, and no integer is too long. -/
def portable : Obj → Bool
  | .scalar value => value.portable
  | .list items => allPortable items
  | .tuple items => allPortable items
  | .dict entries => entriesPortable entries
  | .contract _ fields => fieldsPortable fields
  | .other _ => true

def allPortable : List Obj → Bool
  | [] => true
  | item :: items => portable item && allPortable items

def entriesPortable : List (List CodePoint × Obj) → Bool
  | [] => true
  | (key, given) :: entries => pairFree key && portable given && entriesPortable entries

def fieldsPortable : List (String × Obj) → Bool
  | [] => true
  | (_, given) :: fields => portable given && fieldsPortable fields
end

/-- A payload that is written and comes back as it was. -/
def Travels (given : Obj) : Prop := ∃ text, dumps given = some text ∧ loads text = some given

private theorem travels_scalar {scalar : Scalar} (fits : scalar.portable = true) :
    Travels (.scalar scalar) := by
  cases scalar with
  | int value =>
    rw [Scalar.portable] at fits
    exact ⟨.int value, by rw [dumps, dumpScalar, if_pos fits], by rw [loads, if_pos fits]⟩
  | str text =>
    rw [Scalar.portable] at fits
    exact ⟨.string (writeString text), rfl, by rw [loads, readString_writeString text fits]⟩
  | none | bool | float | special => exact ⟨_, rfl, rfl⟩

private theorem travels_list {items : List Obj} (each : ∀ item ∈ items, Travels item) :
    Travels (.list items) := by
  have written : ∃ texts, dumpItems items = some texts ∧ loadItems texts = some items := by
    induction items with
    | nil => exact ⟨[], rfl, rfl⟩
    | cons item items ih =>
      obtain ⟨text, dumped, loaded⟩ := each item mem_cons_self
      obtain ⟨texts, later, back⟩ := ih fun other member => each other (mem_cons_of_mem _ member)
      refine ⟨text :: texts, ?_, ?_⟩
      · rw [dumpItems, dumped, later]
        rfl
      · rw [loadItems, loaded, back]
        rfl
  obtain ⟨texts, dumped, loaded⟩ := written
  exact ⟨.array texts, by rw [dumps, dumped]; rfl, by rw [loads, loaded]; rfl⟩

private theorem foldl_put {entries before : List (List CodePoint × Obj)}
    (distinct : ((before ++ entries).map (·.1)).Nodup) :
    entries.foldl put before = before ++ entries := by
  induction entries generalizing before with
  | nil => simp
  | cons entry entries ih =>
    -- No key repeats, so every entry is appended.
    have fresh : before.any (·.1 = entry.1) = false := by
      rw [any_eq_false]
      intro other member same
      rw [map_append, map_cons, nodup_append] at distinct
      have apart := distinct.2.2 other.1 (mem_map_of_mem member) entry.1 mem_cons_self
      exact apart (by simpa using same)
    have step : put before entry = before ++ [entry] := by rw [put, fresh]; rfl
    rw [foldl_cons, step, ih (by simpa using distinct), append_assoc,
      singleton_append]

private theorem travels_dict {entries : List (List CodePoint × Obj)}
    (distinct : (entries.map (·.1)).Nodup) (keys : ∀ entry ∈ entries, pairFree entry.1 = true)
    (each : ∀ entry ∈ entries, Travels entry.2) : Travels (.dict entries) := by
  have written : ∃ texts, dumpEntries entries = some texts ∧ loadMembers texts = some entries := by
    clear distinct
    induction entries with
    | nil => exact ⟨[], rfl, rfl⟩
    | cons entry entries ih =>
      obtain ⟨text, dumped, loaded⟩ := each entry mem_cons_self
      have key := readString_writeString entry.1 (keys entry mem_cons_self)
      obtain ⟨texts, later, back⟩ := ih
        (fun other member => keys other (mem_cons_of_mem _ member))
        (fun other member => each other (mem_cons_of_mem _ member))
      refine ⟨(writeString entry.1, text) :: texts, ?_, ?_⟩
      · rw [dumpEntries, dumped, later]
        rfl
      · rw [loadMembers, loaded, back, key]
        rfl
  obtain ⟨texts, dumped, loaded⟩ := written
  refine ⟨.object texts, by rw [dumps, dumped]; rfl, ?_⟩
  rw [loads, loaded, Option.map_some, foldl_put (by simpa using distinct), nil_append]

/-- An argument that some kind accepts is a scalar, a contract, or a tuple of such arguments. -/
def Parts : Obj → Prop
  | .scalar _ => True
  | .tuple items => ∀ item ∈ items, ∃ kind, accepts kind item = true
  | .contract _ _ => True
  | _ => False

mutual
theorem accepts_parts (given : Obj) : ∀ kind : Kind, accepts kind given = true → Parts given
  | .atom atom, accepted => by
    rw [accepts_atom] at accepted
    cases given with
    | scalar => trivial
    | list | tuple | dict | contract | other => cases accepted
  | .union kinds, accepted => by
    rw [accepts_union] at accepted
    exact any_parts given kinds accepted
  | .variadic item, accepted => by
    obtain ⟨items, rfl, each⟩ := accepts_variadic.mp accepted
    exact fun entry member => ⟨item, each entry member⟩
  -- A tuple kind accepts a tuple whose items its own kinds accept.
  | .fixed kinds, accepted => by
    obtain ⟨items, rfl, each⟩ := accepts_fixed.mp accepted
    intro entry member
    obtain ⟨kind, _, accepted⟩ := Collections.exists_left_of_forall₂ each member
    exact ⟨kind, accepted⟩
  | .contract cls, accepted => by
    rw [accepts_contract] at accepted
    cases given with
    | contract => trivial
    | scalar | list | tuple | dict | other => cases accepted

theorem any_parts (given : Obj) : ∀ kinds : List Kind,
    kinds.any (accepts · given) = true → Parts given
  | [], accepted => by cases accepted
  | kind :: kinds, accepted => by
    rw [any_cons, Bool.or_eq_true] at accepted
    rcases accepted with here | later
    · exact accepts_parts given kind here
    · exact any_parts given kinds later
end

theorem portable_of_mem {items : List Obj} (fits : allPortable items = true) {item : Obj}
    (member : item ∈ items) : portable item = true := by
  induction items with
  | nil => simp at member
  | cons head items ih =>
    rw [allPortable, Bool.and_eq_true] at fits
    rcases mem_cons.mp member with rfl | member
    · exact fits.1
    · exact ih fits.2 member

theorem portable_of_field {fields : List (String × Obj)} (fits : fieldsPortable fields = true)
    {entry : String × Obj} (member : entry ∈ fields) : portable entry.2 = true := by
  induction fields with
  | nil => simp at member
  | cons head fields ih =>
    rw [fieldsPortable, Bool.and_eq_true] at fits
    rcases mem_cons.mp member with rfl | member
    · exact fits.1
    · exact ih fits.2 member

private theorem not_high_codePoint (c : Char) : isHigh (codePoint c).val = false := by
  rw [isHigh, Bool.and_eq_false_iff, decide_eq_false_iff_not, decide_eq_false_iff_not]
  rcases c.valid with below | ⟨above, _⟩ <;> simp only [codePoint, Char.toNat] <;> omega

private theorem pairFree_points (text : String) : pairFree (points text) = true := by
  rw [points]
  induction text.toList with
  | nil => rfl
  | cons c rest ih =>
    cases rest with
    | nil => rfl
    | cons next rest =>
      rw [map_cons, map_cons, pairFree, not_high_codePoint]
      simpa using ih

/-- The payload of a portable contract survives being text. -/
theorem Constructed.travels {schema : Schema} {given : Obj} (built : Constructed schema given)
    (accepted : ∃ kind, accepts kind given = true) (fits : portable given = true) :
    Travels (payload given) := by
  induction built with
  | scalar scalar => exact travels_scalar fits
  -- No kind accepts these, so no contract holds them.
  | other | list | dict =>
    obtain ⟨kind, accepted⟩ := accepted
    exact (accepts_parts _ kind accepted).elim
  | tuple _ travels =>
    obtain ⟨kind, accepted⟩ := accepted
    have parts := accepts_parts _ kind accepted
    rw [portable] at fits
    rw [payload, payloads_eq_map]
    -- A tuple is written as the list of its payloads.
    apply travels_list
    intro item member
    obtain ⟨original, inside, rfl⟩ := mem_map.mp member
    exact travels original inside (parts original inside) (portable_of_mem fits inside)
  | @contract cls definition arguments fields known made _ travels =>
    obtain ⟨_, same, filled, valid⟩ := construct_some made
    cases same
    have named := names_of_filled filled
    rw [portable] at fits
    rw [payload, fieldPayloads_eq_map]
    -- A contract is written as a dictionary, whose keys are distinct names without surrogates.
    apply travels_dict
    · have keys : (fields.map (·.1)).map points = (fields.map fun entry =>
          (points entry.1, payload entry.2)).map (·.1) := by
        rw [map_map, map_map]
        rfl
      rw [← keys, named]
      exact (nodup_names definition).map points_injective
    · intro entry member
      obtain ⟨original, _, rfl⟩ := mem_map.mp member
      exact pairFree_points original.1
    · intro entry member
      obtain ⟨original, inside, rfl⟩ := mem_map.mp member
      obtain ⟨field, _, _, accepted⟩ := postInit_accepts named valid inside
      exact travels original inside ⟨field.kind, accepted⟩ (portable_of_field fits inside)

end OpenUltraSast.Contracts
