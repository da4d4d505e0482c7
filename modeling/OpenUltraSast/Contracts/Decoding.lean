import OpenUltraSast.Contracts.Values
import OpenUltraSast.Library.Collections

/-!
# Decoding

`from_payload` as the source writes it: every nested payload is read by `from_payload` itself,
whatever the depth that the model counts down from.
-/

namespace OpenUltraSast.Contracts

open JsonText Option

variable {items : List Obj}

private theorem depth_le_depths {item : Obj} (member : item ∈ items) :
    item.depth ≤ depths items := by
  induction items with
  | nil => simp at member
  | cons head items ih =>
    rw [depths]
    rcases List.mem_cons.mp member with rfl | member
    · exact le_max_left _ _
    · exact le_trans (ih member) (le_max_right _ _)

variable {entries : List (List CodePoint × Obj)}

private theorem depth_le_entryDepths {entry : List CodePoint × Obj}
    (member : entry ∈ entries) :
    entry.2.depth ≤ entryDepths entries := by
  induction entries with
  | nil => simp at member
  | cons head entries ih =>
    rw [entryDepths]
    rcases List.mem_cons.mp member with rfl | member
    · exact le_max_left _ _
    · exact le_trans (ih member) (le_max_right _ _)

private theorem itemsOf_cases {decode : Bool} {given : Obj}
    (read : itemsOf decode given = some items) :
    given = .tuple items ∨ (decode = true ∧ given = .list items) := by
  cases given with
  | tuple => cases read; exact .inl rfl
  | list =>
    simp only [itemsOf] at read
    split at read
    next decoding => cases read; exact .inr ⟨decoding, rfl⟩
    next => cases read
  | scalar | dict | contract | other => cases read

theorem depth_item {decode : Bool} {given item : Obj}
    (read : itemsOf decode given = some items) (member : item ∈ items) :
    item.depth ≤ given.depth := by
  have below := depth_le_depths member
  rcases itemsOf_cases read with rfl | ⟨_, rfl⟩ <;> simp only [Obj.depth] <;> omega

section Agree
variable {f g : String → Obj → Option Obj} {decode : Bool}

mutual
theorem value_congr : ∀ (kind : Kind) (given : Obj),
    (∀ cls item, item.depth ≤ given.depth → f cls item = g cls item) →
    value f decode kind given = value g decode kind given
  | .atom _, _, _ => by rw [value, value]
  | .union alternatives, given, agree => by
    rw [value, value]
    exact firstValue_congr alternatives given agree
  | .variadic kind, given, agree => by
    rw [value, value]
    cases read : itemsOf decode given with
    | none => rfl
    | some items =>
      -- Every item is read at a depth that the given object bounds.
      have same : items.mapM (value f decode kind) = items.mapM (value g decode kind) :=
        Collections.mapM_congr_mem fun entry member => value_congr kind entry
          fun cls item small => agree cls item (small.trans (depth_item read member))
      rw [bind_some, bind_some, same]
  | .fixed kinds, given, agree => by
    rw [value, value]
    cases read : itemsOf decode given with
    | none => rfl
    | some items =>
      have same := values_congr kinds items fun entry member cls item small =>
        agree cls item (small.trans (depth_item read member))
      rw [bind_some, bind_some, same]
  | .contract cls, given, agree => by
    rw [value, value, agree cls given le_rfl]

theorem firstValue_congr : ∀ (kinds : List Kind) (given : Obj),
    (∀ cls item, item.depth ≤ given.depth → f cls item = g cls item) →
    firstValue f decode kinds given = firstValue g decode kinds given
  | [], _, _ => by rw [firstValue, firstValue]
  | kind :: kinds, given, agree => by
    rw [firstValue, firstValue, value_congr kind given agree, firstValue_congr kinds given agree]

theorem values_congr : ∀ (kinds : List Kind) (items : List Obj),
    (∀ entry ∈ items, ∀ cls item, item.depth ≤ entry.depth → f cls item = g cls item) →
    values f decode kinds items = values g decode kinds items
  | [], [], _ => by rw [values, values]
  | [], _ :: _, _ => by rw [values, values] <;> simp
  | _ :: _, [], _ => by rw [values, values] <;> simp
  | kind :: kinds, entry :: items, agree => by
    have first := value_congr kind entry (agree entry List.mem_cons_self)
    have rest := values_congr kinds items fun entry member =>
      agree entry (List.mem_cons_of_mem _ member)
    rw [values, values, first, rest]
end

end Agree

theorem arguments_congr {f g : String → Obj → Option Obj} {definition : ClassDef}
    (agree : ∀ cls item, item.depth ≤ entryDepths entries → f cls item = g cls item) :
    arguments f definition entries = arguments g definition entries := by
  apply Collections.mapM_congr_mem
  intro entry member
  cases definition.fieldNamed entry.1 with
  | none => rfl
  | some field =>
    have same : value f true field.kind entry.2 = value g true field.kind entry.2 :=
      value_congr field.kind entry.2 fun cls item small =>
        agree cls item (small.trans (depth_le_entryDepths member))
    rw [bind_some, bind_some, same]

theorem fromPayloadWithin_stable (schema : Schema) {n m : Nat} {cls : String} {given : Obj}
    (first : given.depth ≤ n) (second : given.depth ≤ m) :
    fromPayloadWithin schema n cls given = fromPayloadWithin schema m cls given := by
  induction n generalizing m cls given with
  | zero =>
    cases given with
    | dict entries => simp [Obj.depth] at first
    | scalar | list | tuple | contract | other => cases m <;> rfl
  | succ n ih =>
    cases given with
    | dict entries =>
      simp only [Obj.depth] at first second
      -- Both depths allow one more level; below it the entries are read alike.
      obtain ⟨m, rfl⟩ : ∃ k, m = k + 1 := ⟨m - 1, by omega⟩
      have same : ∀ definition, arguments (fromPayloadWithin schema n) definition entries =
          arguments (fromPayloadWithin schema m) definition entries := fun definition =>
        arguments_congr fun cls item small => ih (by omega) (by omega)
      simp only [fromPayloadWithin, same]
    | scalar | list | tuple | contract | other => cases m <;> rfl

/-- `from_payload` of a dictionary decodes its entries and constructs from them. -/
theorem fromPayload_dict (schema : Schema) (cls : String)
    (entries : List (List CodePoint × Obj)) :
    fromPayload schema cls (.dict entries) = (schema cls).bind fun definition =>
      (arguments (fromPayload schema) definition entries).bind (construct definition cls) := by
  have same : ∀ definition,
      arguments (fromPayloadWithin schema (entryDepths entries)) definition entries =
        arguments (fromPayload schema) definition entries := fun definition =>
    arguments_congr fun cls item small => fromPayloadWithin_stable schema small le_rfl
  -- The source reads each entry with no depth in sight.
  rw [fromPayload, Obj.depth, fromPayloadWithin]
  simp only [same]

end OpenUltraSast.Contracts
