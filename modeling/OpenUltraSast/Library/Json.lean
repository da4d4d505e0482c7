import Mathlib.Algebra.Order.Field.Rat
import Mathlib.Data.List.Sort
import Mathlib.Data.String.Basic

/-!
# JSON values

Objects keep their keys in order; the numbers of a text are integers or, with a fraction or
an exponent, exact decimals.
-/

namespace Values

inductive Json where
  | null
  | bool (value : Bool)
  | int (value : Int)
  | float (value : ℚ)
  | str (value : String)
  | arr (items : List Json)
  | obj (fields : List (String × Json))

namespace Json

def truthy : Json → Bool
  | null => false
  | bool value => value
  | int value => value ≠ 0
  | float value => value ≠ 0
  | str value => value ≠ ""
  | arr items => !items.isEmpty
  | obj fields => !fields.isEmpty

def isStr (text : String) : Json → Bool
  | str value => value = text
  | _ => false

/-- A list or an object is in no set and no table: looking it up is a `TypeError`. -/
def unhashable : Json → Bool
  | arr _ => true
  | obj _ => true
  | _ => false

/-- The number that a value compares as; a truth value compares as one. -/
def number : Json → Option ℚ
  | bool value => some (if value then 1 else 0)
  | int value => some value
  | float value => some value
  | _ => none

mutual
/-- Whether two values are equal: numbers by what they denote, objects whatever the order of
their keys. -/
def same : Json → Json → Bool
  | null, other => match other with
    | null => true
    | _ => false
  | str value, other => match other with
    | str text => value = text
    | _ => false
  | arr items, other => match other with
    | arr others => sameItems items others
    | _ => false
  | obj fields, other => match other with
    | obj others => fields.length = others.length && sameFields fields others
    | _ => false
  | bool value, other => other.number = some (if value then 1 else 0)
  | int value, other => other.number = some (value : ℚ)
  | float value, other => other.number = some value

def sameItems : List Json → List Json → Bool
  | [], others => others.isEmpty
  | _ :: _, [] => false
  | item :: items, other :: others => same item other && sameItems items others

def sameFields : List (String × Json) → List (String × Json) → Bool
  | [], _ => true
  | (key, value) :: fields, others =>
    (match others.lookup key with
      | some other => same value other
      | none => false) && sameFields fields others
end

/-- `value.get(key)` of an object. -/
def field (fields : List (String × Json)) (key : String) : Json := (fields.lookup key).getD .null

mutual
def equals : Json → Json → Bool
  | null, null => true
  | bool value, bool other => value = other
  | int value, int other => value = other
  | float value, float other => value = other
  | str value, str other => value = other
  | arr items, arr others => equalItems items others
  | obj fields, obj others => equalFields fields others
  | _, _ => false

def equalItems : List Json → List Json → Bool
  | [], [] => true
  | item :: items, other :: others => equals item other && equalItems items others
  | _, _ => false

def equalFields : List (String × Json) → List (String × Json) → Bool
  | [], [] => true
  | (key, value) :: fields, (name, other) :: others =>
    key = name && equals value other && equalFields fields others
  | _, _ => false
end

mutual
theorem equals_iff : ∀ value other : Json, equals value other = true ↔ value = other
  | arr items, arr others => by rw [equals, equalItems_iff, arr.injEq]
  | obj fields, obj others => by rw [equals, equalFields_iff, obj.injEq]
  | null, other => by cases other <;> simp [equals]
  | bool _, other => by cases other <;> simp [equals]
  | int _, other => by cases other <;> simp [equals]
  | float _, other => by cases other <;> simp [equals]
  | str _, other => by cases other <;> simp [equals]
  | arr _, null | arr _, bool _ | arr _, int _ | arr _, float _ | arr _, str _ | arr _, obj _ => by
    simp [equals]
  | obj _, null | obj _, bool _ | obj _, int _ | obj _, float _ | obj _, str _ | obj _, arr _ => by
    simp [equals]

theorem equalItems_iff : ∀ items others : List Json, equalItems items others = true ↔ items = others
  | [], [] => by simp [equalItems]
  | [], _ :: _ => by simp [equalItems]
  | _ :: _, [] => by simp [equalItems]
  | item :: items, other :: others => by
    rw [equalItems, Bool.and_eq_true, equals_iff, equalItems_iff, List.cons.injEq]

theorem equalFields_iff :
    ∀ fields others : List (String × Json), equalFields fields others = true ↔ fields = others
  | [], [] => by simp [equalFields]
  | [], _ :: _ => by simp [equalFields]
  | _ :: _, [] => by simp [equalFields]
  | (key, value) :: fields, (name, other) :: others => by
    rw [equalFields, Bool.and_eq_true, Bool.and_eq_true, equals_iff, equalFields_iff,
      List.cons.injEq, Prod.mk.injEq, decide_eq_true_eq]
end

instance : DecidableEq Json := fun value other =>
  decidable_of_iff (equals value other = true) (equals_iff value other)

end Json

end Values

/-!
## Sorted keys

A JSON text that is written with its keys in order, read back: every object has its keys in order, at
every depth.
-/

namespace Values

open List

def inKeyOrder (fields : List (String × Json)) : List (String × Json) :=
  fields.insertionSort fun a b => a.1 ≤ b.1

namespace Json

mutual
/-- `json.loads(json.dumps(value, sort_keys=True))`. -/
def sorted : Json → Json
  | null => null
  | bool value => bool value
  | int value => int value
  | float value => float value
  | str value => str value
  | arr items => arr (sortedItems items)
  | obj fields => obj (inKeyOrder (sortedValues fields))

def sortedItems : List Json → List Json
  | [] => []
  | item :: items => item.sorted :: sortedItems items

def sortedValues : List (String × Json) → List (String × Json)
  | [] => []
  | (key, value) :: fields => (key, value.sorted) :: sortedValues fields
end

theorem sortedValues_eq (fields : List (String × Json)) :
    sortedValues fields = fields.map fun entry => (entry.1, entry.2.sorted) := by
  induction fields with
  | nil => rfl
  | cons entry fields ih => rw [sortedValues, ih, map_cons]

theorem sortedItems_eq (items : List Json) : sortedItems items = items.map sorted := by
  induction items with
  | nil => rfl
  | cons item items ih => rw [sortedItems, ih, map_cons]

theorem sortedValues_inKeyOrder (fields : List (String × Json)) :
    sortedValues (inKeyOrder fields) = inKeyOrder (sortedValues fields) := by
  rw [sortedValues_eq, sortedValues_eq]
  exact map_insertionSort _ _ _ _ fun a _ b _ => Iff.rfl

theorem inKeyOrder_idem (fields : List (String × Json)) :
    inKeyOrder (inKeyOrder fields) = inKeyOrder fields := by
  have total : Std.Total fun a b : String × Json => a.1 ≤ b.1 := ⟨fun a b => le_total a.1 b.1⟩
  have transitive : IsTrans (String × Json) fun a b => a.1 ≤ b.1 := ⟨fun _ _ _ => le_trans⟩
  exact (pairwise_insertionSort _ fields).insertionSort_eq

mutual
theorem sorted_idem (value : Json) : value.sorted.sorted = value.sorted := by
  cases value with
  | arr items => rw [sorted, sorted, sortedItems_idem]
  | obj fields => rw [sorted, sorted, sortedValues_inKeyOrder, inKeyOrder_idem, sortedValues_idem]
  | _ => rfl

theorem sortedItems_idem (items : List Json) :
    sortedItems (sortedItems items) = sortedItems items := by
  cases items with
  | nil => rfl
  | cons item items => rw [sortedItems, sortedItems, sorted_idem, sortedItems_idem]

theorem sortedValues_idem (fields : List (String × Json)) :
    sortedValues (sortedValues fields) = sortedValues fields := by
  cases fields with
  | nil => rfl
  | cons entry fields =>
    obtain ⟨key, value⟩ := entry
    rw [sortedValues, sortedValues, sorted_idem, sortedValues_idem]
end

end Json

theorem lookup_inKeyOrder (fields : List (String × Json)) (key : String) :
    (inKeyOrder fields).lookup key = fields.lookup key := by
  induction fields with
  | nil => rfl
  | cons entry fields ih =>
    have insert (later : List (String × Json)) :
        (later.orderedInsert (fun a b => a.1 ≤ b.1) entry).lookup key =
          (entry :: later).lookup key := by
      induction later with
      | nil => rfl
      | cons next later ih =>
        rw [orderedInsert_cons]
        split
        next => rfl
        next after =>
          -- The two keys differ here, so the entries can change places.
          have apart : entry.1 ≠ next.1 := fun same => after (same ▸ le_refl _)
          rw [lookup_cons, ih, lookup_cons, lookup_cons, lookup_cons]
          by_cases first : key = next.1
          · have other : (key == entry.1) = false := by simpa [first] using Ne.symm apart
            rw [other, beq_iff_eq.mpr first]
          · rw [beq_eq_false_iff_ne.mpr first]
    rw [inKeyOrder, insertionSort_cons, insert, lookup_cons, lookup_cons]
    unfold inKeyOrder at ih
    rw [ih]

theorem lookup_sortedValues (fields : List (String × Json)) (key : String) :
    (Json.sortedValues fields).lookup key = (fields.lookup key).map Json.sorted := by
  induction fields with
  | nil => rfl
  | cons entry fields ih =>
    obtain ⟨name, value⟩ := entry
    rw [Json.sortedValues, lookup_cons, lookup_cons, ih]
    cases key == name <;> rfl

theorem lookup_of_sorted_eq {fields others : List (String × Json)}
    (same : (Json.obj fields).sorted = (Json.obj others).sorted) (key : String) :
    (fields.lookup key).map Json.sorted = (others.lookup key).map Json.sorted := by
  rw [Json.sorted, Json.sorted, Json.obj.injEq] at same
  rw [← lookup_sortedValues, ← lookup_sortedValues, ← lookup_inKeyOrder, same, lookup_inKeyOrder]

theorem any_inKeyOrder (fields : List (String × Json)) (test : String × Json → Bool) :
    (inKeyOrder fields).any test = fields.any test :=
  (perm_insertionSort _ fields).any_eq

theorem any_sortedValues (fields : List (String × Json)) (test : String → Bool) :
    (Json.sortedValues fields).any (fun entry => test entry.1) =
      fields.any fun entry => test entry.1 := by
  rw [Json.sortedValues_eq, any_map]
  rfl

namespace Json

theorem number_sorted (value : Json) : value.sorted.number = value.number := by
  cases value <;> rfl

mutual
theorem same_sorted (value other : Json) : value.same other.sorted = value.same other := by
  cases value with
  | null => cases other <;> rfl
  | str text => cases other <;> rfl
  | bool truth => rw [same, same, number_sorted]
  | int number => rw [same, same, number_sorted]
  | float number => rw [same, same, number_sorted]
  | arr items =>
    cases other with
    | arr others => rw [sorted, same, same, sameItems_sorted]
    | _ => rfl
  | obj fields =>
    cases other with
    | obj others =>
      have length : (inKeyOrder (sortedValues others)).length = others.length := by
        rw [inKeyOrder, length_insertionSort, sortedValues_eq, length_map]
      rw [sorted, same, same, sameFields_sorted, length]
    | _ => rfl

theorem sameItems_sorted (items others : List Json) :
    sameItems items (sortedItems others) = sameItems items others := by
  cases items with
  | nil => cases others <;> rfl
  | cons item items =>
    cases others with
    | nil => rfl
    | cons other others =>
      rw [sortedItems, sameItems, sameItems, same_sorted, sameItems_sorted]

theorem sameFields_sorted (fields others : List (String × Json)) :
    sameFields fields (inKeyOrder (sortedValues others)) = sameFields fields others := by
  cases fields with
  | nil => rfl
  | cons entry fields =>
    obtain ⟨key, value⟩ := entry
    rw [sameFields, sameFields, sameFields_sorted, lookup_inKeyOrder, lookup_sortedValues]
    cases others.lookup key with
    | none => rfl
    | some other =>
      rw [Option.map_some]
      exact congrArg (· && sameFields fields others) (same_sorted value other)
end

end Json

end Values
