import Mathlib.Algebra.Order.Field.Rat
import Mathlib.Data.List.Basic

/-!
# JSON text

A string is a sequence of code points, and a text writes it as UTF-16 code units.
-/

namespace JsonText

abbrev CodePoint := Fin 0x110000

abbrev CodeUnit := Fin 0x10000

def isHigh (n : Nat) : Bool := 0xD800 ≤ n && n ≤ 0xDBFF

def isLow (n : Nat) : Bool := 0xDC00 ≤ n && n ≤ 0xDFFF

def highUnit (c : CodePoint) : CodeUnit := ⟨0xD800 + (c.val - 0x10000) / 0x400, by omega⟩

def lowUnit (c : CodePoint) : CodeUnit := ⟨0xDC00 + (c.val - 0x10000) % 0x400, by omega⟩

def units (c : CodePoint) : List CodeUnit :=
  if first : c.val < 0x10000 then [⟨c.val, first⟩] else [highUnit c, lowUnit c]

def writeString (text : List CodePoint) : List CodeUnit := text.flatMap units

def point (unit : CodeUnit) : CodePoint := ⟨unit.val, by omega⟩

/-- The code point of a surrogate pair; a code unit is at most 0xFFFF, so the sum is capped only
where the two are no pair. -/
def join (high low : CodeUnit) : CodePoint :=
  ⟨min (0x10000 + (high.val - 0xD800) * 0x400 + (low.val - 0xDC00)) 0x10FFFF, by omega⟩

def readString : List CodeUnit → List CodePoint
  | [] => []
  | [unit] => [point unit]
  | first :: second :: rest =>
    if isHigh first && isLow second then join first second :: readString rest
    else point first :: readString (second :: rest)

theorem isHigh_highUnit (c : CodePoint) (large : ¬ c.val < 0x10000) : isHigh (highUnit c) := by
  have bound := c.isLt
  have value : (highUnit c).val = 0xD800 + (c.val - 0x10000) / 0x400 := rfl
  rw [isHigh, value, Bool.and_eq_true, decide_eq_true_iff, decide_eq_true_iff]
  omega

theorem not_low_of_high {n : Nat} (high : isHigh n) : ¬ isLow n = true := by
  rw [isHigh, Bool.and_eq_true, decide_eq_true_iff, decide_eq_true_iff] at high
  rw [isLow, Bool.and_eq_true, decide_eq_true_iff, decide_eq_true_iff]
  omega

theorem isLow_lowUnit (c : CodePoint) : isLow (lowUnit c) := by
  have value : (lowUnit c).val = 0xDC00 + (c.val - 0x10000) % 0x400 := rfl
  rw [isLow, value, Bool.and_eq_true, decide_eq_true_iff, decide_eq_true_iff]
  omega

theorem join_halves (c : CodePoint) (large : ¬ c.val < 0x10000) :
    join (highUnit c) (lowUnit c) = c := by
  apply Fin.ext
  simp only [join, highUnit, lowUnit]
  omega

def pairFree : List CodePoint → Bool
  | [] => true
  | [_] => true
  | first :: second :: rest => !(isHigh first && isLow second) && pairFree (second :: rest)

theorem readString_pair (high low : CodeUnit) (rest : List CodeUnit) (first : isHigh high)
    (second : isLow low) :
    readString (high :: low :: rest) = join high low :: readString rest := by
  rw [readString, first, second]
  simp

theorem readString_single (unit : CodeUnit) (rest : List CodeUnit)
    (single : ∀ next ∈ rest.head?, ¬ (isHigh unit = true ∧ isLow next = true)) :
    readString (unit :: rest) = point unit :: readString rest := by
  cases rest with
  | nil => rfl
  | cons next rest =>
    have apart := single next rfl
    rw [readString, if_neg (by simpa using apart)]

theorem isLow_of_units_head {c : CodePoint} {unit : CodeUnit} (head : unit ∈ (units c).head?)
    (low : isLow unit) : isLow c := by
  unfold units at head
  split at head
  next =>
    simp only [List.head?_cons, Option.mem_some_iff] at head
    subst head
    exact low
  next large =>
    simp only [List.head?_cons, Option.mem_some_iff] at head
    subst head
    exact absurd low (not_low_of_high (isHigh_highUnit c large))

theorem head_writeString (c : CodePoint) (text : List CodePoint) :
    (writeString (c :: text)).head? = (units c).head? := by
  unfold writeString units
  rw [List.flatMap_cons]
  split <;> rfl

/-- Reading gives back what was written, when no two surrogates can be taken for a pair. -/
theorem readString_writeString (text : List CodePoint) (free : pairFree text) :
    readString (writeString text) = text := by
  induction text with
  | nil => rfl
  | cons c text ih =>
    have rest : pairFree text = true := by
      cases text with
      | nil => rfl
      | cons next text =>
        rw [pairFree, Bool.and_eq_true] at free
        exact free.2
    have later := ih rest
    by_cases small : c.val < 0x10000
    · -- One unit, which is no half of a pair.
      have written : writeString (c :: text) = ⟨c.val, small⟩ :: writeString text := by
        rw [writeString, List.flatMap_cons, units, dif_pos small]
        rfl
      rw [written, readString_single, later]
      · rfl
      · -- The next unit opens the next code point, which does not complete a pair with this one.
        rintro unit head ⟨high, low⟩
        cases text with
        | nil => simp [writeString] at head
        | cons next text =>
          rw [head_writeString] at head
          have closes := isLow_of_units_head head low
          rw [pairFree, Bool.and_eq_true] at free
          have opens : isHigh c.val = true := high
          simp [opens, closes] at free
    · -- Two units, which are joined again.
      have written : writeString (c :: text) = highUnit c :: lowUnit c :: writeString text := by
        rw [writeString, List.flatMap_cons, units, dif_neg small]
        rfl
      rw [written, readString_pair _ _ _ (isHigh_highUnit c small) (isLow_lowUnit c), later,
        join_halves c small]

/-- A number that is not finite. -/
inductive Special where
  | nan
  | infinity
  | negativeInfinity
  deriving DecidableEq

/-- The parse tree of a JSON text, with the non-finite numbers that the writer lets through. -/
inductive Document where
  | null
  | bool (value : Bool)
  | int (value : Int)
  | float (value : ℚ)
  | special (value : Special)
  | string (units : List CodeUnit)
  | array (items : List Document)
  | object (members : List (List CodeUnit × Document))

/-- The longest decimal text that an integer is written as or read from. -/
def maxDigits : Nat := 4300

def fitsDigits (n : Int) : Bool := n.natAbs < 10 ^ maxDigits

end JsonText
