import Mathlib.Data.List.Sort
import Mathlib.Data.Rat.Floor

/-!
# Rounding to decimal places

The nearest number with so many decimal places, and of two nearest ones the even one.
-/

namespace Rounding

def halfEven (x : ℚ) : Int :=
  let rest := x - ⌊x⌋
  if rest < 1 / 2 then ⌊x⌋
  else if 1 / 2 < rest then ⌊x⌋ + 1
  else if ⌊x⌋ % 2 = 0 then ⌊x⌋ else ⌊x⌋ + 1

/-- `round(x, n)`. -/
def places (n : Nat) (x : ℚ) : ℚ := halfEven (x * 10 ^ n) / 10 ^ n

variable {x y : ℚ} {n : Nat}

theorem halfEven_near (x : ℚ) : x - 1 / 2 ≤ halfEven x ∧ (halfEven x : ℚ) ≤ x + 1 / 2 := by
  have low := Int.floor_le x
  have high := Int.lt_floor_add_one x
  rw [halfEven]
  split_ifs <;> push_cast <;> constructor <;> linarith

theorem halfEven_intCast (i : Int) : halfEven i = i := by
  rw [halfEven, Int.floor_intCast, sub_self]
  exact if_pos (by norm_num)

theorem halfEven_mono (le : x ≤ y) : halfEven x ≤ halfEven y := by
  by_contra above
  have gap : (halfEven y : ℚ) + 1 ≤ halfEven x := by
    exact_mod_cast not_le.mp above
  -- the results differ by an integer, so by one at least, and each is half of that away at most
  have nearX := (halfEven_near x).2
  have nearY := (halfEven_near y).1
  have same : x = y := by linarith
  exact above (same ▸ le_refl _)

theorem places_mono (le : x ≤ y) : places n x ≤ places n y := by
  have scale : (0 : ℚ) < 10 ^ n := by positivity
  rw [places, places]
  gcongr
  exact halfEven_mono (mul_le_mul_of_nonneg_right le scale.le)

theorem places_of_eq {i : Int} (whole : x * 10 ^ n = i) : places n x = x := by
  have scale : (10 : ℚ) ^ n ≠ 0 := by positivity
  rw [places, whole, halfEven_intCast, ← whole, mul_div_cancel_right₀ x scale]

theorem places_near (n : Nat) (x : ℚ) :
    x - 1 / 2 / 10 ^ n ≤ places n x ∧ places n x ≤ x + 1 / 2 / 10 ^ n := by
  have scale : (0 : ℚ) < 10 ^ n := by positivity
  obtain ⟨low, high⟩ := halfEven_near (x * 10 ^ n)
  rw [places]
  constructor
  · rw [le_div_iff₀ scale, sub_mul, div_mul_cancel₀ _ scale.ne']
    exact low
  · rw [div_le_iff₀ scale, add_mul, div_mul_cancel₀ _ scale.ne']
    exact high

end Rounding

/-!
## Quantiles

A quantile of a sorted sample, interpolated between the two values nearest to its place.
-/

namespace Quantile

def quantile (sorted : List ℚ) (q : ℚ) : ℚ :=
  let place := (sorted.length - 1 : ℚ) * q
  let index := ⌊place⌋.toNat
  let low := sorted[index]?.getD 0
  let high := sorted[index + 1]?.getD low
  low + (place - index) * (high - low)

/-- The value at a place of a sample, between two neighbours. -/
structure Near (sorted : List ℚ) (place : ℚ) (index : Nat) (low high : ℚ) : Prop where
  from_ : (index : ℚ) ≤ place
  below : place < index + 1
  inside : index < sorted.length
  low_eq : sorted[index]? = some low
  high_eq : high = sorted[index + 1]?.getD low
  le : low ≤ high

variable {sorted : List ℚ}

section
variable (ordered : sorted.Pairwise (· ≤ ·))
include ordered

theorem le_of_le {i j : Nat} (le : i ≤ j) {x y : ℚ}
    (at_ : sorted[i]? = some x) (then_ : sorted[j]? = some y) : x ≤ y := by
  obtain ⟨inside, rfl⟩ := List.getElem?_eq_some_iff.mp at_
  obtain ⟨within, rfl⟩ := List.getElem?_eq_some_iff.mp then_
  rcases Nat.lt_or_eq_of_le le with lt | rfl
  · exact List.pairwise_iff_getElem.mp ordered i j inside within lt
  · exact le_rfl

theorem near {place : ℚ} (some_ : sorted ≠ []) (from_ : 0 ≤ place)
    (last : place ≤ (sorted.length - 1 : ℚ)) :
    ∃ low high, Near sorted place ⌊place⌋.toNat low high := by
  have floor : ((⌊place⌋.toNat : ℚ)) = (⌊place⌋ : ℚ) := by
    have cast : ((⌊place⌋.toNat : Int)) = ⌊place⌋ := Int.toNat_of_nonneg (Int.floor_nonneg.mpr from_)
    exact_mod_cast cast
  have size : 0 < sorted.length := List.length_pos_of_ne_nil some_
  have inside : ⌊place⌋.toNat < sorted.length := by
    have lower := Int.floor_le place
    have most : (⌊place⌋.toNat : ℚ) < sorted.length := by rw [floor]; linarith
    exact_mod_cast most
  refine ⟨sorted[⌊place⌋.toNat], sorted[⌊place⌋.toNat + 1]?.getD sorted[⌊place⌋.toNat], ?_, ?_, inside,
    List.getElem?_eq_getElem inside, rfl, ?_⟩
  · rw [floor]; exact Int.floor_le place
  · rw [floor]; exact Int.lt_floor_add_one place
  · cases next : sorted[⌊place⌋.toNat + 1]? with
    | none => exact le_rfl
    | some high => exact le_of_le ordered (Nat.le_succ _) (List.getElem?_eq_getElem inside) next

theorem quantile_mono (some_ : sorted ≠ []) {q r : ℚ}
    (from_ : 0 ≤ q) (le : q ≤ r) (last : r ≤ 1) : quantile sorted q ≤ quantile sorted r := by
  have size : (0 : ℚ) ≤ sorted.length - 1 := by
    have one : 1 ≤ sorted.length := List.length_pos_of_ne_nil some_
    have cast : ((1 : Nat) : ℚ) ≤ sorted.length := by exact_mod_cast one
    simpa using cast
  have places : (sorted.length - 1 : ℚ) * q ≤ (sorted.length - 1 : ℚ) * r :=
    mul_le_mul_of_nonneg_left le size
  have top : (sorted.length - 1 : ℚ) * r ≤ (sorted.length - 1 : ℚ) := mul_le_of_le_one_right size last
  have start : 0 ≤ (sorted.length - 1 : ℚ) * q := mul_nonneg size from_
  obtain ⟨low, high, first⟩ := near ordered some_ start (places.trans top)
  obtain ⟨low', high', second⟩ := near ordered some_ (start.trans places) top
  simp only [quantile, first.low_eq, second.low_eq, Option.getD_some, ← first.high_eq,
    ← second.high_eq]
  generalize (sorted.length - 1 : ℚ) * q = p at *
  generalize (sorted.length - 1 : ℚ) * r = s at *
  have steps : ⌊p⌋.toNat ≤ ⌊s⌋.toNat := Int.toNat_le_toNat (Int.floor_le_floor places)
  rcases Nat.lt_or_eq_of_le steps with lt | same
  · -- an earlier place lies below the next value, and that one below every later place
    have upper : high ≤ low' := by
      have within : ⌊p⌋.toNat + 1 < sorted.length := by
        have inside := second.inside
        omega
      have next := List.getElem?_eq_getElem within
      rw [first.high_eq, next, Option.getD_some]
      exact le_of_le ordered lt next second.low_eq
    have part : (p - ⌊p⌋.toNat) * (high - low) ≤ high - low :=
      mul_le_of_le_one_left (by linarith [first.le]) (by linarith [first.below])
    have rest : 0 ≤ (s - ⌊s⌋.toNat) * (high' - low') :=
      mul_nonneg (by linarith [second.from_]) (by linarith [second.le])
    linarith
  · rw [same] at first ⊢
    have lows : low = low' := Option.some.inj (first.low_eq.symm.trans second.low_eq)
    subst lows
    have highs : high = high' := first.high_eq.trans second.high_eq.symm
    subst highs
    have more : (p - ⌊s⌋.toNat) * (high - low) ≤ (s - ⌊s⌋.toNat) * (high - low) :=
      mul_le_mul_of_nonneg_right (by linarith) (by linarith [first.le])
    linarith

end

end Quantile
