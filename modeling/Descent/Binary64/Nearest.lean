import Descent.Binary64.Basic
import Descent.Decimal

/-!
Rounding to the nearest magnitude. A quotient is counted in units of the smallest
positive number, cut to 53 binary digits with halves going to the even neighbour, and placed in its
block; beyond the largest number it is infinite.
-/

namespace Descent

def roundHalfEven (numerator denominator : Nat) : Nat :=
  let quotient := numerator / denominator
  let twice := 2 * (numerator % denominator)
  if twice < denominator ∨ twice = denominator ∧ quotient % 2 = 0 then quotient else quotient + 1

namespace Binary64

def nearest (numerator denominator : Nat) : Magnitude :=
  let scaled := numerator <<< unitPlaces
  let dropped := Nat.log2 (scaled / denominator) + 1 - 53
  let significand := roundHalfEven scaled (denominator <<< dropped)
  let index := min (dropped * blockSize + significand) infinity.val
  ⟨index, Nat.lt_of_le_of_lt (Nat.min_le_right _ _) infinity.isLt⟩

def ofDecimal (negative : Bool) (d : Decimal) : Binary64 :=
  ⟨negative, nearest d.numerator d.denominator⟩

/-- Reads a plain decimal with or without a sign in front. -/
def read? (text : List Char) : Option Binary64 :=
  match text with
  | '-' :: unsigned => (Decimal.read? unsigned).map (ofDecimal true)
  | unsigned => (Decimal.read? unsigned).map (ofDecimal false)

theorem nearest_le_infinity (numerator denominator : Nat) :
    nearest numerator denominator ≤ infinity :=
  Nat.min_le_right _ _

theorem ofDecimal_not_nan (negative : Bool) (d : Decimal) :
    (ofDecimal negative d).isNaN = false := by
  rw [isNaN, ofDecimal, decide_eq_false_iff_not, Fin.not_lt]
  exact nearest_le_infinity d.numerator d.denominator

theorem read?_of_leading {text : List Char} {d : Decimal} (read : Decimal.read? text = some d)
    (signless : ∀ c ∈ text.head?, c ≠ '-') : read? text = some (ofDecimal false d) := by
  unfold read?
  split
  · exact absurd rfl (signless '-' rfl)
  · rw [read]
    rfl

theorem read_not_nan {text : List Char} {x : Binary64} (h : read? text = some x) :
    x.isNaN = false := by
  unfold read? at h
  split at h
  all_goals
    obtain ⟨d, _, rfl⟩ := Option.map_eq_some_iff.mp h
    exact ofDecimal_not_nan _ d

end Binary64

end Descent
