import Descent.Binary64.Nearest

/-!
On each decimal grid, from the coarsest that matters to seventeen digits, only the two neighbours of a
number can be its shortest form.
-/

namespace Descent.Binary64

/-- The least exponent of ten whose power is above the finite magnitude. -/
def decimalScale (m : Magnitude) : Int :=
  let whole := units m >>> unitPlaces
  if 0 < whole then (Nat.toDigits 10 whole).length
  else 1 - (Nat.toDigits 10 ((1 <<< unitPlaces - 1) / units m)).length

/-- The two neighbours on the grid of multiples of `10 ^ exponent`, the nearer first; of two at the same
distance the upper. -/
def neighbours (m : Magnitude) (exponent : Int) : List Decimal :=
  let numerator := units m * Nat.pow 10 (-exponent).toNat
  let denominator := Nat.pow 10 exponent.toNat <<< unitPlaces
  let below := numerator / denominator
  if 2 * (numerator % denominator) < denominator then [⟨below, exponent⟩, ⟨below + 1, exponent⟩]
  else [⟨below + 1, exponent⟩, ⟨below, exponent⟩]

def readsBack (m : Magnitude) (d : Decimal) : Bool :=
  decide (nearest d.numerator d.denominator = m)

def grids (m : Magnitude) : List Int :=
  (List.range 18).map fun (finer : Nat) => decimalScale m - finer

/-- The magnitude to the last digit. -/
def exactDecimal (m : Magnitude) : Decimal := ⟨units m * Nat.pow 5 unitPlaces, -unitPlaces⟩

def shortest (m : Magnitude) : Decimal :=
  ((grids m).findSome? fun exponent => (neighbours m exponent).find? (readsBack m)).getD
    (exactDecimal m)

def display (x : Binary64) : List Char :=
  if x.isNaN then "NaN".toList
  else
    let unsigned := if x.isInfinite then "inf".toList else (shortest x.magnitude).layout
    if x.negative then '-' :: unsigned else unsigned

end Descent.Binary64
