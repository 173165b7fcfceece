import Descent.Binary64.Display
import Descent.Proofs.Json.Derivation

/-!
The shortest digits are tried against the reading, and the exact digits, which are left when none passes,
are counted in whole units, so nothing is rounded.
-/

namespace Descent

open Json (WholeText FractionText NumeralText Digits)

theorem digitChar_isDigit {n : Nat} (digit : n < 10) : n.digitChar.isDigit = true :=
  Decimal.toDigits_isDigit (n := n) (by rw [Nat.toDigits_of_lt_base digit]; exact List.mem_cons_self)

theorem digitChar_ne_zero {n : Nat} (digit : n < 10) (positive : 0 < n) : n.digitChar ≠ '0' := by
  revert n
  decide

theorem toDigits_leading {n : Nat} (positive : 0 < n) :
    ∃ d ds, Nat.toDigits 10 n = d :: ds ∧ d.isDigit = true ∧ d ≠ '0' ∧ Digits ds := by
  induction n using Nat.strongRecOn with
  | ind n ih =>
      by_cases small : n < 10
      · refine ⟨n.digitChar, [], Nat.toDigits_of_lt_base small, digitChar_isDigit small,
          digitChar_ne_zero small positive, ?_⟩
        intro c member
        cases member
      · have fewer : n / 10 < n := Nat.div_lt_self positive (by decide)
        have left : 0 < n / 10 := Nat.div_pos (Nat.le_of_not_lt small) (by decide)
        obtain ⟨d, ds, shape, digit, nonZero, digits⟩ := ih (n / 10) fewer left
        have last : (n % 10).digitChar.isDigit = true :=
          digitChar_isDigit (Nat.mod_lt n (by decide))
        refine ⟨d, ds ++ [(n % 10).digitChar], ?_, digit, nonZero, ?_⟩
        · rw [Nat.toDigits_of_base_le (by decide) (Nat.le_of_not_lt small), shape]
          rfl
        · intro c member
          rcases List.mem_append.mp member with member | member
          · exact digits c member
          · rw [List.mem_singleton.mp member]
            exact last

theorem wholeText_toDigits (n : Nat) : WholeText (Nat.toDigits 10 n) := by
  by_cases zero : n = 0
  · rw [zero, Nat.toDigits_zero]
    exact .zero
  · obtain ⟨d, ds, shape, digit, nonZero, digits⟩ := toDigits_leading (Nat.pos_of_ne_zero zero)
    rw [shape]
    exact .leading digit nonZero digits

theorem Decimal.layout_shape (d : Decimal) :
    ∃ whole fraction, d.layout = whole ++ fraction ∧ WholeText whole ∧ FractionText fraction := by
  have whole := wholeText_toDigits (d.numerator / d.denominator)
  by_cases places : (-d.exponent).toNat = 0
  · refine ⟨_, [], ?_, whole, .absent⟩
    simp only [layout, if_pos places, List.append_nil]
  · have bound : d.numerator % d.denominator < Nat.pow 10 (-d.exponent).toNat :=
      Nat.mod_lt _ d.denominator_pos
    have width := length_leftpad_toDigits (Nat.pos_of_ne_zero places) bound
    have shape : d.layout = _ ++ '.' :: _ := if_neg places
    have nonempty : (Nat.toDigits 10 (d.numerator % d.denominator)).leftpad
        (-d.exponent).toNat '0' ≠ [] := by
      intro empty
      rw [empty] at width
      exact places width.symm
    exact ⟨_, _, shape, whole, .present nonempty fun c => leftpad_isDigit⟩

namespace Binary64

theorem roundHalfEven_mul (quotient : Nat) {denominator : Nat} (positive : 0 < denominator) :
    roundHalfEven (quotient * denominator) denominator = quotient := by
  have exact : quotient * denominator / denominator = quotient := Nat.mul_div_cancel _ positive
  have nothing : quotient * denominator % denominator = 0 := Nat.mul_mod_left _ _
  simp only [roundHalfEven, exact, nothing, Nat.mul_zero, if_pos (Or.inl positive)]

theorem log2_shifted {significand : Nat} (dropped : Nat) (low : blockSize ≤ significand)
    (high : significand < 2 * blockSize) : Nat.log2 (significand <<< dropped) = 52 + dropped := by
  have leading : blockSize = 2 ^ 52 := rfl
  have power : 0 < 2 ^ dropped := Nat.two_pow_pos dropped
  have positive : 0 < significand * 2 ^ dropped :=
    Nat.mul_pos (Nat.lt_of_lt_of_le (by decide) low) power
  rw [Nat.shiftLeft_eq, Nat.log2_eq_iff (Nat.ne_of_gt positive)]
  constructor
  · rw [Nat.pow_add, ← leading]
    exact Nat.mul_le_mul_right _ low
  · rw [Nat.add_right_comm, Nat.pow_add, Nat.pow_succ, ← leading, Nat.mul_comm blockSize]
    exact Nat.mul_lt_mul_of_pos_right high power

/-- How many binary digits of the units are dropped, and the significand that stays. -/
theorem units_split (m : Magnitude) :
    ∃ dropped significand, units m = significand <<< dropped ∧
      Nat.log2 (units m) + 1 - 53 = dropped ∧ dropped * blockSize + significand = m.val := by
  by_cases small : m.val < blockSize
  · have count : units m = m.val := by rw [units, if_pos small]
    refine ⟨0, m.val, count, ?_, by omega⟩
    rw [count]
    by_cases zero : m.val = 0
    · rw [zero]
      rfl
    · have log : Nat.log2 m.val < 52 := (Nat.log2_lt zero).mpr small
      omega
  · have count : units m = (blockSize + m.val % blockSize) <<< (m.val / blockSize - 1) := by
      rw [units, if_neg small]
    have block : 0 < blockSize := by decide
    have remainder : m.val % blockSize < blockSize := Nat.mod_lt _ block
    have first : 0 < m.val / blockSize := Nat.div_pos (Nat.le_of_not_lt small) block
    have whole := Nat.div_add_mod m.val blockSize
    refine ⟨m.val / blockSize - 1, blockSize + m.val % blockSize, count, ?_, ?_⟩
    · rw [count, log2_shifted _ (Nat.le_add_right _ _) (by omega)]
      omega
    · obtain ⟨before, next⟩ := Nat.exists_eq_add_one_of_ne_zero (Nat.ne_of_gt first)
      rw [next, Nat.mul_succ, Nat.mul_comm] at whole
      rw [next, Nat.add_sub_cancel]
      omega

/-- A quotient that is a whole number of units of a finite number is that number. -/
theorem nearest_of_units {m : Magnitude} {numerator denominator : Nat} (finite : m < infinity)
    (positive : 0 < denominator) (exact : numerator <<< unitPlaces = units m * denominator) :
    nearest numerator denominator = m := by
  obtain ⟨dropped, significand, split, count, index⟩ := units_split m
  have whole : units m * denominator / denominator = units m := Nat.mul_div_cancel _ positive
  have rounded : roundHalfEven (units m * denominator) (denominator <<< dropped) = significand := by
    have regrouped : units m * denominator = significand * (denominator <<< dropped) := by
      rw [split, Nat.shiftLeft_eq, Nat.shiftLeft_eq, Nat.mul_assoc, Nat.mul_comm denominator]
    rw [regrouped]
    refine roundHalfEven_mul significand ?_
    rw [Nat.shiftLeft_eq]
    exact Nat.mul_pos positive (Nat.two_pow_pos dropped)
  apply Fin.ext
  simp only [nearest, exact, whole, count, rounded, index]
  exact Nat.min_eq_left (Nat.le_of_lt finite)

theorem shift_pow_five (count places : Nat) :
    (count * Nat.pow 5 places) <<< places = count * Nat.pow 10 places := by
  rw [Nat.shiftLeft_eq, Nat.mul_assoc]
  exact congrArg (count * ·) (Nat.mul_pow 5 2 places).symm

theorem nearest_exactDecimal {m : Magnitude} (finite : m < infinity) :
    nearest (exactDecimal m).numerator (exactDecimal m).denominator = m := by
  have places : (- -(unitPlaces : Int)).toNat = unitPlaces := by
    rw [Int.neg_neg, Int.toNat_natCast]
  have integral : (-(unitPlaces : Int)).toNat = 0 := by omega
  have top : (exactDecimal m).numerator = units m * Nat.pow 5 unitPlaces := by
    simp only [exactDecimal, Decimal.numerator, integral]
    exact Nat.mul_one _
  have bottom : (exactDecimal m).denominator = Nat.pow 10 unitPlaces := by
    simp only [exactDecimal, Decimal.denominator, places]
  refine nearest_of_units finite (exactDecimal m).denominator_pos ?_
  rw [top, bottom]
  exact shift_pow_five (units m) unitPlaces

theorem nearest_shortest {m : Magnitude} (finite : m < infinity) :
    nearest (shortest m).numerator (shortest m).denominator = m := by
  unfold shortest
  cases found : (grids m).findSome? fun exponent => (neighbours m exponent).find? (readsBack m) with
  | none => exact nearest_exactDecimal finite
  | some d =>
      obtain ⟨exponent, _, tried⟩ := List.exists_of_findSome?_eq_some found
      have passed : readsBack m d = true := List.find?_some tried
      exact of_decide_eq_true passed

theorem display_of_finite {x : Binary64} (finite : x.isFinite = true) :
    x.display = if x.negative then '-' :: (shortest x.magnitude).layout
      else (shortest x.magnitude).layout := by
  have below : x.magnitude < infinity := of_decide_eq_true finite
  have number : x.isNaN = false := decide_eq_false (Fin.lt_asymm below)
  have bounded : x.isInfinite = false := decide_eq_false (Fin.ne_of_lt below)
  simp only [display, number, bounded, Bool.false_eq_true, if_false]

theorem numeralText_display {x : Binary64} (finite : x.isFinite = true) :
    NumeralText x.display := by
  obtain ⟨whole, fraction, shape, front, back⟩ := (shortest x.magnitude).layout_shape
  rw [display_of_finite finite, shape]
  by_cases negative : x.negative = true
  · rw [if_pos negative]
    exact .negative front back
  · rw [if_neg negative]
    exact .unsigned front back

theorem read_display {x : Binary64} (finite : x.isFinite = true) : read? x.display = some x := by
  have below : x.magnitude < infinity := of_decide_eq_true finite
  obtain ⟨d, read, top, bottom⟩ := (shortest x.magnitude).read_layout
  obtain ⟨whole, fraction, shape, front, back⟩ := (shortest x.magnitude).layout_shape
  have rounded : nearest d.numerator d.denominator = x.magnitude := by
    rw [top, bottom]
    exact nearest_shortest below
  rw [display_of_finite finite]
  obtain ⟨negative, magnitude⟩ := x
  cases negative with
  | true =>
      rw [if_pos rfl, read?, read, Option.map_some, ofDecimal, rounded]
  | false =>
      have signless : ∀ c ∈ (shortest magnitude).layout.head?, c ≠ '-' := by
        obtain ⟨first, digits, rfl, digit⟩ := front.first
        rw [shape]
        rintro c member rfl
        cases member
        cases digit
      rw [if_neg Bool.false_ne_true, read?_of_leading read signless, ofDecimal, rounded]

end Binary64

end Descent
