namespace Descent

/-- The number `coefficient * 10 ^ exponent`. -/
structure Decimal where
  coefficient : Nat
  exponent : Int
  deriving DecidableEq, Repr

namespace Decimal

def numerator (d : Decimal) : Nat := d.coefficient * Nat.pow 10 d.exponent.toNat

def denominator (d : Decimal) : Nat := Nat.pow 10 (-d.exponent).toNat

/-- As many places behind the point as the exponent asks for, and no point when it asks for none. -/
def layout (d : Decimal) : List Char :=
  let places := (-d.exponent).toNat
  let whole := Nat.toDigits 10 (d.numerator / d.denominator)
  if places = 0 then whole
  else whole ++ '.' :: (Nat.toDigits 10 (d.numerator % d.denominator)).leftpad places '0'

def ofDigits (whole fraction : List Char) : Decimal :=
  ⟨Nat.ofDigitChars 10 (whole ++ fraction) 0, -fraction.length⟩

/-- Reads digits, or digits, a point and digits. -/
def read? (text : List Char) : Option Decimal :=
  let whole := text.takeWhile Char.isDigit
  if whole = [] then none
  else match text.dropWhile Char.isDigit with
    | [] => some (ofDigits whole [])
    | '.' :: fraction =>
      if fraction = [] ∨ fraction.any (!·.isDigit) then none else some (ofDigits whole fraction)
    | _ => none

theorem denominator_pos (d : Decimal) : 0 < d.denominator := Nat.pow_pos (by decide)

theorem toDigits_isDigit {c : Char} {n : Nat} (h : c ∈ Nat.toDigits 10 n) : c.isDigit = true :=
  Nat.isDigit_of_mem_toDigits (by decide) (by decide) h

/-- The part behind the point, as long as the denominator has zeros. -/
theorem leftpad_isDigit {c : Char} {n places : Nat}
    (h : c ∈ (Nat.toDigits 10 n).leftpad places '0') : c.isDigit = true := by
  rcases List.mem_append.mp h with h | h
  · rw [List.eq_of_mem_replicate h]
    rfl
  · exact toDigits_isDigit h

theorem length_leftpad_toDigits {n places : Nat} (positive : 0 < places) (h : n < Nat.pow 10 places) :
    ((Nat.toDigits 10 n).leftpad places '0').length = places := by
  have short := (Nat.length_toDigits_le_iff (by decide) positive).mpr h
  rw [List.length_leftpad]
  omega

theorem ofDigitChars_leftpad (n places : Nat) :
    Nat.ofDigitChars 10 ((Nat.toDigits 10 n).leftpad places '0') 0 = n := by
  simp only [List.leftpad, Nat.ofDigitChars_append, Nat.ofDigitChars_replicate_zero, Nat.mul_zero]
  exact Nat.ofDigitChars_ten_toDigits

theorem takeWhile_digits (ds rest : List Char) (digits : ∀ c ∈ ds, c.isDigit = true)
    (stop : ∀ c ∈ rest.head?, c.isDigit = false) :
    (ds ++ rest).takeWhile Char.isDigit = ds ∧ (ds ++ rest).dropWhile Char.isDigit = rest := by
  rw [List.takeWhile_append_of_pos digits, List.dropWhile_append_of_pos digits]
  cases rest with
  | nil => simp
  | cons c rest => simp [stop c rfl]

theorem read_layout (d : Decimal) :
    ∃ e, read? d.layout = some e ∧ e.numerator = d.numerator ∧ e.denominator = d.denominator := by
  have nonempty : ∀ n, Nat.toDigits 10 n ≠ [] := fun n => Nat.toDigits_ne_nil
  by_cases places : (-d.exponent).toNat = 0
  · have split := takeWhile_digits (Nat.toDigits 10 (d.numerator / d.denominator)) []
      (fun c => toDigits_isDigit) (by simp)
    rw [List.append_nil] at split
    refine ⟨ofDigits (Nat.toDigits 10 (d.numerator / d.denominator)) [], ?_, ?_, ?_⟩
    · simp [layout, places, read?, split, nonempty]
    · simp [ofDigits, numerator, denominator, places]
    · simp [ofDigits, denominator, places]
  · have bound : d.numerator % d.denominator < Nat.pow 10 (-d.exponent).toNat :=
      Nat.mod_lt _ d.denominator_pos
    have width := length_leftpad_toDigits (Nat.pos_of_ne_zero places) bound
    have value := ofDigitChars_leftpad (d.numerator % d.denominator) (-d.exponent).toNat
    have digits : ∀ c ∈ (Nat.toDigits 10 (d.numerator % d.denominator)).leftpad
        (-d.exponent).toNat '0', c.isDigit = true := fun c => leftpad_isDigit
    generalize hf : (Nat.toDigits 10 (d.numerator % d.denominator)).leftpad
      (-d.exponent).toNat '0' = fraction at *
    have filled : fraction ≠ [] := by
      intro empty
      rw [empty] at width
      exact places width.symm
    have split := takeWhile_digits (Nat.toDigits 10 (d.numerator / d.denominator))
      ('.' :: fraction) (fun c => toDigits_isDigit) (by simp)
    refine ⟨ofDigits (Nat.toDigits 10 (d.numerator / d.denominator)) fraction, ?_, ?_, ?_⟩
    · have all : fraction.any (!·.isDigit) = false := by
        simp only [List.any_eq_false, Bool.not_eq_true', Bool.not_eq_false]
        exact digits
      have shape : d.layout = Nat.toDigits 10 (d.numerator / d.denominator) ++ '.' :: fraction := by
        simp only [layout, if_neg places, hf]
      rw [shape, read?, split.1, split.2]
      simp only [nonempty, filled, all, if_false, false_or, Bool.false_eq_true]
    · have shift : d.denominator = 10 ^ fraction.length := by
        rw [width]
        rfl
      simp only [ofDigits, numerator, Nat.ofDigitChars_append, Nat.ofDigitChars_ten_toDigits]
      rw [Nat.ofDigitChars_eq_ofDigitChars_zero, value, ← shift]
      have integral : (-(fraction.length : Int)).toNat = 0 := by omega
      rw [integral]
      exact (Nat.mul_one _).trans (Nat.div_add_mod _ _)
    · simp only [ofDigits, denominator, width, Int.neg_neg, Int.toNat_natCast]

end Decimal

end Descent
