/-!
Binary floating point in 64 bits. The magnitudes in ascending order are the bit patterns without the
sign: the subnormals, then one block of 2 ^ 52 numbers for each binary exponent, then infinity, then
the patterns that are not a number.
-/

namespace Descent

abbrev Magnitude := Fin 0x8000000000000000

structure Binary64 where
  negative : Bool
  magnitude : Magnitude
  deriving DecidableEq, Repr

namespace Binary64

/-- How many magnitudes share one binary exponent. -/
def blockSize : Nat := 0x10000000000000

/-- The smallest positive number is one over two to this power. -/
def unitPlaces : Nat := 1074

def infinity : Magnitude := ⟨0x7ff0000000000000, by decide⟩

def ofBits (bits : UInt64) : Binary64 :=
  ⟨decide (0x8000000000000000 ≤ bits.toNat),
    ⟨bits.toNat % 0x8000000000000000, Nat.mod_lt _ (by decide)⟩⟩

def toBits (x : Binary64) : UInt64 :=
  UInt64.ofNat ((if x.negative then 0x8000000000000000 else 0) + x.magnitude.val)

def isNaN (x : Binary64) : Bool := decide (infinity < x.magnitude)

def isInfinite (x : Binary64) : Bool := decide (x.magnitude = infinity)

def isFinite (x : Binary64) : Bool := decide (x.magnitude < infinity)

def isZero (x : Binary64) : Bool := decide (x.magnitude.val = 0)

/-- Numeric equality: zeros of either sign are equal, and what is not a number equals nothing. -/
def equal (x y : Binary64) : Bool :=
  !x.isNaN && !y.isNaN && (decide (x = y) || x.isZero && y.isZero)

/-- The finite magnitude as a count of the smallest positive number. -/
def units (m : Magnitude) : Nat :=
  if m.val < blockSize then m.val
  else (blockSize + m.val % blockSize) <<< (m.val / blockSize - 1)

theorem toNat_toBits (x : Binary64) :
    x.toBits.toNat = (if x.negative then 0x8000000000000000 else 0) + x.magnitude.val := by
  rw [toBits, UInt64.toNat_ofNat']
  apply Nat.mod_eq_of_lt
  have bound := x.magnitude.isLt
  split <;> omega

theorem ofBits_toBits (x : Binary64) : ofBits x.toBits = x := by
  have bound := x.magnitude.isLt
  obtain ⟨negative, magnitude⟩ := x
  cases negative
  · simp only [ofBits, toNat_toBits, Binary64.mk.injEq, Fin.ext_iff] at *
    constructor
    · simp
    · simp
  · simp only [ofBits, toNat_toBits, Binary64.mk.injEq, Fin.ext_iff] at *
    constructor
    · simp
    · simp only [if_true]
      omega

theorem toBits_ofBits (bits : UInt64) : (ofBits bits).toBits = bits := by
  have bound := bits.toNat_lt
  apply UInt64.toNat_inj.mp
  rw [toNat_toBits]
  simp only [ofBits, decide_eq_true_eq]
  split <;> omega

theorem isFinite_eq (x : Binary64) : x.isFinite = (!x.isInfinite && !x.isNaN) := by
  simp only [isFinite, isInfinite, isNaN, ← decide_not, ← Bool.decide_and, decide_eq_decide,
    Fin.lt_def, Fin.ext_iff]
  omega

theorem equal_self (x : Binary64) : x.equal x = !x.isNaN := by simp [equal]

end Binary64

end Descent
