import TokenSearch.Power

/-!
Binary floating-point formats and rounding to them.

A format stores a magnitude as one natural number, its *pattern*: exponent field above
fraction field. Patterns are ordered like the magnitudes they stand for, and every magnitude
is a whole number of *units*, the format's least positive value. So rounding takes an exact
quotient of units and returns a pattern, and a carry out of the fraction field is the right
step of the exponent field by itself.
-/

namespace TokenSearch

/-- Widths of the two fields below the sign bit. -/
structure BinaryFormat where
  fractionBits : Nat
  exponentBits : Nat

namespace BinaryFormat

def binary32 : BinaryFormat := ⟨23, 8⟩

def binary64 : BinaryFormat := ⟨52, 11⟩

def unitScale (F : BinaryFormat) : Nat :=
  2 ^ (F.exponentBits - 1) - 2 + F.fractionBits

/-- How many units make one. -/
def unitsInOne (F : BinaryFormat) : Nat := 2 ^ F.unitScale

/-- The least pattern that stands for no finite magnitude. -/
def infinity (F : BinaryFormat) : Nat :=
  (2 ^ F.exponentBits - 1) * 2 ^ F.fractionBits

/-- The whole-number significand of a pattern: below the first power of two the fraction is
the value, above it a leading one is implied. -/
def significand (F : BinaryFormat) (pattern : Nat) : Nat :=
  if pattern < 2 ^ F.fractionBits then pattern
  else 2 ^ F.fractionBits + pattern % 2 ^ F.fractionBits

/-- How far the significand of a pattern is scaled up, in powers of two. -/
def shift (F : BinaryFormat) (pattern : Nat) : Nat :=
  pattern / 2 ^ F.fractionBits - 1

def units (F : BinaryFormat) (pattern : Nat) : Nat :=
  F.significand pattern * 2 ^ F.shift pattern

end BinaryFormat

/-- The natural number nearest to `num / den`; of two equally near the even one. -/
def roundQuotient (num den : Nat) : Nat :=
  let q := num / den
  let r := num % den
  if den < 2 * r ∨ (2 * r = den ∧ q % 2 = 1) then q + 1 else q

namespace BinaryFormat

/-- The pattern nearest to `num / den` units, ties to even, infinity above the largest
finite magnitude. The significand keeps one bit more than the fraction field; scaling by
`2 ^ s` drops the rest. -/
def nearest (F : BinaryFormat) (num den : Nat) : Nat :=
  let s := (num / den).log2 - F.fractionBits
  min F.infinity (roundQuotient num (den * 2 ^ s) + s * 2 ^ F.fractionBits)

/-- The pattern nearest to `m · 2 ^ e`. -/
def nearestScaled (F : BinaryFormat) (m : Nat) (e : Int) : Nat :=
  match e + F.unitScale with
  | .ofNat up => F.nearest (m * 2 ^ up) 1
  | .negSucc down => F.nearest m (2 ^ (down + 1))

end BinaryFormat

@[simp] theorem roundQuotient_one (n : Nat) : roundQuotient n 1 = n := by
  simp [roundQuotient, Nat.mod_one]

@[simp] theorem BinaryFormat.nearest_zero (F : BinaryFormat) (den : Nat) : F.nearest 0 den = 0 := by
  simp [nearest, roundQuotient]

theorem BinaryFormat.nearest_le_infinity (F : BinaryFormat) (num den : Nat) :
    F.nearest num den ≤ F.infinity :=
  Nat.min_le_left _ _

end TokenSearch
