import TokenSearch.Binary.Format

/-!
Numbers in JSON text. An integer that fits 64 bits keeps its value; every other number becomes
a binary64 number.

The conversion takes the leading digits that fit 64 bits as a significand and drops the rest,
rounds the significand, and multiplies or divides it once by a rounded power of ten, so the
result may be a neighbour of the nearest binary64 number.
-/

namespace TokenSearch.Json

inductive Number where
  | natural (n : Nat)
  /-- The integer `-n`, for a positive `n`. -/
  | negative (n : Nat)
  | float (negative : Bool) (pattern : Nat)
deriving DecidableEq, Repr

/-- The digits of a number; a missing fraction or exponent has none. -/
structure NumberText where
  negative : Bool
  whole : List Nat
  fraction : List Nat
  exponentNegative : Bool
  exponent : List Nat
deriving DecidableEq, Repr

namespace Number

open BinaryFormat (binary64)

/-- Appends digits to `n` while the result fits 64 bits, and returns those left over. -/
def accumulate (n : Nat) : List Nat → Nat × List Nat
  | [] => (n, [])
  | d :: ds => if n * 10 + d < 2 ^ 64 then accumulate (n * 10 + d) ds else (n, d :: ds)

def ofDigits (ds : List Nat) : Nat := ds.foldl (fun n d => n * 10 + d) 0

/-- The binary64 pattern nearest to a natural number. -/
def patternOf (n : Nat) : Nat := binary64.nearest (n * binary64.unitsInOne) 1

def multiply (a b : Nat) : Nat :=
  binary64.nearest (binary64.units a * binary64.units b) binary64.unitsInOne

def divide (a b : Nat) : Nat :=
  binary64.nearest (binary64.units a * binary64.unitsInOne) (binary64.units b)

/-- The largest power of ten in the range of binary64. -/
def maxPower : Nat := 308

/-- Divides by `10 ^ places`, in steps of at most `10 ^ maxPower`. -/
def scaleDown (pattern places : Nat) : Nat :=
  if places ≤ maxPower then divide pattern (patternOf (10 ^ places))
  else if pattern = 0 then 0
  else scaleDown (divide pattern (patternOf (10 ^ maxPower))) (places - maxPower)
termination_by places
decreasing_by
  simp only [maxPower] at *
  omega

/-- Multiplies by a power of ten, unless the result is infinite. -/
def scale? (pattern : Nat) : Int → Option Nat
  | .ofNat places =>
    if pattern = 0 then some 0
    else if maxPower < places then none
    else
      let product := multiply pattern (patternOf (10 ^ places))
      if product = binary64.infinity then none else some product
  | .negSucc n => some (scaleDown pattern (n + 1))

/-- The float with a significand and an exponent; an exponent that fits no 32-bit word gives
zero if it is negative. -/
def floatOf? (t : NumberText) (significand : Nat) (exponent : Int) : Option Number :=
  let written := ofDigits t.exponent
  if 2 ^ 31 ≤ written then
    if significand ≠ 0 && !t.exponentNegative then none else some (.float t.negative 0)
  else
    let shift : Int := if t.exponentNegative then -written else written
    (scale? (patternOf significand) (exponent + shift)).map (.float t.negative)

/-- The value of a number, or nothing if it is too large for binary64. -/
def ofText? (t : NumberText) : Option Number :=
  let (n, dropped) := accumulate 0 t.whole
  if dropped.isEmpty && t.fraction.isEmpty && t.exponent.isEmpty then
    if !t.negative then some (.natural n)
    else if n = 0 || 2 ^ 63 < n then some (.float true (patternOf n))
    else some (.negative n)
  else
    let (significand, ignored) := accumulate n t.fraction
    floatOf? t significand (dropped.length - (t.fraction.length - ignored.length : Nat))

end Number

end TokenSearch.Json
