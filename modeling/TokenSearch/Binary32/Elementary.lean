import TokenSearch.Binary32.Arithmetic

/-!
Exponential, natural logarithm and powers of a count. Their precision is left open by the standard
library that provides them; rounding the exact value once is an admissible choice, and the one made
here. Results on all inputs use few facts of these functions: no exponential is negative and that of
zero is one, a number not below one has no negative logarithm, a power has no sign, and the powers
with exponent zero are one. Only evaluated runs depend on more.

A value is enclosed between two whole multiples of `2 ^ -bits`, the lower one from sums
rounded down, the upper one from sums rounded up. If both ends round to one binary32 number,
that number is the answer; else the computation is repeated with more bits. Only an exact
midpoint between two numbers can stay undecided, and such a value is a short binary fraction:
the last step goes to the nearest multiple of `2 ^ -48` and leaves the tie to the rounding.
-/

namespace TokenSearch

/-- Whole numbers around a real value times `2 ^ bits`. -/
structure Enclosure where
  lower : Int
  upper : Int
deriving Repr

namespace Enclosure

def ceilDiv (a b : Int) : Int := -((-a) / b)

/-- The partial sums of `1 + x / 1 * (1 + x / 2 * (1 + …))` from the `n`-th factor inwards,
for a nonnegative `x`. Here and below `one` is `2 ^ bits`. -/
def expSeries (div : Int → Int → Int) (one x start : Int) : Nat → Int
  | 0 => start
  | n + 1 => expSeries div one x (one + div (x * start) ((n + 1) * one)) n

/-- The partial sums of `1 + z * (1 / 3 + z * (1 / 5 + …))` from the `n`-th term inwards. -/
def atanhSeries (div : Int → Int → Int) (one z start : Int) : Nat → Int
  | 0 => start
  | n + 1 => atanhSeries div one z (div one (2 * n + 1) + div (z * start) one) n

def square (one : Int) (e : Enclosure) : Enclosure :=
  ⟨e.lower * e.lower / one, ceilDiv (e.upper * e.upper) one⟩

/-- The exponential of an enclosed value between zero and one: the series at a 256th of it,
then eight squarings. The terms left out are worth at most one more factor of two. -/
def expSmall (bits : Nat) (x : Enclosure) : Enclosure :=
  let one : Int := 2 ^ bits
  let terms := bits / 8 + 1
  let start : Enclosure :=
    ⟨expSeries (· / ·) one (x.lower / 256) one terms,
      expSeries ceilDiv one (ceilDiv x.upper 256) (2 * one) terms⟩
  (List.range 8).foldl (fun e _ => square one e) start

/-- The logarithm of `num / den`, for `den ≤ num ≤ 2 * den`, from the series of the inverse
hyperbolic tangent at `(num - den) / (num + den)`. -/
def logRatio (bits : Nat) (num den : Nat) : Enclosure :=
  let one : Int := 2 ^ bits
  let lower : Int := (num - den : Int) * one / (num + den)
  let upper : Int := ceilDiv ((num - den : Int) * one) (num + den)
  let terms := bits / 3 + 1
  let low := atanhSeries (· / ·) one (lower * lower / one) 0 terms
  let high := atanhSeries ceilDiv one (ceilDiv (upper * upper) one) one terms
  ⟨2 * lower * low / one, ceilDiv (2 * upper * high) one⟩

end Enclosure

/-- A number of working bits, with the logarithm of two at that many bits. -/
structure Precision where
  bits : Nat
  logTwo : Enclosure

namespace Precision

def ofBits (bits : Nat) : Precision := ⟨bits, Enclosure.logRatio bits 2 1⟩

def ladder : List Precision := [ofBits 80, ofBits 160, ofBits 320]

end Precision

namespace Enclosure

/-- Writes `e ^ x` as `2 ^ k` times an enclosed value of at least one. The divisor is the end
of `log 2` that keeps the rest of `x` nonnegative. -/
def exp (p : Precision) (x : Enclosure) : Int × Enclosure :=
  let (near, far) :=
    if 0 ≤ x.lower then (p.logTwo.upper, p.logTwo.lower)
    else (p.logTwo.lower, p.logTwo.upper)
  let k := x.lower / near
  (k, expSmall p.bits ⟨x.lower % near, x.upper - k * far⟩)

/-- The logarithm of the positive number `significand · 2 ^ exponent`. -/
def log (p : Precision) (significand : Nat) (exponent : Int) : Enclosure :=
  let width := significand.log2
  let base := logRatio p.bits significand (2 ^ width)
  let k := exponent + width
  if 0 ≤ k then ⟨k * p.logTwo.lower + base.lower, k * p.logTwo.upper + base.upper⟩
  else ⟨k * p.logTwo.upper + base.lower, k * p.logTwo.lower + base.upper⟩

/-- The product with the number `y`, which counts multiples of `2 ^ -149`. -/
def scale (e : Enclosure) (y : Int) : Enclosure :=
  if 0 ≤ y then ⟨e.lower * y / 2 ^ 149, ceilDiv (e.upper * y) (2 ^ 149)⟩
  else ⟨e.upper * y / 2 ^ 149, ceilDiv (e.lower * y) (2 ^ 149)⟩

end Enclosure

namespace Binary32

/-- The first pattern on which both ends of an enclosure agree, as the precision grows. -/
def firstAgreed (enclose : Precision → Int × Enclosure) : List Precision → Nat
  | [] => 0
  | p :: finer =>
    let (k, e) := enclose p
    let exponent := k - p.bits
    let low := BinaryFormat.binary32.nearestScaled e.lower.toNat exponent
    let high := BinaryFormat.binary32.nearestScaled e.upper.toNat exponent
    if low = high then low
    else match finer with
      | [] =>
        let short := roundQuotient ((e.lower + e.upper).toNat / 2) (2 ^ (p.bits - 48))
        BinaryFormat.binary32.nearestScaled short (k - 48)
      | _ => firstAgreed enclose finer

/-- `e ^ x` for an enclosed `x`; above 89 the result is infinite, below -104 it is zero. -/
def expOf (x : Precision → Enclosure) : Binary32 :=
  let rough := x (Precision.ofBits 80)
  if 89 * 2 ^ 80 < rough.lower then top
  else if rough.upper < -104 * 2 ^ 80 then zero
  else ofMagnitude false (firstAgreed (fun p => (x p).exp p) Precision.ladder)

def exp (x : Binary32) : Binary32 :=
  if x.isNaN then x.quiet
  else if x.isInfinite then if x.negative then zero else top
  else
    let u := x.units
    expOf fun p => ⟨u * 2 ^ p.bits / 2 ^ 149, Enclosure.ceilDiv (u * 2 ^ p.bits) (2 ^ 149)⟩

def log (x : Binary32) : Binary32 :=
  if x.isNaN then x.quiet
  else if x.magnitude = 0 then bottom
  else if x.negative then invalid
  else if x.isInfinite then top
  else if x = one then zero
  else
    let units := BinaryFormat.binary32.units x.magnitude
    let negative := units < 2 ^ 149
    let enclose (p : Precision) : Int × Enclosure :=
      let e := Enclosure.log p units (-149)
      (0, if negative then ⟨-e.upper, -e.lower⟩ else e)
    ofMagnitude negative (firstAgreed enclose Precision.ladder)

/-- A count, first rounded to binary32, to the power of `y`. A power of one or to zero is one
whatever the other operand, also for a NaN. -/
def powCount (count : Nat) (y : Binary32) : Binary32 :=
  let x := ofNat count
  if y.magnitude = 0 then one
  else if x = one then one
  else if y.isNaN then y.quiet
  else if x = zero then if y.negative then top else zero
  else if y.isInfinite || 256 ≤ y.units.natAbs / 2 ^ 149 then
    if y.negative then zero else top
  else
    let units := BinaryFormat.binary32.units x.magnitude
    expOf fun p => (Enclosure.log p units (-149)).scale y.units

end Binary32

end TokenSearch
