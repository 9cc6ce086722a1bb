import TokenSearch.Binary32.Basic

/-!
The four operations on binary32 numbers. Each forms the exact result in units and rounds it
once. An operand that is a NaN is the result, the first one if both are.
-/

namespace TokenSearch.Binary32

/-- The number nearest to `num / den` units, with a sign of its own for zero. -/
def round (negative : Bool) (num den : Nat) : Binary32 :=
  ofMagnitude negative (BinaryFormat.binary32.nearest num den)

def neg (x : Binary32) : Binary32 := ⟨x.bits ^^^ 0x80000000⟩

def add (x y : Binary32) : Binary32 :=
  if x.isNaN then x.quiet
  else if y.isNaN then y.quiet
  else if x.isInfinite then
    if y.isInfinite && x.negative != y.negative then invalid else x
  else if y.isInfinite then y
  else
    let sum := x.units + y.units
    -- Opposite numbers cancel to positive zero; only two negative zeros stay negative.
    if sum = 0 then ofMagnitude (x.negative && y.negative) 0
    else round (sum < 0) sum.natAbs 1

def sub (x y : Binary32) : Binary32 :=
  if x.isNaN then x.quiet
  else if y.isNaN then y.quiet
  else x.add y.neg

def mul (x y : Binary32) : Binary32 :=
  let negative := x.negative != y.negative
  if x.isNaN then x.quiet
  else if y.isNaN then y.quiet
  else if x.isInfinite || y.isInfinite then
    if x.magnitude = 0 || y.magnitude = 0 then invalid else ofMagnitude negative 0x7f800000
  else round negative (x.units * y.units).natAbs (2 ^ 149)

def div (x y : Binary32) : Binary32 :=
  let negative := x.negative != y.negative
  if x.isNaN then x.quiet
  else if y.isNaN then y.quiet
  else if x.isInfinite then
    if y.isInfinite then invalid else ofMagnitude negative 0x7f800000
  else if y.isInfinite then ofMagnitude negative 0
  else if y.magnitude = 0 then
    if x.magnitude = 0 then invalid else ofMagnitude negative 0x7f800000
  else round negative (x.units.natAbs * 2 ^ 149) y.units.natAbs

instance : Neg Binary32 := ⟨neg⟩

instance : Add Binary32 := ⟨add⟩

instance : Sub Binary32 := ⟨sub⟩

instance : Mul Binary32 := ⟨mul⟩

instance : Div Binary32 := ⟨div⟩

def sum (xs : Array Binary32) : Binary32 := xs.foldl (· + ·) zero

end TokenSearch.Binary32
