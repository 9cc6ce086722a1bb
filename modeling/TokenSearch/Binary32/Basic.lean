import TokenSearch.Binary.Format

/-!
The binary32 numbers: sign, magnitude, classes, and the two orders.

A value of `Binary32` is its bit pattern, so that signed zeros and every NaN stay apart. The
numerical comparisons `lt`, `le` and `same` are false on a NaN and take both zeros as equal;
`rank` orders all patterns, negative NaNs lowest and positive NaNs highest.
-/

namespace TokenSearch

structure Binary32 where
  bits : UInt32
deriving DecidableEq, Inhabited, Repr

namespace Binary32

def negative (x : Binary32) : Bool := 0x80000000 ≤ x.bits

/-- The pattern without its sign. -/
def magnitude (x : Binary32) : Nat := (x.bits &&& 0x7fffffff).toNat

def ofMagnitude (negative : Bool) (pattern : Nat) : Binary32 :=
  ⟨(if negative then 0x80000000 else 0) ||| UInt32.ofNat pattern⟩

def isNaN (x : Binary32) : Bool := 0x7f800000 < x.bits &&& 0x7fffffff

def isInfinite (x : Binary32) : Bool := x.bits &&& 0x7fffffff = 0x7f800000

def isFinite (x : Binary32) : Bool := x.bits &&& 0x7fffffff < 0x7f800000

def zero : Binary32 := ⟨0⟩

def one : Binary32 := ⟨0x3f800000⟩

def top : Binary32 := ⟨0x7f800000⟩

def bottom : Binary32 := ⟨0xff800000⟩

def largest : Binary32 := ⟨0x7f7fffff⟩

def least : Binary32 := ⟨0xff7fffff⟩

/-- What an operation without a meaningful value gives. -/
def invalid : Binary32 := ⟨0xffc00000⟩

/-- A NaN with its quiet bit set; it keeps its sign and payload. -/
def quiet (x : Binary32) : Binary32 := ⟨x.bits ||| 0x00400000⟩

/-- The value of a finite number, in units of the least positive one. -/
def units (x : Binary32) : Int :=
  let m : Int := BinaryFormat.binary32.units x.magnitude
  if x.negative then -m else m

def ofNat (n : Nat) : Binary32 :=
  ofMagnitude false (BinaryFormat.binary32.nearest (n * 2 ^ 149) 1)

def ofRatio (num : Int) (den : Nat) : Binary32 :=
  ofMagnitude (num < 0) (BinaryFormat.binary32.nearest (num.natAbs * 2 ^ 149) den)

/-- The binary32 number nearest to a binary64 number. -/
def ofBinary64 (negative : Bool) (pattern : Nat) : Binary32 :=
  ofMagnitude negative
    (BinaryFormat.binary32.nearest (BinaryFormat.binary64.units pattern) (2 ^ 925))

/-! ## Numerical comparison -/

/-- Signed magnitude: the numerical order of all numbers but NaNs. -/
def signed (x : Binary32) : Int :=
  if x.negative then -(x.magnitude : Int) else x.magnitude

def lt (x y : Binary32) : Bool :=
  !x.isNaN && !y.isNaN && decide (x.signed < y.signed)

def le (x y : Binary32) : Bool :=
  !x.isNaN && !y.isNaN && decide (x.signed ≤ y.signed)

/-- Numerical equality: both zeros are the same number, a NaN is not even itself. -/
def same (x y : Binary32) : Bool :=
  !x.isNaN && !y.isNaN && decide (x.signed = y.signed)

/-- The larger of two, where a NaN gives way to the other operand. Of two equal numbers, such as
zeros of either sign, it is the second. -/
def maximum (x y : Binary32) : Binary32 :=
  if y.isNaN || y.lt x then x else y

/-- The smaller of two, where a NaN gives way to the other operand. Of two equal numbers, such as
zeros of either sign, it is the second. -/
def minimum (x y : Binary32) : Binary32 :=
  if y.isNaN || x.lt y then x else y

/-! ## Total order -/

/-- Place in the order of all patterns: negative ones reversed below the positive ones. -/
def rank (x : Binary32) : UInt32 :=
  if x.negative then ~~~x.bits else x.bits ||| 0x80000000

@[simp] theorem lt_irrefl (x : Binary32) : x.lt x = false := by
  simp [lt]

end Binary32

end TokenSearch
