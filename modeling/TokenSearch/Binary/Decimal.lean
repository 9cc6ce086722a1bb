import TokenSearch.Binary.Format

/-!
Shortest decimal text of a binary magnitude.

A decimal stands for a binary magnitude if it rounds back to it. The decimals that do form an
interval around the magnitude, whose ends belong to it exactly when the pattern is even. Grids
of powers of ten are tried from the coarsest on, so the first hit has the fewest digits; of
two hits on one grid the nearer one is taken, and of two equally near the one that the tie rule
names.
-/

namespace TokenSearch

/-- `digits · 10 ^ exponent`. -/
structure Decimal where
  digits : Nat
  exponent : Int
deriving DecidableEq, Repr

/-- Which of two neighbouring digits is taken when they are equally near. -/
inductive Tie where
  | larger
  | even
deriving DecidableEq, Repr

/-- Of `below` and its successor, the one to take when both are equally near. -/
def Tie.choose (tie : Tie) (below : Nat) : Nat :=
  match tie with
  | larger => below + 1
  | even => below + below % 2

namespace BinaryFormat

/-- The multiple of `10 ^ exponent` that reads back as the positive `pattern` and is nearest
to it. Twice the magnitude and the sums with its neighbours share the denominator
`2 * 2 ^ unitScale`, so the ends of the interval are whole numbers too. -/
def onGrid? (F : BinaryFormat) (tie : Tie) (pattern : Nat) (exponent : Int) : Option Nat :=
  let finer := 10 ^ (-exponent).toNat
  let step := 10 ^ exponent.toNat * 2 ^ (F.unitScale + 1)
  let value := 2 * F.units pattern * finer
  let low := (F.units pattern + F.units (pattern - 1)) * finer
  let high := (F.units pattern + F.units (pattern + 1)) * finer
  let inside (j : Nat) : Bool :=
    if pattern % 2 = 0 then low ≤ j * step && j * step ≤ high
    else low < j * step && j * step < high
  let below := value / step
  let nearer :=
    match compare (2 * (value % step)) step with
    | .lt => below
    | .eq => tie.choose below
    | .gt => below + 1
  match inside below, inside (below + 1) with
  | true, true => some nearer
  | true, false => some below
  | false, true => some (below + 1)
  | false, false => none

def shortestFrom (F : BinaryFormat) (tie : Tie) (pattern : Nat) (exponent : Int) :
    Nat → Decimal
  | 0 => ⟨0, 0⟩
  | tries + 1 =>
    match F.onGrid? tie pattern exponent with
    | some digits => ⟨digits, exponent⟩
    | none => shortestFrom F tie pattern (exponent - 1) tries

/-- The shortest decimal of a positive finite pattern. No magnitude of the format reaches the
coarsest grid tried, and the finest one is narrower than every interval. -/
def shortest (F : BinaryFormat) (tie : Tie) (pattern : Nat) : Decimal :=
  let coarsest : Nat := 2 ^ (F.exponentBits - 1) / 3 + 1
  F.shortestFrom tie pattern coarsest (coarsest + F.unitScale + 1)

end BinaryFormat

namespace Decimal

def digitText (n : Nat) : List Char := Nat.toDigits 10 n

/-- Text without an exponent; a point only if some digit follows it. -/
def positional (d : Decimal) : List Char :=
  let digits := digitText d.digits
  match d.exponent with
  | .ofNat zeros => digits ++ List.replicate zeros '0'
  | .negSucc n =>
    let places := n + 1
    if places < digits.length then
      digits.take (digits.length - places) ++ '.' :: digits.drop (digits.length - places)
    else '0' :: '.' :: List.replicate (places - digits.length) '0' ++ digits

/-- The exponent of ten of the leading digit. -/
def order (d : Decimal) : Int := (digitText d.digits).length - 1 + d.exponent

/-- Text with one digit before the point and a signed exponent. -/
def scientific (d : Decimal) : List Char :=
  let mark := if d.order < 0 then ['e', '-'] else ['e', '+']
  let power := mark ++ digitText d.order.natAbs
  match digitText d.digits with
  | [] => power
  | [c] => c :: power
  | c :: rest => c :: '.' :: rest ++ power

end Decimal

end TokenSearch
