import TokenSearch.Binary.Decimal
import TokenSearch.Binary32.Basic

/-!
Text of a binary32 number in messages: the fewest digits that read back, the larger ones of two
equally near, never an exponent, no point after a whole number, and a minus sign also on zero.
-/

namespace TokenSearch.Binary32

def text (x : Binary32) : String :=
  if x.isNaN then "NaN"
  else
    let sign := if x.negative then ['-'] else []
    let magnitude :=
      if x.isInfinite then ['i', 'n', 'f']
      else if x.magnitude = 0 then ['0']
      else (BinaryFormat.binary32.shortest .larger x.magnitude).positional
    String.ofList (sign ++ magnitude)

end TokenSearch.Binary32
