import TokenSearch.Power

/-!
Tokens and indices as signed 32-bit words. A token is an integer; an index that is stored as a
token wraps to 32 bits, and a stored index that is read back as a position is taken modulo
`2 ^ 64`, so that a negative one lies beyond every buffer.
-/

namespace TokenSearch

abbrev Token := Int

namespace Token

/-- The 32-bit word that stores an index. -/
def ofIndex (n : Nat) : Token := Int.bmod n (2 ^ 32)

/-- The position that a stored index stands for. -/
def toIndex (t : Token) : Nat := (t % 2 ^ 64).toNat

theorem ofIndex_of_lt {n : Nat} (h : n < 2 ^ 31) : ofIndex n = n := by
  unfold ofIndex
  rw [Int.bmod_eq_of_le_mul_two] <;> omega

theorem toIndex_of_nonneg {t : Int} (h : 0 ≤ t) (h' : t < 2 ^ 64) : (toIndex t : Int) = t := by
  simp only [toIndex]
  omega

theorem toIndex_natCast {n : Nat} (h : n < 2 ^ 64) : toIndex (n : Int) = n := by
  unfold toIndex
  omega

theorem toIndex_ofIndex {n : Nat} (h : n < 2 ^ 31) : toIndex (ofIndex n) = n := by
  rw [ofIndex_of_lt h]
  unfold toIndex
  omega

end Token

end TokenSearch
