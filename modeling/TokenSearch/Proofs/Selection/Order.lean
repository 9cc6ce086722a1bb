import TokenSearch.Selection.Entry

/-!
The order in which entries are ranked. `Binary32.rank` numbers all bit patterns without
repetition, so `Entry.before` is a linear order: two entries that rank no later than each other
are the same entry. A filler comes after every entry whose score is no negative NaN.
-/

namespace TokenSearch

namespace Binary32

/-- A NaN with its sign bit set: the only scores below negative infinity in the total order. -/
def isNegativeNaN (x : Binary32) : Bool := x.negative && x.isNaN

theorem negative_iff {x : Binary32} : x.negative = true ↔ 2 ^ 31 ≤ x.bits.toNat := by
  simp [negative, UInt32.le_iff_toNat_le]

theorem toNat_rank (x : Binary32) : x.rank.toNat =
    if x.negative then 2 ^ 32 - 1 - x.bits.toNat else 2 ^ 31 + x.bits.toNat := by
  unfold rank
  split
  · exact UInt32.toNat_not x.bits
  case isFalse h =>
    have small : x.bits.toNat < 2 ^ 31 := Nat.lt_of_not_le (mt negative_iff.2 h)
    have carry := Nat.two_pow_add_eq_or_of_lt small 1
    rw [UInt32.toNat_or]
    simpa [Nat.or_comm] using carry.symm

theorem rank_inj {x y : Binary32} : x.rank = y.rank ↔ x = y := by
  refine ⟨fun h => ?_, congrArg rank⟩
  have ranks := congrArg UInt32.toNat h
  have hx := x.bits.toNat_lt
  have hy := y.bits.toNat_lt
  have bits : x.bits.toNat = y.bits.toNat := by
    simp only [toNat_rank, negative_iff] at ranks
    split at ranks <;> split at ranks <;> omega
  cases x
  cases y
  simpa [← UInt32.toNat_inj] using bits

theorem rank_bottom_le {x : Binary32} (h : x.isNegativeNaN = false) :
    bottom.rank ≤ x.rank := by
  have low : bottom.rank.toNat = 0x007fffff := by decide
  have hx := x.bits.toNat_lt
  rw [UInt32.le_iff_toNat_le, low, toNat_rank]
  split
  case isTrue s =>
    have fraction : x.bits.toNat % 2 ^ 31 ≤ 0x7f800000 := by
      have mask := Nat.and_two_pow_sub_one_eq_mod x.bits.toNat 31
      simpa [isNegativeNaN, s, isNaN, UInt32.lt_iff_toNat_lt, ← mask] using h
    rw [negative_iff] at s
    omega
  · omega

end Binary32

namespace Selection.Entry

theorem before_iff {a b : Entry} : a.before b = true ↔
    b.score.rank < a.score.rank ∨ a.score = b.score ∧ placeLe a.place b.place = true := by
  simp [before, Binary32.rank_inj]

theorem placeLe_trans {a b c : Option Nat} (h : placeLe a b = true) (h' : placeLe b c = true) :
    placeLe a c = true := by
  cases a <;> cases b <;> cases c <;> simp_all [placeLe]
  omega

theorem placeLe_total (a b : Option Nat) : (placeLe a b || placeLe b a) = true := by
  cases a <;> cases b <;> simp [placeLe]
  omega

theorem placeLe_antisymm {a b : Option Nat} (h : placeLe a b = true) (h' : placeLe b a = true) :
    a = b := by
  cases a <;> cases b <;> simp_all [placeLe]
  omega

theorem before_trans (a b c : Entry) (h : a.before b = true) (h' : b.before c = true) :
    a.before c = true := by
  rw [before_iff] at *
  obtain h | ⟨score, place⟩ := h
  · obtain h' | ⟨score', -⟩ := h'
    · exact .inl (UInt32.lt_trans h' h)
    · exact .inl (score' ▸ h)
  · obtain h' | ⟨score', place'⟩ := h'
    · exact .inl (score ▸ h')
    · exact .inr ⟨score.trans score', placeLe_trans place place'⟩

theorem before_total (a b : Entry) : (a.before b || b.before a) = true := by
  rw [Bool.or_eq_true, before_iff, before_iff]
  rcases Nat.lt_trichotomy a.score.rank.toNat b.score.rank.toNat with h | h | h
  · exact .inr (.inl (UInt32.lt_iff_toNat_lt.2 h))
  · have score := Binary32.rank_inj.1 (UInt32.toNat_inj.1 h)
    obtain le | le := Bool.or_eq_true _ _ ▸ placeLe_total a.place b.place
    · exact .inl (.inr ⟨score, le⟩)
    · exact .inr (.inr ⟨score.symm, le⟩)
  · exact .inl (.inl (UInt32.lt_iff_toNat_lt.2 h))

theorem before_antisymm (a b : Entry) (h : a.before b = true) (h' : b.before a = true) :
    a = b := by
  rw [before_iff] at *
  obtain h | ⟨score, place⟩ := h
  · obtain h' | ⟨score, -⟩ := h'
    · exact absurd (UInt32.lt_trans h h') (UInt32.lt_irrefl _)
    · exact absurd (score ▸ h) (UInt32.lt_irrefl _)
  · obtain h' | ⟨-, place'⟩ := h'
    · exact absurd (score ▸ h') (UInt32.lt_irrefl _)
    · cases a
      cases b
      rw [Entry.mk.injEq]
      exact ⟨score, placeLe_antisymm place place'⟩

@[simp] theorem before_refl (a : Entry) : a.before a = true := by
  simpa using before_total a a

/-- Whether a filler is no rival: the entry ranks before it. -/
def clean (e : Entry) : Bool := !e.score.isNegativeNaN

theorem before_filler {e : Entry} (h : e.clean = true) : e.before filler = true := by
  have low := Binary32.rank_bottom_le (x := e.score) (by simpa [clean] using h)
  rw [before_iff]
  rcases UInt32.lt_or_eq_of_le low with lt | eq
  · exact .inl lt
  · exact .inr ⟨Binary32.rank_inj.1 eq.symm, by cases e.place <;> rfl⟩

end Selection.Entry

end TokenSearch
