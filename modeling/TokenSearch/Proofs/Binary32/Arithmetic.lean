import TokenSearch.Binary32.Arithmetic
import TokenSearch.Proofs.Binary32.Order

/-!
Signs and bounds of sums, products and quotients. A finite result is its exact value rounded, so a
bound that is a number itself survives the rounding; the infinities are the ends of the order. No
statement here needs an error bound.
-/

namespace TokenSearch

namespace Binary32

variable {x y z : Binary32}

/-! ## Units and patterns -/

theorem nearest_le (num den : Nat) : BinaryFormat.binary32.nearest num den ≤ 0x7f800000 :=
  infinity_eq ▸ BinaryFormat.binary32.nearest_le_infinity num den

@[simp] theorem units_zero : BinaryFormat.binary32.units 0 = 0 := by decide

theorem nearest_units_mul {den : Nat} (number : x.isNaN = false) (pos : 0 < den) :
    BinaryFormat.binary32.nearest (BinaryFormat.binary32.units x.magnitude * den) den =
      x.magnitude :=
  BinaryFormat.binary32.nearest_units_mul (infinity_eq ▸ magnitude_le number) pos

@[simp] theorem natAbs_units (x : Binary32) :
    x.units.natAbs = BinaryFormat.binary32.units x.magnitude := by
  unfold units
  dsimp only
  split <;> simp

theorem units_magnitude_le (number : x.isNaN = false) (number' : y.isNaN = false) :
    BinaryFormat.binary32.units x.magnitude ≤ BinaryFormat.binary32.units y.magnitude ↔
      x.magnitude ≤ y.magnitude :=
  BinaryFormat.binary32.units_le_units (infinity_eq ▸ magnitude_le number)
    (infinity_eq ▸ magnitude_le number')

theorem units_magnitude_pos (number : x.isNaN = false) :
    0 < BinaryFormat.binary32.units x.magnitude ↔ 0 < x.magnitude := by
  have le := BinaryFormat.binary32.units_le_units (infinity_eq ▸ magnitude_le number)
    (Nat.zero_le BinaryFormat.binary32.infinity)
  rw [units_zero] at le
  omega

theorem units_le (number : x.isNaN = false) (number' : y.isNaN = false) :
    x.units ≤ y.units ↔ x.signed ≤ y.signed := by
  have less := units_magnitude_le number number'
  have more := units_magnitude_le number' number
  have pos := units_magnitude_pos number
  have pos' := units_magnitude_pos number'
  unfold units signed
  dsimp only
  split <;> split <;> omega

/-! ## Signed rounding -/

/-- Where the number nearest to `value` units lies. -/
def place (value : Int) : Int :=
  if value < 0 then -(BinaryFormat.binary32.nearest value.natAbs 1 : Int)
  else BinaryFormat.binary32.nearest value.natAbs 1

theorem place_mono {a b : Int} (le : a ≤ b) : place a ≤ place b := by
  have up (h : a.natAbs ≤ b.natAbs) : BinaryFormat.binary32.nearest a.natAbs 1 ≤
      BinaryFormat.binary32.nearest b.natAbs 1 :=
    BinaryFormat.binary32.nearest_mono Nat.one_pos Nat.one_pos (Nat.mul_le_mul_right 1 h)
  have down (h : b.natAbs ≤ a.natAbs) : BinaryFormat.binary32.nearest b.natAbs 1 ≤
      BinaryFormat.binary32.nearest a.natAbs 1 :=
    BinaryFormat.binary32.nearest_mono Nat.one_pos Nat.one_pos (Nat.mul_le_mul_right 1 h)
  unfold place
  split <;> split <;> omega

theorem place_units (number : x.isNaN = false) : place x.units = x.signed := by
  have rounded := nearest_units_mul number Nat.one_pos
  rw [Nat.mul_one] at rounded
  have pos := units_magnitude_pos number
  unfold place
  rw [natAbs_units, rounded]
  unfold units signed
  dsimp only
  split <;> split <;> omega

theorem neg_infinity_le (number : x.isNaN = false) : -0x7f800000 ≤ x.signed := by
  have le := magnitude_le number
  unfold signed
  split <;> omega

theorem bottom_le (number : x.isNaN = false) : bottom.le x = true :=
  le_iff.2 ⟨by decide, number, neg_infinity_le number⟩

theorem le_infinity (number : x.isNaN = false) : x.signed ≤ 0x7f800000 := by
  have le := magnitude_le number
  unfold signed
  split <;> omega

theorem signed_of_isInfinite (infinite : x.isInfinite = true) :
    x.signed = if x.negative then -0x7f800000 else 0x7f800000 := by
  rw [isInfinite_iff] at infinite
  rw [signed, infinite]
  rfl

theorem isInfinite_of_signed (number : x.isNaN = false)
    (far : x.signed ≤ -0x7f800000 ∨ 0x7f800000 ≤ x.signed) : x.isInfinite = true := by
  have le := magnitude_le number
  rw [isInfinite_iff]
  unfold signed at far
  split at far <;> omega

theorem negative_of_le (infinite : x.isInfinite = true) (h : x.le y = true)
    (finite : y.isInfinite = false) : x.negative = true := by
  obtain ⟨-, number, le⟩ := le_iff.1 h
  by_contra positive
  have far := signed_of_isInfinite infinite
  rw [if_neg positive] at far
  have infinite' := isInfinite_of_signed number (.inr (far ▸ le))
  exact absurd (finite.symm.trans infinite') (by decide)

theorem positive_of_le (infinite : y.isInfinite = true) (h : x.le y = true)
    (finite : x.isInfinite = false) : y.negative = false := by
  obtain ⟨number, -, le⟩ := le_iff.1 h
  by_contra negative
  have far := signed_of_isInfinite infinite
  rw [if_pos (by simpa using negative)] at far
  have infinite' := isInfinite_of_signed number (.inl (far ▸ le))
  exact absurd (finite.symm.trans infinite') (by decide)

@[simp] theorem isNaN_zero : zero.isNaN = false := by decide

@[simp] theorem isInfinite_zero : zero.isInfinite = false := by decide

@[simp] theorem units_zero_eq : zero.units = 0 := by decide

/-! ## Sums -/

theorem add_eq (x y : Binary32) : x + y = x.add y := rfl

@[simp] theorem isNaN_invalid : invalid.isNaN = true := by decide

theorem add_of_infinite_left (number : x.isNaN = false) (number' : y.isNaN = false)
    (infinite : x.isInfinite = true) :
    x + y = if y.isInfinite && x.negative != y.negative then invalid else x := by
  simp [add_eq, add, number, number', infinite]

theorem add_of_infinite_right (number : x.isNaN = false) (number' : y.isNaN = false)
    (finite : x.isInfinite = false) (infinite : y.isInfinite = true) : x + y = y := by
  simp [add_eq, add, number, number', finite, infinite]

theorem add_of_finite (number : x.isNaN = false) (number' : y.isNaN = false)
    (finite : x.isInfinite = false) (finite' : y.isInfinite = false) :
    (x + y).isNaN = false ∧ (x + y).signed = place (x.units + y.units) := by
  have sum : x + y = if x.units + y.units = 0 then ofMagnitude (x.negative && y.negative) 0
      else round (x.units + y.units < 0) (x.units + y.units).natAbs 1 := by
    simp [add_eq, add, number, number', finite, finite']
  rw [sum]
  split
  case isTrue zero =>
    rw [isNaN_ofMagnitude (by decide), signed_ofMagnitude (by decide), zero, place, Int.natAbs_zero,
      BinaryFormat.nearest_zero]
    simp
  case isFalse =>
    rw [round, isNaN_ofMagnitude (nearest_le _ _), signed_ofMagnitude (nearest_le _ _), place]
    simp

theorem add_eq_left (number : x.isNaN = false) (number' : y.isNaN = false)
    (infinite : x.isInfinite = true) (sum : (x + y).isNaN = false) : x + y = x := by
  rw [add_of_infinite_left number number' infinite] at sum ⊢
  split
  case isTrue opposite =>
    rw [if_pos opposite, isNaN_invalid] at sum
    cases sum
  case isFalse => rfl

theorem add_mono (h : y.le z = true) (number : x.isNaN = false) (sum : (x + y).isNaN = false)
    (sum' : (x + z).isNaN = false) : (x + y).le (x + z) = true := by
  obtain ⟨hy, hz, le⟩ := le_iff.1 h
  refine le_iff.2 ⟨sum, sum', ?_⟩
  cases infinite : x.isInfinite with
  | true =>
    have left := add_eq_left number hy infinite sum
    have left' := add_eq_left number hz infinite sum'
    exact Int.le_of_eq (congrArg signed (left.trans left'.symm))
  | false =>
    cases infY : y.isInfinite with
    | true =>
      rw [add_of_infinite_right number hy infinite infY]
      cases infZ : z.isInfinite with
      | true => rwa [add_of_infinite_right number hz infinite infZ]
      | false =>
        rw [signed_of_isInfinite infY, if_pos (negative_of_le infY h infZ)]
        exact neg_infinity_le sum'
    | false =>
      cases infZ : z.isInfinite with
      | true =>
        rw [add_of_infinite_right number hz infinite infZ, signed_of_isInfinite infZ,
          positive_of_le infZ h infY]
        exact le_infinity sum
      | false =>
        rw [(add_of_finite number hy infinite infY).2, (add_of_finite number hz infinite infZ).2]
        exact place_mono (Int.add_le_add_left ((units_le hy hz).2 le) _)

theorem add_zero (number : x.isNaN = false) :
    (x + zero).isNaN = false ∧ (x + zero).signed = x.signed := by
  cases infinite : x.isInfinite with
  | true =>
    rw [add_of_infinite_left number isNaN_zero infinite, isInfinite_zero, Bool.false_and]
    exact ⟨number, rfl⟩
  | false =>
    obtain ⟨sum, value⟩ := add_of_finite number isNaN_zero infinite isInfinite_zero
    rw [units_zero_eq, Int.add_zero, place_units number] at value
    exact ⟨sum, value⟩

theorem isNaN_add (number : x.isNaN = false) (number' : y.isNaN = false)
    (agree : x.isInfinite = true → y.isInfinite = true → x.negative = y.negative) :
    (x + y).isNaN = false := by
  cases infinite : x.isInfinite with
  | true =>
    rw [add_of_infinite_left number number' infinite]
    cases infinite' : y.isInfinite with
    | true => simp [agree infinite infinite', number]
    | false => simpa using number
  | false =>
    cases infinite' : y.isInfinite with
    | true => rwa [add_of_infinite_right number number' infinite infinite']
    | false => exact (add_of_finite number number' infinite infinite').1

theorem signed_add_comm (number : x.isNaN = false) (number' : y.isNaN = false)
    (agree : x.isInfinite = true → y.isInfinite = true → x.negative = y.negative) :
    (x + y).signed = (y + x).signed := by
  have sum := isNaN_add number number' agree
  have sum' := isNaN_add number' number fun infY infX => (agree infX infY).symm
  cases infinite : x.isInfinite with
  | true =>
    rw [add_eq_left number number' infinite sum]
    cases infinite' : y.isInfinite with
    | true =>
      rw [add_eq_left number' number infinite' sum', signed_of_isInfinite infinite,
        signed_of_isInfinite infinite', agree infinite infinite']
    | false => rw [add_of_infinite_right number' number infinite' infinite]
  | false =>
    cases infinite' : y.isInfinite with
    | true =>
      rw [add_of_infinite_right number number' infinite infinite',
        add_eq_left number' number infinite' sum']
    | false =>
      rw [(add_of_finite number number' infinite infinite').2,
        (add_of_finite number' number infinite' infinite).2, Int.add_comm]

section Nonpositive

variable (hx : x.le zero = true) (hy : y.le zero = true)

include hx hy

theorem agree_of_nonpos (infX : x.isInfinite = true) (infY : y.isInfinite = true) :
    x.negative = y.negative :=
  (negative_of_le infX hx isInfinite_zero).trans (negative_of_le infY hy isInfinite_zero).symm

theorem add_le_left : (x + y).le x = true := by
  have number := (le_iff.1 hx).1
  have sum := isNaN_add number (le_iff.1 hy).1 (agree_of_nonpos hx hy)
  obtain ⟨number₀, value⟩ := add_zero number
  have mono := (le_iff.1 (add_mono hy number sum number₀)).2.2
  exact le_iff.2 ⟨sum, number, value ▸ mono⟩

theorem add_le_right : (x + y).le y = true := by
  have swapped := signed_add_comm (le_iff.1 hx).1 (le_iff.1 hy).1 (agree_of_nonpos hx hy)
  have sum := (le_iff.1 (add_le_left hx hy)).1
  have below := le_iff.1 (add_le_left hy hx)
  exact le_iff.2 ⟨sum, below.2.1, swapped ▸ below.2.2⟩

end Nonpositive

theorem le_add_left (number : x.isNaN = false) (nonneg : zero.le y = true)
    (sum : (x + y).isNaN = false) : x.le (x + y) = true := by
  obtain ⟨number₀, value⟩ := add_zero number
  have mono := (le_iff.1 (add_mono nonneg number number₀ sum)).2.2
  exact le_iff.2 ⟨number, sum, value ▸ mono⟩

section Nonnegative

variable (hx : zero.le x = true) (hy : zero.le y = true)

include hx hy

theorem agree_of_nonneg (infX : x.isInfinite = true) (infY : y.isInfinite = true) :
    x.negative = y.negative :=
  (positive_of_le infX hx isInfinite_zero).trans (positive_of_le infY hy isInfinite_zero).symm

theorem isNaN_add_of_nonneg : (x + y).isNaN = false :=
  isNaN_add (le_iff.1 hx).2.1 (le_iff.1 hy).2.1 (agree_of_nonneg hx hy)

theorem le_add_right : y.le (x + y) = true := by
  have number := (le_iff.1 hx).2.1
  have number' := (le_iff.1 hy).2.1
  have swapped := signed_add_comm number number' (agree_of_nonneg hx hy)
  have above := le_iff.1 (le_add_left number' hx (isNaN_add_of_nonneg hy hx))
  exact le_iff.2 ⟨number', isNaN_add_of_nonneg hx hy, swapped ▸ above.2.2⟩

end Nonnegative

theorem le_foldl_add {list : List Binary32} (start : zero.le x = true)
    (nonneg : ∀ y ∈ list, zero.le y = true) : x.le (list.foldl (· + ·) x) = true ∧
      ∀ y ∈ list, y.le (list.foldl (· + ·) x) = true := by
  induction list generalizing x with
  | nil => exact ⟨le_refl (le_iff.1 start).2.1, nofun⟩
  | cons y rest ih =>
    have term := nonneg y List.mem_cons_self
    have left := le_add_left (le_iff.1 start).2.1 term (isNaN_add_of_nonneg start term)
    have right := le_add_right start term
    obtain ⟨above, others⟩ := ih (le_trans start left) fun z hz =>
      nonneg z (List.mem_cons_of_mem _ hz)
    rw [List.foldl_cons]
    refine ⟨le_trans left above, fun z hz => ?_⟩
    rcases List.mem_cons.1 hz with rfl | later
    · exact le_trans right above
    · exact others z later

/-! ## Differences -/

@[simp] theorem negative_neg (x : Binary32) : x.neg.negative = !x.negative := by
  have bound := x.bits.toNat_lt
  have top : (x.bits.toNat ^^^ 2 ^ 31) / 2 ^ 31 = x.bits.toNat / 2 ^ 31 ^^^ 1 :=
    Nat.xor_div_two_pow
  rw [Bool.eq_iff_iff, Bool.not_eq_true', ← Bool.not_eq_true, negative_iff, negative_iff, neg,
    UInt32.toNat_xor]
  show 2 ^ 31 ≤ x.bits.toNat ^^^ 2 ^ 31 ↔ _
  have small : x.bits.toNat / 2 ^ 31 = 0 ∨ x.bits.toNat / 2 ^ 31 = 1 := by omega
  rcases small with low | high
  · rw [low, Nat.zero_xor] at top
    omega
  · rw [high, Nat.xor_self] at top
    omega

@[simp] theorem magnitude_neg (x : Binary32) : x.neg.magnitude = x.magnitude := by
  rw [magnitude_eq, magnitude_eq, neg, UInt32.toNat_xor, Nat.xor_mod_two_pow]
  exact Nat.xor_zero _

@[simp] theorem isNaN_neg (x : Binary32) : x.neg.isNaN = x.isNaN := by
  rw [Bool.eq_iff_iff, isNaN_iff, isNaN_iff, magnitude_neg]

@[simp] theorem isInfinite_neg (x : Binary32) : x.neg.isInfinite = x.isInfinite := by
  rw [Bool.eq_iff_iff, isInfinite_iff, isInfinite_iff, magnitude_neg]

@[simp] theorem units_neg (x : Binary32) : x.neg.units = -x.units := by
  cases sign : x.negative <;> simp [units, sign]

theorem sub_eq (number : x.isNaN = false) (number' : y.isNaN = false) : x - y = x + y.neg := by
  show x.sub y = x.add y.neg
  simp [sub, number, number']

theorem sub_self (number : x.isNaN = false) (finite : x.isInfinite = false) : x - x = zero := by
  rw [sub_eq number number, add_eq, add]
  simp [number, finite, Int.add_right_neg]
  decide

theorem sub_nonpos (hx : x.le z = true) (hy : z.le y = true) (finite : z.isInfinite = false) :
    (x - y).le zero = true := by
  obtain ⟨number, -, le⟩ := le_iff.1 hx
  obtain ⟨-, number', le'⟩ := le_iff.1 hy
  have low := fun infX => negative_of_le infX hx finite
  have high : y.neg.isInfinite = true → y.neg.negative = true := by
    intro infY
    simp at infY
    simp [positive_of_le infY hy finite]
  have numberNeg : y.neg.isNaN = false := by simp [number']
  have sum : (x + y.neg).isNaN = false :=
    isNaN_add number numberNeg fun infX infY => (low infX).trans (high infY).symm
  rw [sub_eq number number']
  refine le_iff.2 ⟨sum, isNaN_zero, ?_⟩
  cases infinite : x.isInfinite with
  | true =>
    rw [add_eq_left number numberNeg infinite sum, signed_of_isInfinite infinite,
      if_pos (low infinite)]
    decide
  | false =>
    cases infinite' : y.neg.isInfinite with
    | true =>
      rw [add_of_infinite_right number numberNeg infinite infinite', signed_of_isInfinite infinite',
        if_pos (high infinite')]
      decide
    | false =>
      have ordered := (units_le number number').2 (Int.le_trans le le')
      rw [(add_of_finite number numberNeg infinite infinite').2, ← place_units isNaN_zero,
        units_neg, units_zero_eq]
      exact place_mono (by omega)

/-! ## Products -/

theorem negative_of_lt (h : x.lt zero = true) : x.negative = true ∧ 0 < x.magnitude := by
  have less : x.signed < 0 := (lt_iff.1 h).2.2
  unfold signed at less
  split at less
  case isTrue negative => exact ⟨negative, by omega⟩
  case isFalse => omega

theorem positive_of_lt (h : zero.lt x = true) : x.negative = false ∧ 0 < x.magnitude := by
  have less : 0 < x.signed := (lt_iff.1 h).2.2
  unfold signed at less
  split at less
  case isTrue => omega
  case isFalse positive => exact ⟨by simpa using positive, by omega⟩

theorem magnitude_of_nonpos (h : x.le zero = true) (positive : x.negative = false) :
    x.magnitude = 0 := by
  have le : x.signed ≤ 0 := (le_iff.1 h).2.2
  rw [signed, positive] at le
  simpa using le

section Products

variable (hx : x.lt zero = true) (hy : zero.lt y = true) (finite : y.isInfinite = false)

include hx hy finite

theorem signed_mul : (x * y).isNaN = false ∧ (x * y).signed =
    if x.isInfinite then -0x7f800000
    else -(BinaryFormat.binary32.nearest (BinaryFormat.binary32.units x.magnitude *
      BinaryFormat.binary32.units y.magnitude) (2 ^ 149) : Int) := by
  have number := (lt_iff.1 hx).1
  have number' := (lt_iff.1 hy).2.1
  obtain ⟨negative, some⟩ := negative_of_lt hx
  obtain ⟨positive, some'⟩ := positive_of_lt hy
  have product : x * y = if x.isInfinite then ofMagnitude true 0x7f800000
      else round true (x.units * y.units).natAbs (2 ^ 149) := by
    show x.mul y = _
    have one : x.magnitude ≠ 0 := by omega
    have other : y.magnitude ≠ 0 := by omega
    simp [mul, number, number', finite, negative, positive, one, other]
  rw [product]
  split
  · exact ⟨isNaN_ofMagnitude (by decide), signed_ofMagnitude (by decide)⟩
  · rw [Int.natAbs_mul, natAbs_units, natAbs_units, round, signed_ofMagnitude (nearest_le _ _),
      if_pos rfl]
    exact ⟨isNaN_ofMagnitude (nearest_le _ _), rfl⟩

theorem mul_nonpos : (x * y).le zero = true := by
  obtain ⟨product, value⟩ := signed_mul hx hy finite
  refine le_iff.2 ⟨product, isNaN_zero, ?_⟩
  rw [value]
  split
  · decide
  · exact Int.neg_nonpos_of_nonneg (Int.natCast_nonneg _)

theorem mul_le (large : one.le y = true) : (x * y).le x = true := by
  have number := (lt_iff.1 hx).1
  obtain ⟨product, value⟩ := signed_mul hx hy finite
  refine le_iff.2 ⟨product, number, ?_⟩
  rw [value]
  split
  · exact neg_infinity_le number
  · have factor : 2 ^ 149 ≤ BinaryFormat.binary32.units y.magnitude := by
      have le := (units_le (le_iff.1 large).1 (le_iff.1 large).2.1).2 (le_iff.1 large).2.2
      have unit : one.units = 2 ^ 149 := by decide
      rw [unit] at le
      rw [← natAbs_units]
      omega
    have unit : 0 < 2 ^ 149 := by decide
    have rounded := BinaryFormat.binary32.nearest_mono unit unit (Nat.mul_le_mul_right (2 ^ 149)
      (Nat.mul_le_mul_left (BinaryFormat.binary32.units x.magnitude) factor))
    rw [nearest_units_mul number (by decide)] at rounded
    rw [signed, (negative_of_lt hx).1, if_pos rfl]
    omega

end Products

/-! ## Quotients -/

section Quotients

variable (nonpos : x.le zero = true) (number : y.isNaN = false) (positive : y.negative = false)

include nonpos number positive

theorem signed_div (finite : x.isInfinite = false) (finite' : y.isInfinite = false)
    (some : y.magnitude ≠ 0) : (x / y).isNaN = false ∧ (x / y).signed =
      -(BinaryFormat.binary32.nearest (BinaryFormat.binary32.units x.magnitude * 2 ^ 149)
        (BinaryFormat.binary32.units y.magnitude) : Int) := by
  have quotient : x / y = round x.negative (x.units.natAbs * 2 ^ 149) y.units.natAbs := by
    show x.div y = _
    simp [div, (le_iff.1 nonpos).1, number, positive, finite, finite', some]
  rw [quotient, natAbs_units, natAbs_units, round]
  refine ⟨isNaN_ofMagnitude (nearest_le _ _), ?_⟩
  rw [signed_ofMagnitude (nearest_le _ _)]
  cases sign : x.negative with
  | true => rw [if_pos rfl]
  | false =>
    rw [magnitude_of_nonpos nonpos sign, units_zero, Nat.zero_mul, BinaryFormat.nearest_zero]
    rfl

theorem signed_div_infinite (infinite : y.isInfinite = true) (quotient : (x / y).isNaN = false) :
    x.isInfinite = false ∧ (x / y).signed = 0 := by
  have value : x / y = if x.isInfinite then invalid else ofMagnitude x.negative 0 := by
    show x.div y = _
    simp [div, (le_iff.1 nonpos).1, number, positive, infinite]
  rw [value] at quotient ⊢
  cases sign : x.isInfinite with
  | true =>
    rw [sign, if_pos rfl, isNaN_invalid] at quotient
    cases quotient
  | false =>
    refine ⟨rfl, ?_⟩
    rw [if_neg (by decide), signed_ofMagnitude (by decide)]
    split <;> rfl

theorem signed_div_far (finite : y.isInfinite = false)
    (far : x.isInfinite = true ∨ y.magnitude = 0) (quotient : (x / y).isNaN = false) :
    (x / y).signed = -0x7f800000 := by
  have value : x / y = if !x.isInfinite && x.magnitude = 0 then invalid
      else ofMagnitude x.negative 0x7f800000 := by
    show x.div y = _
    rcases far with infinite | zero
    · simp [div, (le_iff.1 nonpos).1, number, positive, finite, infinite]
    · cases infinite : x.isInfinite <;>
        simp [div, (le_iff.1 nonpos).1, number, positive, finite, infinite, zero]
  rw [value] at quotient ⊢
  cases undefined : !x.isInfinite && x.magnitude = 0 with
  | true =>
    rw [undefined, if_pos rfl, isNaN_invalid] at quotient
    cases quotient
  | false =>
    have negative : x.negative = true := by
      by_contra positive
      have none := magnitude_of_nonpos nonpos (by simpa using positive)
      have finiteX : x.isInfinite = false := by
        rw [← Bool.not_eq_true, isInfinite_iff, none]
        decide
      simp [none, finiteX] at undefined
    rw [if_neg (by decide), negative]
    exact signed_ofMagnitude (by decide)

end Quotients

theorem div_invalid (number : x.isNaN = false) (number' : y.isNaN = false)
    (undefined : (x / y).isNaN = true) : x / y = invalid := by
  have defined (b : Bool) {pattern : Nat} (small : pattern ≤ 0x7f800000) :
      ¬ (ofMagnitude b pattern).isNaN = true := by
    rw [isNaN_ofMagnitude small]
    decide
  have value : x / y = x.div y := rfl
  rw [value] at undefined ⊢
  unfold div at undefined ⊢
  dsimp only at undefined ⊢
  rw [number, number'] at undefined ⊢
  simp only [Bool.false_eq_true, if_false] at undefined ⊢
  by_cases infX : x.isInfinite = true
  · rw [if_pos infX] at undefined ⊢
    by_cases infY : y.isInfinite = true
    · rw [if_pos infY]
    · rw [if_neg infY] at undefined
      exact absurd undefined (defined _ (by decide))
  · rw [if_neg infX] at undefined ⊢
    by_cases infY : y.isInfinite = true
    · rw [if_pos infY] at undefined
      exact absurd undefined (defined _ (by decide))
    · rw [if_neg infY] at undefined ⊢
      by_cases zeroY : y.magnitude = 0
      · rw [if_pos zeroY] at undefined ⊢
        by_cases zeroX : x.magnitude = 0
        · rw [if_pos zeroX]
        · rw [if_neg zeroX] at undefined
          exact absurd undefined (defined _ (by decide))
      · rw [if_neg zeroY] at undefined
        exact absurd undefined (defined _ (nearest_le _ _))

theorem div_le (nonneg : zero.le x = true) (finite : y.isInfinite = false)
    (large : one.le y = true) : (x / y).le x = true := by
  obtain ⟨-, number, above⟩ := le_iff.1 nonneg
  obtain ⟨-, number', -⟩ := le_iff.1 large
  have unit : zero.lt one = true := by decide
  obtain ⟨positive, some⟩ := positive_of_lt (lt_of_lt_of_le unit large)
  have quotient : x / y = if x.isInfinite then ofMagnitude x.negative 0x7f800000
      else round x.negative (x.units.natAbs * 2 ^ 149) y.units.natAbs := by
    show x.div y = _
    simp [div, number, number', finite, positive, Nat.pos_iff_ne_zero.1 some]
  rw [quotient]
  split
  case isTrue infinite =>
    have same := (signed_of_isInfinite infinite).symm
    refine le_iff.2 ⟨isNaN_ofMagnitude (by decide), number, ?_⟩
    rw [signed_ofMagnitude (by decide)]
    exact Int.le_of_eq same
  case isFalse =>
    have divisor : 2 ^ 149 ≤ y.units.natAbs := by
      have le := (units_le (le_iff.1 large).1 number').2 (le_iff.1 large).2.2
      have unit : one.units = 2 ^ 149 := by decide
      rw [unit] at le
      omega
    have unit : 0 < 2 ^ 149 := by decide
    have below : BinaryFormat.binary32.nearest (x.units.natAbs * 2 ^ 149) y.units.natAbs ≤
        x.magnitude := by
      rw [← nearest_units_mul number unit, natAbs_units x]
      exact BinaryFormat.binary32.nearest_mono (Nat.lt_of_lt_of_le unit divisor) unit
        (Nat.mul_le_mul_left _ divisor)
    refine le_iff.2 ⟨isNaN_ofMagnitude (nearest_le _ _), number, ?_⟩
    rw [round, signed_ofMagnitude (nearest_le _ _)]
    -- A number with its sign bit set that is not negative is a zero.
    have none : x.negative = true → x.magnitude = 0 := by
      intro negative
      change (0 : Int) ≤ x.signed at above
      rw [signed, if_pos negative] at above
      omega
    unfold signed
    split
    case isTrue negative =>
      rw [none negative] at below ⊢
      omega
    case isFalse => omega

theorem magnitude_anti (h : x.le y = true) (nonpos : y.le zero = true) :
    y.magnitude ≤ x.magnitude := by
  have le := (le_iff.1 h).2.2
  have below : y.signed ≤ 0 := (le_iff.1 nonpos).2.2
  unfold signed at le below
  cases signX : x.negative <;> cases signY : y.negative <;>
    simp only [signX, signY, Bool.false_eq_true, if_true, if_false] at le below <;> omega

theorem magnitude_mono (h : x.le y = true) (positive : x.negative = false)
    (positive' : y.negative = false) : x.magnitude ≤ y.magnitude := by
  have le := (le_iff.1 h).2.2
  rw [signed, signed, positive, positive'] at le
  simpa using le

theorem div_mono {x' y' : Binary32} (hx : x'.le x = true) (nonpos : x.le zero = true)
    (hy : y'.le y = true) (positive : y.negative = false) (positive' : y'.negative = false)
    (quotient : (x / y).isNaN = false) (quotient' : (x' / y').isNaN = false) :
    (x' / y').le (x / y) = true := by
  have nonpos' := le_trans hx nonpos
  obtain ⟨number', number, -⟩ := le_iff.1 hy
  obtain ⟨numberX', numberX, -⟩ := le_iff.1 hx
  have divisors := magnitude_mono hy positive' positive
  have dividends := magnitude_anti hx nonpos
  refine le_iff.2 ⟨quotient', quotient, ?_⟩
  cases infinite' : y'.isInfinite with
  | true =>
    have infinite : y.isInfinite = true := by
      rw [isInfinite_iff] at infinite' ⊢
      exact Nat.le_antisymm (magnitude_le number) (infinite' ▸ divisors)
    have zero' := (signed_div_infinite nonpos' number' positive' infinite' quotient').2
    have zero := (signed_div_infinite nonpos number positive infinite quotient).2
    exact Int.le_of_eq (zero'.trans zero.symm)
  | false =>
    by_cases far : x'.isInfinite = true ∨ y'.magnitude = 0
    · rw [signed_div_far nonpos' number' positive' infinite' far quotient']
      exact neg_infinity_le quotient
    · rw [not_or, Bool.not_eq_true] at far
      rw [(signed_div nonpos' number' positive' far.1 infinite' far.2).2]
      cases infinite : y.isInfinite with
      | true =>
        rw [(signed_div_infinite nonpos number positive infinite quotient).2]
        exact Int.neg_nonpos_of_nonneg (Int.natCast_nonneg _)
      | false =>
        have finiteX : x.isInfinite = false := by
          have inside := magnitude_lt numberX' far.1
          rw [← Bool.not_eq_true, isInfinite_iff]
          omega
        have less := (units_magnitude_le numberX numberX').2 dividends
        have more := (units_magnitude_le number' number).2 divisors
        have some := (units_magnitude_pos number').2 (Nat.pos_of_ne_zero far.2)
        rw [(signed_div nonpos number positive finiteX infinite (by omega)).2]
        refine Int.neg_le_neg (Int.ofNat_le.2 (BinaryFormat.binary32.nearest_mono
          (Nat.lt_of_lt_of_le some more) some (Nat.mul_le_mul (Nat.mul_le_mul_right _ less) more)))

end Binary32

end TokenSearch
