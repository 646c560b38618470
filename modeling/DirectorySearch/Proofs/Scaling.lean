import DirectorySearch.Proofs.Rounding

/-! A decimal is read in two roundings, one of its digits and one with the power of ten. Where the digits and the
    power are doubles as they are, only the second one rounds, and the decimal is read as the nearest double. -/

namespace DirectorySearch.FiniteDouble

open Decimal

variable {x : FiniteDouble} {negative : Bool} {num den digits : Nat}

/-! ### Doubles of so many units -/

/-- A number below `2 ^ 53` fills a significand once it is shifted. -/
theorem exists_units {m e : Nat} (hm : m < 2 ^ 53) (hleast : 52 ≤ e) (hmost : e ≤ 2045) :
    ∃ x : FiniteDouble, x.negative = false ∧ x.units = m * 2 ^ e := by
  by_cases hzero : m = 0
  · exact ⟨zero false, rfl, by rw [hzero, Nat.zero_mul]; rfl⟩
  have hlog : m.log2 ≤ 52 := Nat.le_of_lt_succ ((Nat.log2_lt hzero).mpr hm)
  obtain ⟨hlow, hhigh⟩ := (Nat.log2_eq_iff hzero).mp rfl
  have hshift (k : Nat) : 2 ^ (m.log2 + k) * 2 ^ (52 - m.log2) = 2 ^ (52 + k) := by
    rw [← Nat.pow_add]
    congr 1
    omega
  have hfull : 2 ^ 52 ≤ m * 2 ^ (52 - m.log2) := hshift 0 ▸ Nat.mul_le_mul_right _ hlow
  have hlt : m * 2 ^ (52 - m.log2) < 2 ^ 53 := hshift 1 ▸ Nat.mul_lt_mul_of_pos_right hhigh (Nat.two_pow_pos _)
  refine ⟨⟨false, m * 2 ^ (52 - m.log2), e - (52 - m.log2), hlt, .inr hfull, by omega⟩, rfl, ?_⟩
  show m * 2 ^ (52 - m.log2) * 2 ^ (e - (52 - m.log2)) = m * 2 ^ e
  rw [Nat.mul_assoc, ← Nat.pow_add]
  congr 2
  omega

theorem unitsOfOne_eq : unitsOfOne = 2 ^ halvings := by
  unfold unitsOfOne
  generalize halvings = n
  rfl

theorem unitsOfOne_pos : 0 < unitsOfOne := by
  rw [unitsOfOne_eq]
  exact Nat.two_pow_pos halvings

theorem units_eq_zero : x.units = 0 ↔ x.significand = 0 := by
  rw [units, Nat.pow_eq, Nat.mul_eq_zero, or_iff_left (Nat.ne_of_gt (Nat.two_pow_pos _))]

theorem below_pos : 0 < x.below := by
  have := Nat.two_pow_pos x.scale
  unfold below
  split <;> omega

/-- A decimal that is a double is read as that double. -/
theorem nearest?_of_units (power : Nat) (h : x.units = digits * 10 ^ power * unitsOfOne) :
    nearest? x.negative digits power = some x := by
  by_cases hx : x.significand = 0
  · have hdigits : digits = 0 := by
      rw [units_eq_zero.mpr hx] at h
      have hsize := (Nat.mul_eq_zero.mp h.symm).resolve_right (Nat.ne_of_gt unitsOfOne_pos)
      exact (Nat.mul_eq_zero.mp hsize).resolve_right (Nat.ne_of_gt (Nat.pow_pos (by decide)))
    rw [nearest?, if_pos (.inl hdigits), ← eq_zero_of_significand hx]
  have hmid : (interval x).mid = digits * (quarters * 10 ^ power) := by
    rw [interval_mid, quarters, Nat.mul_assoc]
    show 4 * x.units = _
    rw [h]
    ring
  have hpos : 0 < (interval x).mid := by
    rw [interval_mid]
    exact Nat.mul_pos (Nat.mul_pos (by decide) (Nat.pos_of_ne_zero hx)) (Nat.two_pow_pos _)
  have hwithin : Within ⟨digits, power⟩ (interval x) := by
    have hbelow := below_pos (x := x)
    have hstep := Nat.two_pow_pos x.scale
    apply Interval.covers_of_lt
    · rw [interval_low, Int.toNat_natCast, ← hmid, show (-(power : Int)).toNat = 0 by omega]
      omega
    · rw [interval_high, Int.toNat_natCast, ← hmid, show (-(power : Int)).toNat = 0 by omega]
      omega
  exact nearest?_eq hx hwithin

/-! ### The same fraction, the same rounding -/

theorem roundDiv_mul_right {c : Nat} (hc : 0 < c) : roundDiv (num * c) (den * c) = roundDiv num den := by
  have hlt : den * c < 2 * (num % den * c) ↔ den < 2 * (num % den) := by
    rw [← Nat.mul_assoc, Nat.mul_lt_mul_right hc]
  have heq : 2 * (num % den * c) = den * c ↔ 2 * (num % den) = den := by
    rw [← Nat.mul_assoc, Nat.mul_left_inj (Nat.ne_of_gt hc)]
  simp only [roundDiv, Nat.mul_div_mul_right _ _ hc, Nat.mul_mod_mul_right, hlt, heq]

theorem ofUnits?_mul_right {c : Nat} (hc : 0 < c) : ofUnits? negative (num * c) (den * c) = ofUnits? negative num den := by
  simp only [ofUnits?, Nat.mul_div_mul_right _ _ hc, Nat.mul_right_comm den c, roundDiv_mul_right hc]

/-- Rounding does not look at the sign. -/
theorem ofUnits?_negative :
    ofUnits? negative num den = (ofUnits? false num den).map fun x => { x with negative } := by
  have hparts (significand scale : Nat) : ofParts? negative significand scale =
      (ofParts? false significand scale).map fun x => { x with negative } := by
    unfold ofParts?
    split <;> rfl
  unfold ofUnits?
  dsimp only
  split <;> exact hparts _ _

/-! ### Exact steps -/

/-- A number with few digits is neither too large nor too small to look at. -/
theorem nearest?_of_small {power : Int} (hdigits : digits < 2 ^ 53) (hpower : power.natAbs ≤ 22) :
    nearest? negative digits power =
      ofUnits? negative (digits * 10 ^ power.toNat * unitsOfOne) (10 ^ (-power).toNat) := by
  by_cases hzero : digits = 0
  · subst hzero
    rw [nearest?, if_pos (.inl rfl)]
    simp [ofUnits?, roundDiv, ofParts?, zero]
  have hlength : (Nat.toDigits 10 digits).length ≤ 16 :=
    (Nat.length_toDigits_le_iff (by decide) (by decide)).mpr (Nat.lt_trans hdigits (by decide))
  rw [nearest?, if_neg (by omega), if_neg (by omega)]
  rfl

/-- The powers of ten up to `10 ^ 22` are doubles. -/
theorem exists_tenPower {k : Nat} (hk : k ≤ 22) :
    ∃ ten : FiniteDouble, ten.negative = false ∧ ten.units = 10 ^ k * unitsOfOne ∧ nearest? false 1 k = some ten := by
  have hfive : 5 ^ k < 2 ^ 53 := Nat.lt_of_le_of_lt (Nat.pow_le_pow_right (by decide) hk) (by decide)
  have hhalvings : halvings = 1074 := rfl
  obtain ⟨ten, hsign, hunits⟩ := exists_units (e := k + halvings) hfive (by omega) (by omega)
  have hten : ten.units = 10 ^ k * unitsOfOne := by
    rw [hunits, Nat.pow_add, ← Nat.mul_assoc, ← Nat.mul_pow, unitsOfOne_eq]
  refine ⟨ten, hsign, hten, ?_⟩
  rw [← hsign]
  exact nearest?_of_units k (by rw [hten, Nat.one_mul])

/-- Times a power of ten that is a double, a whole number that is a double is rounded once. -/
theorem timesPower?_eq_nearest? {power : Int} (hdigits : digits < 2 ^ 53) (hpower : power.natAbs ≤ 22)
    (hsign : x.negative = false) (hunits : x.units = digits * unitsOfOne) :
    x.timesPower? power = nearest? false digits power := by
  obtain ⟨ten, htensign, htenunits, hten⟩ := exists_tenPower hpower
  rw [timesPower?, hten, nearest?_of_small hdigits hpower]
  show (if 0 ≤ power then x.mul? ten else x.div? ten) = _
  split
  · next hle =>
    rw [mul?, hsign, htensign, hunits, htenunits, bne_self_eq_false, show power.natAbs = power.toNat by omega,
      show (-power).toNat = 0 by omega, Nat.pow_zero]
    have hnum : digits * unitsOfOne * (10 ^ power.toNat * unitsOfOne) =
        digits * 10 ^ power.toNat * unitsOfOne * unitsOfOne := by ring
    calc ofUnits? false (digits * unitsOfOne * (10 ^ power.toNat * unitsOfOne)) unitsOfOne
        = ofUnits? false (digits * 10 ^ power.toNat * unitsOfOne * unitsOfOne) (1 * unitsOfOne) := by
          rw [hnum, Nat.one_mul]
      _ = ofUnits? false (digits * 10 ^ power.toNat * unitsOfOne) 1 := ofUnits?_mul_right unitsOfOne_pos
  · next hlt =>
    rw [div?, hsign, htensign, hunits, htenunits, bne_self_eq_false, show power.natAbs = (-power).toNat by omega,
      show power.toNat = 0 by omega, Nat.pow_zero, Nat.mul_one]
    exact ofUnits?_mul_right unitsOfOne_pos

/-- A decimal with at most 53 bits of digits and a power of ten up to `10 ^ 22`, either way, is read as the nearest
    double. -/
theorem ofDecimal?_eq_nearest? {power : Int} (hdigits : digits < 2 ^ 53) (hpower : power.natAbs ≤ 22) :
    ofDecimal? negative digits power = nearest? negative digits power := by
  obtain ⟨x, hsign, hunits⟩ := exists_units (e := halvings) hdigits (by decide) (by decide)
  have hwhole : nearest? false digits 0 = some x := by
    rw [← hsign]
    exact nearest?_of_units 0 (by rw [hunits, Nat.pow_zero, Nat.mul_one, unitsOfOne_eq])
  have hscale : scale? power.natAbs x power = nearest? false digits power := by
    cases hfuel : power.natAbs with
    | zero => rw [scale?, Int.natAbs_eq_zero.mp hfuel, hwhole]
    | succ fuel =>
      rw [scale?, if_pos (by omega)]
      exact timesPower?_eq_nearest? hdigits hpower hsign (by rw [hunits, unitsOfOne_eq])
  rw [ofDecimal?, hwhole, nearest?_of_small hdigits hpower, ofUnits?_negative, ← nearest?_of_small hdigits hpower,
    ← hscale]
  simp only [Option.bind_eq_bind, Option.bind_some, Option.map_eq_bind]
  rfl

end DirectorySearch.FiniteDouble
