import DirectorySearch.Proofs.Rounding

/-! The shortest decimal of a double reads back as that double. Seventeen digits are always enough:
    the steps between numbers with so many digits are shorter than any interval, so one of the two
    next to the double lies inside. -/

namespace DirectorySearch.Decimal

open FiniteDouble

variable {tie : Tie} {i : Interval} {d : Decimal} {x : FiniteDouble}

/-! ### What a search finds -/

theorem within_of_onGrid? {power : Int} (h : onGrid? tie i power = some d) : d.Within i := by
  simp only [onGrid?, Nat.pow_eq] at h
  unfold Within
  generalize quarters = quarters at *
  split at h
  · next hdown hup =>
    cases h
    dsimp only
    split
    · exact hup
    · exact hdown
  · next hdown _ =>
    cases h
    exact hdown
  · next hup =>
    cases h
    exact hup
  · cases h

theorem within_of_search {lead : Int} {fuel count : Nat} (h : search tie i lead fuel count = some d) :
    d.Within i := by
  induction fuel generalizing count with
  | zero => cases h
  | succ fuel ih =>
    unfold search at h
    split at h
    · next hgrid =>
      cases h
      exact within_of_onGrid? hgrid
    · exact ih h

theorem within_trim (fuel : Nat) (d : Decimal) : (trim fuel d).Within i ↔ d.Within i := by
  fun_induction trim fuel d with
  | case1 fuel digits power h ih =>
    rw [ih, ← within_shift (k := 1), Nat.pow_one, Nat.div_mul_cancel (Nat.dvd_of_mod_eq_zero h.2)]
    simp
  | case2 => rfl
  | case3 => rfl

/-! ### Seventeen digits -/

/-- Of two neighbours on a grid finer than the interval, one on each side of its middle, one is
    inside. -/
theorem onGrid?_isSome {power : Int} (hlow : i.low ≤ i.mid) (hhigh : i.mid < i.high)
    (h : quarters * 10 ^ power.toNat < (i.high - i.low) * 10 ^ (-power).toNat) :
    (onGrid? tie i power).isSome := by
  have hden : 0 < quarters * 10 ^ power.toNat :=
    Nat.mul_pos (by decide +kernel) (Nat.pow_pos (by decide))
  have hlow := Nat.mul_le_mul_right (10 ^ (-power).toNat) hlow
  have hhigh := Nat.mul_lt_mul_of_pos_right hhigh (Nat.pow_pos (n := (-power).toNat) (by decide : 0 < 10))
  have hfloor := Nat.div_mul_le_self (i.mid * 10 ^ (-power).toNat) (quarters * 10 ^ power.toNat)
  have hceil := Nat.lt_div_mul_add (a := i.mid * 10 ^ (-power).toNat) hden
  rw [Nat.sub_mul] at h
  simp only [onGrid?, Nat.pow_eq]
  split
  · rfl
  · rfl
  · rfl
  · next hdown hup =>
    -- Then the lower neighbour is no more than the low end and the upper one no less than the high end.
    have hdown' := mt (Interval.covers_of_lt · (by omega)) (Bool.not_eq_true _ ▸ hdown)
    have hup' := mt (Interval.covers_of_lt (by rw [Nat.succ_mul]; omega)) (Bool.not_eq_true _ ▸ hup)
    rw [Nat.succ_mul] at hup'
    omega

/-- The first digit of `num / den` stands no higher than the number reaches. -/
theorem le_leading {num : Nat} (den : Nat) (hnum : 0 < num) :
    den * 10 ^ (leading num den).toNat ≤ num * 10 ^ (-leading num den).toNat := by
  unfold leading
  split
  · next hle =>
    rcases Nat.eq_zero_or_pos den with rfl | hden
    · simp
    have hne : num / den ≠ 0 := Nat.div_ne_zero_iff.mpr ⟨by omega, hle⟩
    have hpos : 0 < (Nat.toDigits 10 (num / den)).length := Nat.length_toDigits_pos
    have hten := (toDigits_length_bounds hne).1
    generalize (Nat.toDigits 10 (num / den)).length = len at *
    rw [show ((len : Int) - 1).toNat = len - 1 by omega, show (-((len : Int) - 1)).toNat = 0 by omega,
      Nat.pow_zero, Nat.mul_one, Nat.mul_comm]
    exact (Nat.le_div_iff_mul_le hden).mp hten
  · next hlt =>
    have hne : den / num ≠ 0 := Nat.div_ne_zero_iff.mpr ⟨by omega, by omega⟩
    have hpos : 0 < (Nat.toDigits 10 (den / num)).length := Nat.length_toDigits_pos
    have hten := (toDigits_length_bounds hne).2
    simp only [Nat.pow_eq]
    generalize (Nat.toDigits 10 (den / num)).length = len at *
    split
    · next hle =>
      rw [show (1 - (len : Int)).toNat = 0 by omega, show (-(1 - (len : Int))).toNat = len - 1 by omega]
      simpa using hle
    · rw [show (-(len : Int)).toNat = 0 by omega, show (- -(len : Int)).toNat = len by omega]
      have := (Nat.div_lt_iff_lt_mul hnum).mp hten
      rw [Nat.mul_comm] at this
      omega

theorem mid_lt_width (hx : x.significand ≠ 0) :
    (interval x).mid < 10 ^ 16 * ((interval x).high - (interval x).low) := by
  have hlt := x.significand_lt
  have hpos := Nat.two_pow_pos x.scale
  have hbelow := below_le (x := x)
  have hmul := Nat.mul_le_mul_right (2 ^ x.scale) (Nat.one_le_iff_ne_zero.mpr hx)
  rw [interval_high, interval_low, interval_mid, Nat.mul_assoc]
  rw [Nat.pow_eq] at hlt
  by_cases hfirst : x.significand = 2 ^ 52 ∧ 0 < x.scale
  · rw [below, if_pos hfirst, hfirst.1]
    omega
  · have hmax := Nat.mul_lt_mul_of_pos_right hlt hpos
    rw [below, if_neg hfirst]
    omega

theorem onGrid?_seventeen (hx : x.significand ≠ 0) :
    (onGrid? tie (interval x) (leading (interval x).mid quarters + 1 - 17)).isSome := by
  have hpos := Nat.two_pow_pos x.scale
  apply onGrid?_isSome (by rw [interval_low]; omega) (by rw [interval_high]; omega)
  have hmid : 0 < (interval x).mid := by
    have := interval_low_pos hx
    rw [interval_low] at this
    omega
  have hlead := le_leading quarters hmid
  have hwidth := mid_lt_width hx
  have hten (n : Nat) : 0 < 10 ^ n := Nat.pow_pos (by decide)
  generalize leading (interval x).mid quarters = lead at *
  generalize (interval x).high - (interval x).low = width at *
  generalize hpower : lead + 1 - 17 = power
  have hexponent : 16 + (-lead).toNat + power.toNat = lead.toNat + (-power).toNat := by omega
  -- Both sides are brought to the exponent of the first digit, where `hlead` compares them.
  apply Nat.lt_of_mul_lt_mul_left (a := 10 ^ (16 + (-lead).toNat))
  calc 10 ^ (16 + (-lead).toNat) * (quarters * 10 ^ power.toNat)
      = quarters * 10 ^ (16 + (-lead).toNat + power.toNat) := by ring
    _ = quarters * 10 ^ lead.toNat * 10 ^ (-power).toNat := by
      rw [hexponent]
      ring
    _ ≤ (interval x).mid * 10 ^ (-lead).toNat * 10 ^ (-power).toNat := Nat.mul_le_mul_right _ hlead
    _ < 10 ^ 16 * width * 10 ^ (-lead).toNat * 10 ^ (-power).toNat := by
      rw [Nat.mul_assoc, Nat.mul_assoc (10 ^ 16 * width)]
      exact Nat.mul_lt_mul_of_pos_right hwidth (Nat.mul_pos (hten _) (hten _))
    _ = 10 ^ (16 + (-lead).toNat) * (width * 10 ^ (-power).toNat) := by ring

theorem search_isSome {lead : Int} {fuel count : Nat} (k : Nat) (hk : k < fuel)
    (h : (onGrid? tie i (lead + 1 - (count + k : Nat))).isSome) : (search tie i lead fuel count).isSome := by
  induction fuel generalizing count k with
  | zero => omega
  | succ fuel ih =>
    unfold search
    split
    · rfl
    · next hnone =>
      cases k with
      | zero =>
        rw [Nat.add_zero, hnone] at h
        cases h
      | succ k =>
        apply ih k (Nat.lt_of_succ_lt_succ hk)
        rwa [Nat.add_right_comm]

/-! ### The shortest decimal -/

theorem within_shortest (hx : x.significand ≠ 0) : (shortest tie x).Within (interval x) := by
  have hsome : (search tie (interval x) (leading (interval x).mid quarters) 17 1).isSome :=
    search_isSome 16 (by decide) (onGrid?_seventeen hx)
  obtain ⟨d, hd⟩ := Option.isSome_iff_exists.mp hsome
  simp only [shortest, if_neg hx, hd, Option.map_some, Option.getD_some]
  exact (within_trim 17 d).mpr (within_of_search hd)

theorem power_shortest_of_digits (tie : Tie) (x : FiniteDouble) (h : (shortest tie x).digits = 0) :
    (shortest tie x).power = 0 := by
  by_cases hx : x.significand = 0
  · rw [shortest, if_pos hx]
  · exact absurd h (places_bounds hx (within_shortest hx)).1

/-- Reading the shortest decimal, with its zeros at the end moved or not, gives the double back. -/
theorem nearest?_shortest (k : Nat) :
    nearest? x.negative ((shortest tie x).digits * 10 ^ k) ((shortest tie x).power - k) = some x := by
  by_cases hx : x.significand = 0
  · simp only [shortest, if_pos hx, nearest?, Nat.zero_mul, true_or, if_true]
    rw [← eq_zero_of_significand hx]
  · exact nearest?_eq hx (within_shift.mpr (within_shortest hx))

end DirectorySearch.Decimal
