import DirectorySearch.Decimal.Shortest
import Mathlib.Tactic.Ring
import Mathlib.Tactic.Linarith

/-! A number inside the interval of a double rounds to that double. All comparisons are of whole
    numbers, by cross products: the interval is counted in quarter units, since the lower half of it
    is half as long where the scale changes. -/

namespace DirectorySearch

/-! ### Intervals -/

namespace Decimal

theorem Interval.covers_iff {i : Interval} {num den c : Nat} :
    i.covers num den c = true ↔ i.low * num ≤ c * den ∧ c * den ≤ i.high * num ∧
      (i.closed = false → i.low * num < c * den ∧ c * den < i.high * num) := by
  cases hc : i.closed with
  | true => simp [covers, hc]
  | false =>
    simp only [covers, hc, Bool.false_eq_true, if_false, Bool.and_eq_true, decide_eq_true_eq,
      forall_const]
    omega

theorem Interval.covers_of_lt {i : Interval} {num den c : Nat} (hlow : i.low * num < c * den)
    (hhigh : c * den < i.high * num) : i.covers num den c = true :=
  covers_iff.mpr ⟨Nat.le_of_lt hlow, Nat.le_of_lt hhigh, fun _ => ⟨hlow, hhigh⟩⟩

/-- Whether a number lies in an interval does not depend on the fraction that stands for it. -/
theorem Interval.covers_congr {i : Interval} {num den c num' den' c' : Nat} (hn : 0 < num)
    (hn' : 0 < num') (h : c * den * num' = c' * den' * num) :
    i.covers num den c = i.covers num' den' c' := by
  have hle (a : Nat) : a * num ≤ c * den ↔ a * num' ≤ c' * den' := by
    rw [← Nat.mul_le_mul_right_iff hn', h, Nat.mul_right_comm, Nat.mul_le_mul_right_iff hn]
  have hge (a : Nat) : c * den ≤ a * num ↔ c' * den' ≤ a * num' := by
    rw [← Nat.mul_le_mul_right_iff hn', h, Nat.mul_right_comm a, Nat.mul_le_mul_right_iff hn]
  rw [Bool.eq_iff_iff, covers_iff, covers_iff, ← not_le, ← not_le, ← not_le, ← not_le, hle, hge, hge,
    hle]

/-- The number `digits * 10 ^ power` lies in the interval. -/
def Within (d : Decimal) (i : Interval) : Prop :=
  i.covers (10 ^ (-d.power).toNat) (quarters * 10 ^ d.power.toNat) d.digits = true

/-- Zeros at the end of the digits move into the power. -/
theorem within_shift {i : Interval} {digits k : Nat} {power : Int} :
    Within ⟨digits * 10 ^ k, power - k⟩ i ↔ Within ⟨digits, power⟩ i := by
  unfold Within
  have hexponent : k + (power - k).toNat + (-power).toNat = power.toNat + (-(power - k)).toNat := by
    omega
  have hten (n : Nat) : 0 < 10 ^ n := Nat.pow_pos (by decide)
  rw [Interval.covers_congr (hten _) (hten _)]
  calc digits * 10 ^ k * (quarters * 10 ^ (power - k).toNat) * 10 ^ (-power).toNat
      = digits * quarters * 10 ^ (k + (power - k).toNat + (-power).toNat) := by ring
    _ = digits * (quarters * 10 ^ power.toNat) * 10 ^ (-(power - k)).toNat := by
      rw [hexponent]
      ring

end Decimal

namespace FiniteDouble

open Decimal

variable {x : FiniteDouble}

/-- How far the interval reaches below its double. -/
def below (x : FiniteDouble) : Nat :=
  if x.significand = 2 ^ 52 ∧ 0 < x.scale then 2 ^ x.scale else 2 * 2 ^ x.scale

theorem interval_mid : (interval x).mid = 4 * x.significand * 2 ^ x.scale := rfl

theorem interval_mid_mul {den : Nat} :
    (interval x).mid * den = 4 * (x.significand * (2 ^ x.scale * den)) := by
  rw [interval_mid]
  ring

theorem interval_low : (interval x).low = (interval x).mid - x.below := rfl

theorem interval_high : (interval x).high = (interval x).mid + 2 * 2 ^ x.scale := rfl

theorem interval_closed : (interval x).closed = false ↔ x.significand % 2 = 1 := by
  simp only [interval, decide_eq_false_iff_not]
  omega

theorem below_le : x.below ≤ 2 * 2 ^ x.scale := by
  unfold below
  split <;> omega

/-! ### Rounding a quotient -/

/-- A quotient at most one half away from `n` is rounded to `n`, but to an odd `n` only when it is
    nearer than that. -/
theorem roundDiv_eq {num den n : Nat} (hden : 0 < den) (hlow : 2 * (n * den) ≤ 2 * num + den)
    (hhigh : 2 * num ≤ 2 * (n * den) + den)
    (hodd : n % 2 = 1 → 2 * (n * den) < 2 * num + den ∧ 2 * num < 2 * (n * den) + den) :
    roundDiv num den = n := by
  have hnum := Nat.div_add_mod num den
  have hmod := Nat.mod_lt num hden
  unfold roundDiv
  generalize num / den = q at *
  generalize num % den = r at *
  have hq : q ≤ n := by
    by_contra h
    have := Nat.mul_le_mul_left den (show n + 1 ≤ q by omega)
    rw [Nat.mul_succ, Nat.mul_comm den n] at this
    omega
  have hn : n ≤ q + 1 := by
    by_contra h
    have := Nat.mul_le_mul_right den (show q + 2 ≤ n by omega)
    rw [Nat.add_mul, Nat.mul_comm q den] at this
    omega
  obtain rfl | rfl : q = n ∨ n = q + 1 := by omega
  · rw [Nat.mul_comm q den] at hlow hhigh hodd
    rw [if_neg (by omega)]
  · rw [Nat.add_mul, Nat.mul_comm q den] at hlow hhigh hodd
    rw [if_pos (by omega)]

/-- The scale for a quotient with its first bit at the place `52 + scale`, or below for the least
    scale. -/
theorem log2_div_sub {num den scale : Nat} (hden : 0 < den) (hhigh : num < 2 ^ (53 + scale) * den)
    (hlow : scale = 0 ∨ 2 ^ (52 + scale) * den ≤ num) : (num / den).log2 - 52 = scale := by
  have hlt : num / den < 2 ^ (53 + scale) := (Nat.div_lt_iff_lt_mul hden).mpr hhigh
  rcases hlow with rfl | hlow
  · by_cases hzero : num / den = 0
    · rw [hzero]
      rfl
    · have := (Nat.log2_lt hzero).mpr hlt
      omega
  · have hle : 2 ^ (52 + scale) ≤ num / den := (Nat.le_div_iff_mul_le hden).mpr hlow
    have hne : num / den ≠ 0 := by
      have := Nat.two_pow_pos (52 + scale)
      omega
    rw [(Nat.log2_eq_iff hne).mpr ⟨hle, by rwa [show 52 + scale + 1 = 53 + scale by omega]⟩]
    omega

theorem ofParts?_parts (x : FiniteDouble) :
    ofParts? x.negative x.significand x.scale = some x := by
  rw [ofParts?, dif_pos ⟨x.significand_lt, x.full_of_scaled, x.scale_le⟩]

/-- Rounding at the scale of `x`. -/
theorem ofUnits?_of_scale {num den : Nat} (hscale : (num / den).log2 - 52 = x.scale)
    (hround : roundDiv num (den * 2 ^ x.scale) = x.significand) :
    ofUnits? x.negative num den = some x := by
  simp only [ofUnits?, hscale, Nat.pow_eq, hround]
  rw [if_pos x.significand_lt, ofParts?_parts]

/-- Rounding at the scale below that of `x`, up to the first number of its scale. -/
theorem ofUnits?_of_carry {num den : Nat} (hscale : (num / den).log2 - 52 + 1 = x.scale)
    (hfirst : x.significand = 2 ^ 52)
    (hround : roundDiv num (den * 2 ^ ((num / den).log2 - 52)) = 2 ^ 53) :
    ofUnits? x.negative num den = some x := by
  simp only [ofUnits?, Nat.pow_eq, hround, lt_self_iff_false, if_false, hscale]
  rw [← hfirst, ofParts?_parts]

section Units

variable {num den : Nat}

/-- The interval of `x` around its significand, with the unit of its scale as step. -/
theorem covers_units (h : (interval x).covers den 4 num = true) :
    4 * (x.significand * (2 ^ x.scale * den)) - x.below * den ≤ num * 4 ∧
      num * 4 ≤ 4 * (x.significand * (2 ^ x.scale * den)) + 2 * (2 ^ x.scale * den) ∧
      (x.significand % 2 = 1 →
        4 * (x.significand * (2 ^ x.scale * den)) - x.below * den < num * 4 ∧
          num * 4 < 4 * (x.significand * (2 ^ x.scale * den)) + 2 * (2 ^ x.scale * den)) := by
  obtain ⟨hlow, hhigh, hstrict⟩ := Interval.covers_iff.mp h
  rw [interval_closed] at hstrict
  rw [interval_low, Nat.sub_mul, interval_mid_mul] at hlow hstrict
  rw [interval_high, Nat.add_mul, interval_mid_mul, Nat.mul_assoc] at hhigh hstrict
  exact ⟨hlow, hhigh, hstrict⟩

theorem below_mul_le : x.below * den ≤ 2 * (2 ^ x.scale * den) := by
  rw [← Nat.mul_assoc]
  exact Nat.mul_le_mul_right den below_le

theorem ofUnits?_eq_of_full (hden : 0 < den) (h : (interval x).covers den 4 num = true)
    (hfull : x.scale = 0 ∨ 2 ^ 52 * (2 ^ x.scale * den) ≤ num) : ofUnits? x.negative num den = some x := by
  obtain ⟨hlow, hhigh, hstrict⟩ := covers_units h
  have hbelow : x.below * den ≤ 2 * (2 ^ x.scale * den) := below_mul_le
  have hpos : 0 < 2 ^ x.scale * den := Nat.mul_pos (Nat.two_pow_pos _) hden
  have hmax := Nat.mul_le_mul_right (2 ^ x.scale * den) (show x.significand + 1 ≤ 2 ^ 53 from x.significand_lt)
  rw [Nat.succ_mul] at hmax
  apply ofUnits?_of_scale
  · apply log2_div_sub hden
    · rw [Nat.pow_add, Nat.mul_assoc]
      omega
    · rwa [Nat.pow_add, Nat.mul_assoc]
  · rw [Nat.mul_comm den]
    apply roundDiv_eq hpos <;> omega

/-- Below the first number of a scale, only that number itself is near. -/
theorem significand_eq_of_lt (hden : 0 < den) (h : (interval x).covers den 4 num = true)
    (hscale : x.scale ≠ 0) (hlt : num < 2 ^ 52 * (2 ^ x.scale * den)) : x.significand = 2 ^ 52 := by
  obtain ⟨hlow, -, -⟩ := covers_units h
  have hbelow : x.below * den ≤ 2 * (2 ^ x.scale * den) := below_mul_le
  have hpos : 0 < 2 ^ x.scale * den := Nat.mul_pos (Nat.two_pow_pos _) hden
  have hmin := x.full_of_scaled.resolve_left hscale
  rw [Nat.pow_eq] at hmin
  by_contra hne
  have := Nat.mul_le_mul_right (2 ^ x.scale * den) (show 2 ^ 52 + 1 ≤ x.significand by omega)
  rw [Nat.succ_mul] at this
  omega

theorem ofUnits?_eq_of_lt (hden : 0 < den) (h : (interval x).covers den 4 num = true)
    (hscale : x.scale ≠ 0) (hlt : num < 2 ^ 52 * (2 ^ x.scale * den)) :
    ofUnits? x.negative num den = some x := by
  obtain ⟨hlow, -, -⟩ := covers_units h
  have hfirst := significand_eq_of_lt hden h hscale hlt
  -- The step is half as long there, and so is the lower half of the interval.
  obtain ⟨s, hs⟩ := Nat.exists_eq_succ_of_ne_zero hscale
  have hstep : 2 ^ x.scale * den = 2 * (2 ^ s * den) := by
    rw [hs, Nat.pow_succ]
    ring
  have hbelow : x.below * den = 2 * (2 ^ s * den) := by
    rw [below, if_pos ⟨hfirst, by omega⟩, hstep]
  have hpos : 0 < 2 ^ s * den := Nat.mul_pos (Nat.two_pow_pos _) hden
  rw [hfirst, hbelow, hstep] at hlow
  rw [hstep] at hlt
  have hlog : (num / den).log2 - 52 = s := by
    apply log2_div_sub hden
    · rw [Nat.pow_add, Nat.mul_assoc]
      omega
    · rw [Nat.pow_add, Nat.mul_assoc]
      omega
  apply ofUnits?_of_carry (by omega) hfirst
  rw [hlog, Nat.mul_comm den]
  apply roundDiv_eq hpos <;> omega

/-- What lies in the interval of `x`, in units, rounds to `x`. -/
theorem ofUnits?_eq (hden : 0 < den) (h : (interval x).covers den 4 num = true) :
    ofUnits? x.negative num den = some x := by
  by_cases hfull : x.scale = 0 ∨ 2 ^ 52 * (2 ^ x.scale * den) ≤ num
  · exact ofUnits?_eq_of_full hden h hfull
  · obtain ⟨hscale, hlt⟩ := not_or.mp hfull
    exact ofUnits?_eq_of_lt hden h hscale (Nat.lt_of_not_le hlt)

end Units

/-! ### Rounding a decimal -/

theorem toDigits_length_bounds {n : Nat} (hn : n ≠ 0) :
    10 ^ ((Nat.toDigits 10 n).length - 1) ≤ n ∧ n < 10 ^ (Nat.toDigits 10 n).length := by
  have hpos : 0 < (Nat.toDigits 10 n).length := Nat.length_toDigits_pos
  refine ⟨?_, (Nat.length_toDigits_le_iff (by decide) hpos).mp (Nat.le_refl _)⟩
  by_cases hone : (Nat.toDigits 10 n).length = 1
  · rw [hone]
    omega
  · have h := Nat.length_toDigits_le_iff (b := 10) (n := n)
      (k := (Nat.toDigits 10 n).length - 1) (by decide) (by omega)
    omega

theorem quarters_le : quarters ≤ 10 ^ 331 := by decide +kernel

theorem interval_low_pos (h : x.significand ≠ 0) : 0 < (interval x).low := by
  have hbelow := below_le (x := x)
  have hpos := Nat.two_pow_pos x.scale
  have hmul := Nat.mul_le_mul_right (2 ^ x.scale) (Nat.one_le_iff_ne_zero.mpr h)
  rw [interval_low, interval_mid, Nat.mul_assoc]
  omega

/-- The largest end of an interval, in quarter units, is below `10 ^ 309`. -/
theorem interval_high_lt : (interval x).high < quarters * 10 ^ 309 := by
  have hsignificand : 4 * x.significand + 2 ≤ 2 ^ 55 := by
    have := x.significand_lt
    rw [Nat.pow_eq] at this
    omega
  calc (interval x).high = (4 * x.significand + 2) * 2 ^ x.scale := by
        rw [interval_high, interval_mid, Nat.add_mul]
    _ ≤ 2 ^ 55 * 2 ^ 2045 :=
        Nat.mul_le_mul hsignificand (Nat.pow_le_pow_right (by decide) x.scale_le)
    _ < quarters * 10 ^ 309 := by decide +kernel

/-- The digits of a decimal before the point, counted from its first digit that is not zero; a
    negative count is one of zeros after the point. -/
theorem places_bounds {d : Decimal} (hx : x.significand ≠ 0) (h : d.Within (interval x)) :
    d.digits ≠ 0 ∧ -330 ≤ (Nat.toDigits 10 d.digits).length + d.power ∧
      (Nat.toDigits 10 d.digits).length + d.power ≤ 310 := by
  obtain ⟨hlow, hhigh, -⟩ := Interval.covers_iff.mp h
  have hpos := interval_low_pos hx
  have hten (n : Nat) : 0 < 10 ^ n := Nat.pow_pos (by decide)
  have hdigits : d.digits ≠ 0 := by
    intro hzero
    rw [hzero, Nat.zero_mul] at hlow
    have := Nat.mul_pos hpos (hten (-d.power).toNat)
    omega
  obtain ⟨hge, hlt⟩ := toDigits_length_bounds hdigits
  have hlen : 0 < (Nat.toDigits 10 d.digits).length := Nat.length_toDigits_pos
  generalize (Nat.toDigits 10 d.digits).length = len at *
  refine ⟨hdigits, ?_, ?_⟩
  · have hsmall : 10 ^ (-d.power).toNat < 10 ^ (len + 331 + d.power.toNat) :=
      calc 10 ^ (-d.power).toNat ≤ (interval x).low * 10 ^ (-d.power).toNat :=
            Nat.le_mul_of_pos_left _ hpos
        _ ≤ d.digits * (quarters * 10 ^ d.power.toNat) := hlow
        _ < 10 ^ len * (10 ^ 331 * 10 ^ d.power.toNat) :=
            Nat.mul_lt_mul_of_lt_of_le hlt (Nat.mul_le_mul_right _ quarters_le)
              (Nat.mul_pos (hten _) (hten _))
        _ = 10 ^ (len + 331 + d.power.toNat) := by rw [Nat.pow_add, Nat.pow_add, Nat.mul_assoc]
    have := (Nat.pow_lt_pow_iff_right (by decide)).mp hsmall
    omega
  · have hlarge : quarters * 10 ^ (len - 1 + d.power.toNat) < quarters * 10 ^ (309 + (-d.power).toNat) :=
      calc quarters * 10 ^ (len - 1 + d.power.toNat)
          = 10 ^ (len - 1) * (quarters * 10 ^ d.power.toNat) := by ring
        _ ≤ d.digits * (quarters * 10 ^ d.power.toNat) := Nat.mul_le_mul_right _ hge
        _ ≤ (interval x).high * 10 ^ (-d.power).toNat := hhigh
        _ < quarters * 10 ^ 309 * 10 ^ (-d.power).toNat :=
            Nat.mul_lt_mul_of_pos_right interval_high_lt (hten _)
        _ = quarters * 10 ^ (309 + (-d.power).toNat) := by rw [Nat.pow_add, Nat.mul_assoc]
    have := (Nat.pow_lt_pow_iff_right (by decide)).mp (Nat.lt_of_mul_lt_mul_left hlarge)
    omega

/-- A decimal inside the interval of a double reads as that double. -/
theorem nearest?_eq {d : Decimal} (hx : x.significand ≠ 0) (h : d.Within (interval x)) :
    nearest? x.negative d.digits d.power = some x := by
  obtain ⟨hdigits, hleast, hmost⟩ := places_bounds hx h
  simp only [nearest?]
  rw [if_neg (by omega), if_neg (by omega)]
  apply ofUnits?_eq (Nat.pow_pos (by decide))
  rw [← h]
  apply Interval.covers_congr (Nat.pow_pos (by decide)) (Nat.pow_pos (by decide))
  rw [quarters]
  simp only [Nat.pow_eq]
  ring

theorem eq_zero_of_significand (h : x.significand = 0) : x = zero x.negative := by
  have hscale := x.full_of_scaled
  rw [h] at hscale
  obtain ⟨negative, significand, scale, _, _, _⟩ := x
  simp_all [zero]

end FiniteDouble

end DirectorySearch
