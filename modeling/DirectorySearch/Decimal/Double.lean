/-!
Double-precision numbers, exactly.

A finite double is a whole number of steps of `2 ^ scale` units, where a unit is `2 ^ -1074`, the
smallest positive double. Each number has one such form: the significand has fewer than 54 bits, and
it has 53 of them unless the scale is the smallest. Rounding a decimal to the nearest double is then
a division of natural numbers, and so is rounding a product or a quotient of doubles.
-/

namespace DirectorySearch

/-- The double `± significand * 2 ^ (scale - 1074)`. -/
structure FiniteDouble where
  negative : Bool
  significand : Nat
  scale : Nat
  significand_lt : significand < Nat.pow 2 53
  full_of_scaled : scale = 0 ∨ Nat.pow 2 52 ≤ significand
  scale_le : scale ≤ 2045
deriving Repr, DecidableEq

inductive Double where
  | finite (x : FiniteDouble)
  | infinite (negative : Bool)
  | nan
deriving Repr, DecidableEq

namespace FiniteDouble

def zero (negative : Bool) : FiniteDouble where
  negative
  significand := 0
  scale := 0
  significand_lt := by decide
  full_of_scaled := .inl rfl
  scale_le := by decide

/-- The double with these parts, when there is one. -/
def ofParts? (negative : Bool) (significand scale : Nat) : Option FiniteDouble :=
  if h : significand < Nat.pow 2 53 ∧ (scale = 0 ∨ Nat.pow 2 52 ≤ significand) ∧ scale ≤ 2045 then
    some ⟨negative, significand, scale, h.1, h.2.1, h.2.2⟩
  else none

/-- How often one is halved to make a unit. -/
def halvings : Nat := 1074

/-- How many units make one. -/
def unitsOfOne : Nat := Nat.pow 2 halvings

/-- The whole number nearest to a quotient; of two equally near ones, the even one. -/
def roundDiv (num den : Nat) : Nat :=
  let q := num / den
  let r := num % den
  if den < 2 * r ∨ (2 * r = den ∧ q % 2 = 1) then q + 1 else q

/-- The double nearest to `num / den` units, unless that is past the largest. -/
def ofUnits? (negative : Bool) (num den : Nat) : Option FiniteDouble :=
  let scale := (num / den).log2 - 52
  let q := roundDiv num (den * Nat.pow 2 scale)
  if q < Nat.pow 2 53 then ofParts? negative q scale else ofParts? negative (Nat.pow 2 52) (scale + 1)

/-- The double nearest to `± digits * 10 ^ power`, unless that is past the largest. Numbers far
    outside the range of doubles are told by their number of digits alone. -/
def nearest? (negative : Bool) (digits : Nat) (power : Int) : Option FiniteDouble :=
  let places : Int := (Nat.toDigits 10 digits).length + power
  if digits = 0 ∨ places < -330 then some (zero negative)
  else if 310 < places then none
  else ofUnits? negative (digits * Nat.pow 10 power.toNat * unitsOfOne) (Nat.pow 10 (-power).toNat)

/-! ### Scaling by powers of ten -/

/-- The size of a double, in units. -/
def units (x : FiniteDouble) : Nat :=
  x.significand * Nat.pow 2 x.scale

/-- The double nearest to a product, unless that is past the largest. -/
def mul? (x y : FiniteDouble) : Option FiniteDouble :=
  ofUnits? (x.negative != y.negative) (x.units * y.units) unitsOfOne

/-- The double nearest to a quotient, unless that is past the largest. The divisor is not zero. -/
def div? (x y : FiniteDouble) : Option FiniteDouble :=
  ofUnits? (x.negative != y.negative) (x.units * unitsOfOne) y.units

/-- The product with the double of a power of ten, or the quotient where the power is negative. -/
def timesPower? (x : FiniteDouble) (power : Int) : Option FiniteDouble := do
  let ten ← nearest? false 1 power.natAbs
  if 0 ≤ power then x.mul? ten else x.div? ten

/-- A double times a power of ten, of which there are doubles up to `10 ^ 308`. For a quotient past
    that, `10 ^ 308` is divided out first, as long as anything is left. Each round takes from the
    power, so its size is fuel enough. -/
def scale? : Nat → FiniteDouble → Int → Option FiniteDouble
  | 0, x, _ => some x
  | fuel + 1, x, power =>
    if power.natAbs ≤ 308 then x.timesPower? power
    else if x.significand = 0 then some x
    else if 0 < power then none
    else do scale? fuel (← x.timesPower? (-308)) (power + 308)

/-- The double that `± digits * 10 ^ power` is read as. It is rounded twice, first as a whole number
    and then with the power, so it need not be the nearest one. -/
def ofDecimal? (negative : Bool) (digits : Nat) (power : Int) : Option FiniteDouble := do
  let x ← nearest? false digits 0
  let y ← scale? power.natAbs x power
  return { y with negative }

end FiniteDouble

end DirectorySearch
