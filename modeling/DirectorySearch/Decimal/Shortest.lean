import DirectorySearch.Decimal.Double

/-!
The shortest decimal that reads back as a given double.

Around a double lies the interval of numbers that round to it. For one digit, then two, and so on,
the two numbers with that many digits next to the double are tested; the first number of digits with
one of them in the interval wins, and of two the nearer one.
-/

namespace DirectorySearch

/-- Which of two equally near decimals is taken. -/
inductive Tie where
  | up
  | even
deriving Repr, DecidableEq

/-- The number `digits * 10 ^ power`. -/
structure Decimal where
  digits : Nat
  power : Int
deriving Repr, DecidableEq

namespace Decimal

/-- The same number without zeros at the end, up to a given count. -/
def trim : Nat → Decimal → Decimal
  | fuel + 1, ⟨digits, power⟩ =>
    if digits ≠ 0 ∧ digits % 10 = 0 then trim fuel ⟨digits / 10, power + 1⟩ else ⟨digits, power⟩
  | 0, d => d

/-- The exponent of the first digit of `num / den`. -/
def leading (num den : Nat) : Int :=
  if den ≤ num then (Nat.toDigits 10 (num / den)).length - 1
  else
    let length := (Nat.toDigits 10 (den / num)).length
    if den ≤ num * Nat.pow 10 (length - 1) then 1 - (length : Int) else -(length : Int)

/-- The numbers that round to a double, in quarter units: its own place, and both ends, which
    belong to it when its significand is even. -/
structure Interval where
  low : Nat
  mid : Nat
  high : Nat
  closed : Bool

def interval (x : FiniteDouble) : Interval :=
  let step := Nat.pow 2 x.scale
  let below := if x.significand = Nat.pow 2 52 ∧ 0 < x.scale then step else 2 * step
  let mid := 4 * x.significand * step
  ⟨mid - below, mid, mid + 2 * step, x.significand % 2 = 0⟩

/-- Quarter units in one. -/
def quarters : Nat := 4 * FiniteDouble.unitsOfOne

/-- Whether `c * den / num` lies in the interval. -/
def Interval.covers (i : Interval) (num den c : Nat) : Bool :=
  if i.closed then i.low * num ≤ c * den && c * den ≤ i.high * num
  else i.low * num < c * den && c * den < i.high * num

/-- The nearest multiple of `10 ^ power` in the interval, if one is there. -/
def onGrid? (tie : Tie) (i : Interval) (power : Int) : Option Decimal :=
  let num := Nat.pow 10 (-power).toNat
  let den := quarters * Nat.pow 10 power.toNat
  let c := i.mid * num / den
  let down := i.mid * num - c * den
  let up := (c + 1) * den - i.mid * num
  let roundUp := up < down || (up == down && (tie == .up || c % 2 == 1))
  match i.covers num den c, i.covers num den (c + 1) with
  | true, true => some ⟨if roundUp then c + 1 else c, power⟩
  | true, false => some ⟨c, power⟩
  | false, true => some ⟨c + 1, power⟩
  | false, false => none

/-- Tries `count`, `count + 1` and so on digits, `fuel` times. -/
def search (tie : Tie) (i : Interval) (lead : Int) : Nat → Nat → Option Decimal
  | fuel + 1, count =>
    match onGrid? tie i (lead + 1 - count) with
    | some d => some d
    | none => search tie i lead fuel (count + 1)
  | 0, _ => none

/-- The shortest decimal that rounds to the size of a double; seventeen digits are always enough. -/
def shortest (tie : Tie) (x : FiniteDouble) : Decimal :=
  if x.significand = 0 then ⟨0, 0⟩
  else
    let i := interval x
    ((search tie i (leading i.mid quarters) 17 1).map (trim 17)).getD ⟨0, 0⟩

end Decimal

end DirectorySearch
