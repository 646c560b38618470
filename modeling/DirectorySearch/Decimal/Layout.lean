import DirectorySearch.Decimal.Shortest

/-!
How a double is laid out as text. A layout chooses between positions and an exponent by the
exponent of the first digit, and fixes the few spellings in which one notation differs from another.
-/

namespace DirectorySearch

structure NumberLayout where
  /-- Which of two equally short and equally near decimals is written. -/
  tie : Tie
  /-- The exponents of the first digit that are written by position, from the first on and below
      the second; without bounds, all are. -/
  positional : Option (Int × Int)
  /-- Whether a whole number written by position ends in `.0`. -/
  keepsPoint : Bool
  /-- Whether a positive exponent has a sign. -/
  signsExponent : Bool

namespace NumberLayout

def digitsOf (n : Nat) : List Char :=
  Nat.toDigits 10 n

def intChars (n : Int) : List Char :=
  match n with
  | .ofNat n => digitsOf n
  | .negSucc n => '-' :: digitsOf (n + 1)

def zeros (count : Nat) : List Char :=
  List.replicate count '0'

/-- Digits with the point after the position of `10 ^ 0`, the first digit standing at `lead`. -/
def byPosition (keepsPoint : Bool) (digits : List Char) (lead : Int) : List Char :=
  if lead < 0 then
    '0' :: '.' :: zeros (-lead - 1).toNat ++ digits
  else
    let whole := lead.toNat + 1
    if digits.length ≤ whole then
      digits ++ zeros (whole - digits.length) ++ (if keepsPoint then ['.', '0'] else [])
    else
      digits.take whole ++ '.' :: digits.drop whole

/-- One digit, the others after a point, and the exponent. -/
def byExponent (signsExponent : Bool) (digits : List Char) (lead : Int) : List Char :=
  let fraction := if digits.length ≤ 1 then [] else '.' :: digits.drop 1
  let sign := if signsExponent && 0 ≤ lead then ['+'] else []
  digits.take 1 ++ fraction ++ 'e' :: sign ++ intChars lead

def finite (layout : NumberLayout) (x : FiniteDouble) : List Char :=
  let d := Decimal.shortest layout.tie x
  let digits := digitsOf d.digits
  let lead := digits.length - 1 + d.power
  let positional := match layout.positional with
    | none => true
    | some (low, high) => x.significand = 0 || (low ≤ lead && lead < high)
  let size :=
    if positional then byPosition layout.keepsPoint digits lead
    else byExponent layout.signsExponent digits lead
  if x.negative then '-' :: size else size

/-- A double as text. -/
def chars (layout : NumberLayout) : Double → List Char
  | .finite x => layout.finite x
  | .infinite false => ['i', 'n', 'f']
  | .infinite true => ['-', 'i', 'n', 'f']
  | .nan => ['N', 'a', 'N']

end NumberLayout

end DirectorySearch
