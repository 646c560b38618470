/-!
UTF-8: the octets of a text, and the text that octets spell.

Characters take one to four octets. The first octet of a character tells how many there are, every
later one lies between `0x80` and `0xBF`, and of the spellings that would give the same number only
the shortest is allowed.
-/

namespace DirectorySearch.Utf8

/-- The character with a code, unless the code is a surrogate or too large. -/
def scalar? (code : Nat) : Option Char :=
  if h : code.isValidChar then some (Char.ofNatAux code h) else none

def encodeChar (c : Char) : List UInt8 :=
  let n := c.toNat
  if n < 0x80 then [.ofNat n]
  else if n < 0x800 then [.ofNat (0xC0 + n / 64), .ofNat (0x80 + n % 64)]
  else if n < 0x10000 then
    [.ofNat (0xE0 + n / 4096), .ofNat (0x80 + n / 64 % 64), .ofNat (0x80 + n % 64)]
  else
    [.ofNat (0xF0 + n / 262144), .ofNat (0x80 + n / 4096 % 64), .ofNat (0x80 + n / 64 % 64),
      .ofNat (0x80 + n % 64)]

def encode (s : List Char) : List UInt8 :=
  s.flatMap encodeChar

/-- How many octets a text takes. -/
def size (s : List Char) : Nat :=
  (encode s).length

/-- A text up to a number of octets, and the text behind it, unless that goes through a character. -/
def splitAt? : List Char → Nat → Option (List Char × List Char)
  | s, 0 => some ([], s)
  | [], _ + 1 => none
  | c :: r, n + 1 =>
    let k := (encodeChar c).length
    if k ≤ n + 1 then do
      let (before, after) ← splitAt? r (n + 1 - k)
      return (c :: before, after)
    else none

/-- The text between two places that are counted in octets. -/
def slice? (s : List Char) (start stop : Nat) : Option (List Char) := do
  let (_, r) ← splitAt? s start
  let (part, _) ← splitAt? r (stop - start)
  return part

/-- The six bits that an octet adds to a character that has begun. -/
def continuation? (b : UInt8) : Option Nat :=
  if 0x80 ≤ b.toNat ∧ b.toNat < 0xC0 then some (b.toNat - 0x80) else none

/-- Whether a character may begin with these octets, or the text end with none. -/
def isBoundary : List UInt8 → Bool
  | [] => true
  | b :: _ => (continuation? b).isNone

/-- A code that its spelling was not too long for. -/
def atLeast (low code : Nat) : Option Char :=
  if low ≤ code then scalar? code else none

/-- Refuses stray and missing continuations, spellings that are too long, surrogates and codes past
    the last character. -/
def decode? : List UInt8 → Option (List Char)
  | [] => some []
  | a :: r =>
    if a.toNat < 0x80 then do
      let c ← scalar? a.toNat
      return c :: (← decode? r)
    else if a.toNat < 0xC0 then none
    else if a.toNat < 0xE0 then
      match r with
      | b :: r => do
        let c ← atLeast 0x80 ((a.toNat - 0xC0) * 64 + (← continuation? b))
        return c :: (← decode? r)
      | _ => none
    else if a.toNat < 0xF0 then
      match r with
      | b :: d :: r => do
        let c ← atLeast 0x800 ((a.toNat - 0xE0) * 4096 + (← continuation? b) * 64 + (← continuation? d))
        return c :: (← decode? r)
      | _ => none
    else if a.toNat < 0xF8 then
      match r with
      | b :: d :: e :: r => do
        let c ← atLeast 0x10000 ((a.toNat - 0xF0) * 262144 + (← continuation? b) * 4096 +
          (← continuation? d) * 64 + (← continuation? e))
        return c :: (← decode? r)
      | _ => none
    else none

end DirectorySearch.Utf8
