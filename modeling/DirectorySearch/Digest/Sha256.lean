import DirectorySearch.Text.Hex

/-!
SHA-256: the digest of a message as eight words, and its text.

The message is padded to whole blocks of sixteen words. Each block is spread over sixty-four words
and stirred into the state, one round for each.
-/

namespace DirectorySearch.Sha256

abbrev State := Vector UInt32 8

def rotateRight (x : UInt32) (n : UInt32) : UInt32 :=
  (x >>> n) ||| (x <<< (32 - n))

/-- The first 32 bits of the fractional parts of the square roots of the first eight primes. -/
def initial : State :=
  #v[0x6a09e667, 0xbb67ae85, 0x3c6ef372, 0xa54ff53a, 0x510e527f, 0x9b05688c, 0x1f83d9ab, 0x5be0cd19]

/-- The first 32 bits of the fractional parts of the cube roots of the first sixty-four primes. -/
def constants : List UInt32 :=
  [0x428a2f98, 0x71374491, 0xb5c0fbcf, 0xe9b5dba5, 0x3956c25b, 0x59f111f1, 0x923f82a4, 0xab1c5ed5,
    0xd807aa98, 0x12835b01, 0x243185be, 0x550c7dc3, 0x72be5d74, 0x80deb1fe, 0x9bdc06a7, 0xc19bf174,
    0xe49b69c1, 0xefbe4786, 0x0fc19dc6, 0x240ca1cc, 0x2de92c6f, 0x4a7484aa, 0x5cb0a9dc, 0x76f988da,
    0x983e5152, 0xa831c66d, 0xb00327c8, 0xbf597fc7, 0xc6e00bf3, 0xd5a79147, 0x06ca6351, 0x14292967,
    0x27b70a85, 0x2e1b2138, 0x4d2c6dfc, 0x53380d13, 0x650a7354, 0x766a0abb, 0x81c2c92e, 0x92722c85,
    0xa2bfe8a1, 0xa81a664b, 0xc24b8b70, 0xc76c51a3, 0xd192e819, 0xd6990624, 0xf40e3585, 0x106aa070,
    0x19a4c116, 0x1e376c08, 0x2748774c, 0x34b0bcb5, 0x391c0cb3, 0x4ed8aa4a, 0x5b9cca4f, 0x682e6ff3,
    0x748f82ee, 0x78a5636f, 0x84c87814, 0x8cc70208, 0x90befffa, 0xa4506ceb, 0xbef9a3f7, 0xc67178f2]

/-- The number of zero octets after the closing bit of a message of a given size. -/
def paddingZeros (size : Nat) : Nat :=
  (119 - size % 64) % 64

def lengthOctets (size : Nat) : List UInt8 :=
  (List.range 8).map fun i => .ofNat (size * 8 / Nat.pow 2 (56 - 8 * i))

def pad (message : List UInt8) : List UInt8 :=
  message ++ 0x80 :: List.replicate (paddingZeros message.length) 0 ++ lengthOctets message.length

/-- Big-endian words. -/
def words : List UInt8 → List UInt32
  | a :: b :: c :: d :: r =>
    (a.toUInt32 <<< 24 ||| b.toUInt32 <<< 16 ||| c.toUInt32 <<< 8 ||| d.toUInt32) :: words r
  | _ => []

/-- Words in groups of sixteen. -/
def blocks : List UInt32 → List (Vector UInt32 16)
  | a :: b :: c :: d :: e :: f :: g :: h :: i :: j :: k :: l :: m :: n :: o :: p :: r =>
    #v[a, b, c, d, e, f, g, h, i, j, k, l, m, n, o, p] :: blocks r
  | _ => []

/-- The next word of a schedule, from the sixteen before it. -/
def nextWord (w : Vector UInt32 16) : UInt32 :=
  let x := w[1]
  let y := w[14]
  let s0 := rotateRight x 7 ^^^ rotateRight x 18 ^^^ (x >>> 3)
  let s1 := rotateRight y 17 ^^^ rotateRight y 19 ^^^ (y >>> 10)
  w[0] + s0 + w[9] + s1

/-- The last fifteen words and one more. -/
def shift (w : Vector UInt32 16) : Vector UInt32 16 :=
  #v[w[1], w[2], w[3], w[4], w[5], w[6], w[7], w[8], w[9], w[10], w[11], w[12], w[13], w[14], w[15],
    nextWord w]

def round (s : State) (word constant : UInt32) : State :=
  let s1 := rotateRight s[4] 6 ^^^ rotateRight s[4] 11 ^^^ rotateRight s[4] 25
  let choice := (s[4] &&& s[5]) ^^^ (~~~s[4] &&& s[6])
  let t1 := s[7] + s1 + choice + constant + word
  let s0 := rotateRight s[0] 2 ^^^ rotateRight s[0] 13 ^^^ rotateRight s[0] 22
  let majority := (s[0] &&& s[1]) ^^^ (s[0] &&& s[2]) ^^^ (s[1] &&& s[2])
  #v[t1 + s0 + majority, s[0], s[1], s[2], s[3] + t1, s[4], s[5], s[6]]

def compress (s : State) (block : Vector UInt32 16) : State :=
  let (t, _) := constants.foldl (fun (t, w) constant => (round t w[0] constant, shift w)) (s, block)
  #v[s[0] + t[0], s[1] + t[1], s[2] + t[2], s[3] + t[3], s[4] + t[4], s[5] + t[5], s[6] + t[6],
    s[7] + t[7]]

def hash (message : List UInt8) : State :=
  (blocks (words (pad message))).foldl compress initial

/-- A word as eight lowercase hexadecimal digits. -/
def wordHex (w : UInt32) : List Char :=
  (List.range 8).map fun i => Hex.digit (w.toNat / Nat.pow 16 (7 - i) % 16)

/-- The digest of a message as sixty-four lowercase hexadecimal digits. -/
def hex (message : List UInt8) : String :=
  .ofList ((hash message).toList.flatMap wordHex)

end DirectorySearch.Sha256
