import DirectorySearch.Text.Hex
import DirectorySearch.Text.Utf8

/-!
Assertion values as a filter writes them. The characters that would end a value or start a wildcard
are written as a backslash and two hexadecimal digits; reading takes any octet in that form, and the
octets together must be UTF-8.
-/

namespace DirectorySearch.Escape

/-- The octet that two hexadecimal digits spell. -/
def octet? (high low : Char) : Option UInt8 := do
  return .ofNat ((← Hex.value? high) * 16 + (← Hex.value? low))

def escapeChar (c : Char) : List Char :=
  match c with
  | '*' => ['\\', '2', 'a']
  | '(' => ['\\', '2', '8']
  | ')' => ['\\', '2', '9']
  | '\\' => ['\\', '5', 'c']
  | '\x00' => ['\\', '0', '0']
  | c => [c]

def escapeChars (s : List Char) : List Char :=
  s.flatMap escapeChar

/-- The octets that those of a written value stand for: a backslash and two digits give one octet, and
    any other gives itself. The two that follow a backslash must not cut through a character. -/
def unescapeOctets? : List UInt8 → Option (List UInt8)
  | [] => some []
  | x :: r =>
    if x = 0x5C then
      match r with
      | a :: b :: r =>
        if Utf8.isBoundary (a :: b :: r) ∧ Utf8.isBoundary r then do
          let octet ← octet? (.ofNat a.toNat) (.ofNat b.toNat)
          return octet :: (← unescapeOctets? r)
        else none
      | _ => none
    else do return x :: (← unescapeOctets? r)

def unescapeChars? (s : List Char) : Option (List Char) := do
  Utf8.decode? (← unescapeOctets? (Utf8.encode s))

/-- The written form of an assertion value. -/
def escape (value : String) : String :=
  .ofList (escapeChars value.toList)

/-- The text that a written assertion value stands for. -/
def unescape? (written : String) : Option String :=
  (unescapeChars? written.toList).map .ofList

/-- A text with the written form of one more character at its end. -/
def append (text : String) (c : Char) : String :=
  text ++ .ofList (escapeChar c)

end DirectorySearch.Escape
