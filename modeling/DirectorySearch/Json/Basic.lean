import DirectorySearch.Decimal.Layout
import DirectorySearch.Text.Hex

/-!
JSON values and their text.

An object is a list of members in the order in which they are written. Numbers are whole, or doubles:
a double is always written with a point or an exponent, so that the two are told apart again.
-/

namespace DirectorySearch

inductive Json where
  | null
  | bool (b : Bool)
  | int (n : Int)
  | float (x : Double)
  | string (s : String)
  | array (items : List Json)
  | object (members : List (String × Json))
deriving Repr, BEq

/-- How the parts of a value are set apart. -/
inductive Spacing where
  | compact
  | pretty
deriving Repr, DecidableEq

namespace Json

/-- Doubles in JSON text: a point or an exponent is always there, and an exponent has its sign. -/
def numberLayout : NumberLayout where
  tie := .even
  positional := some (-5, 16)
  keepsPoint := true
  signsExponent := true

/-- A character inside quotes. Only quotes, backslashes and control characters are escaped. -/
def charChars (c : Char) : List Char :=
  match c with
  | '"' => ['\\', '"']
  | '\\' => ['\\', '\\']
  | '\x08' => ['\\', 'b']
  | '\x0c' => ['\\', 'f']
  | '\n' => ['\\', 'n']
  | '\r' => ['\\', 'r']
  | '\t' => ['\\', 't']
  | c =>
    if c.toNat < 0x20 then ['\\', 'u', '0', '0', Hex.digit (c.toNat / 16), Hex.digit (c.toNat % 16)]
    else [c]

def stringChars (s : String) : List Char :=
  '"' :: s.toList.flatMap charChars ++ ['"']

/-- Numbers that are not finite have no JSON form and are written as null. -/
def floatChars : Double → List Char
  | .finite x => numberLayout.finite x
  | _ => ['n', 'u', 'l', 'l']

namespace Spacing

/-- What stands before a part at some depth. -/
def gap : Spacing → Nat → List Char
  | .compact, _ => []
  | .pretty, depth => '\n' :: List.replicate (2 * depth) ' '

/-- What stands between a key and its value. -/
def colon : Spacing → List Char
  | .compact => [':']
  | .pretty => [':', ' ']

end Spacing

mutual

def chars (spacing : Spacing) (depth : Nat) : Json → List Char
  | .null => ['n', 'u', 'l', 'l']
  | .bool true => ['t', 'r', 'u', 'e']
  | .bool false => ['f', 'a', 'l', 's', 'e']
  | .int n => NumberLayout.intChars n
  | .float x => floatChars x
  | .string s => stringChars s
  | .array [] => ['[', ']']
  | .array items => '[' :: itemChars spacing (depth + 1) items ++ Spacing.gap spacing depth ++ [']']
  | .object [] => ['\x7b', '\x7d']
  | .object members =>
    '\x7b' :: memberChars spacing (depth + 1) members ++ Spacing.gap spacing depth ++ ['\x7d']

def itemChars (spacing : Spacing) (depth : Nat) : List Json → List Char
  | [] => []
  | [item] => Spacing.gap spacing depth ++ chars spacing depth item
  | item :: items =>
    Spacing.gap spacing depth ++ chars spacing depth item ++ ',' :: itemChars spacing depth items

def memberChars (spacing : Spacing) (depth : Nat) : List (String × Json) → List Char
  | [] => []
  | [(key, value)] =>
    Spacing.gap spacing depth ++ stringChars key ++ Spacing.colon spacing ++ chars spacing depth value
  | (key, value) :: members =>
    Spacing.gap spacing depth ++ stringChars key ++ Spacing.colon spacing ++ chars spacing depth value ++
      ',' :: memberChars spacing depth members

end

/-- The text of a value. -/
def render (spacing : Spacing) (value : Json) : String :=
  .ofList (chars spacing 0 value)

end Json

end DirectorySearch
