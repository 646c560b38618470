import DirectorySearch.Text.Hex
import DirectorySearch.Text.Utf8

/-!
JSON text as far as it goes.

A reader of some type of data may find fault with a value before the text after it is looked at, and
may pass over a value without caring for all of it. So the text is first brought into the form of a
draft, which keeps every flaw at the place where it was met. What is made of the draft then decides
which problem comes first.

A flaw ends the text: the containers around it stay open, and nothing after it is read.
-/

namespace DirectorySearch.Json

/-- How a text fails to be JSON. -/
inductive Flaw where
  /-- A character that cannot stand where it does. -/
  | malformed
  /-- The text ends too early. -/
  | truncated
deriving Repr, BEq, DecidableEq

/-- A part of a quoted text: a character, or the sixteen-bit code of a `\u` escape. -/
inductive Piece where
  | char (c : Char)
  | code (n : Nat)
deriving Repr, BEq, DecidableEq

/-- The inside of quotes, up to the closing quote or a flaw. -/
structure Quoted where
  pieces : List Piece
  flaw : Option Flaw
deriving Repr, BEq, DecidableEq

/-- A number as it is written: the digits before and after the point, and an exponent. -/
structure Numeral where
  negative : Bool
  whole : List Char
  fraction : List Char
  exponent : Option Int
deriving Repr, BEq, DecidableEq

inductive Draft where
  /-- The text ended before a value began. -/
  | absent
  /-- Something that is no value. -/
  | broken (flaw : Flaw)
  | null
  | bool (b : Bool)
  | number (n : Numeral)
  /-- The text ended inside a number that lacks a digit. -/
  | cutNumber
  | text (q : Quoted)
  | array (items : List Draft) (flaw : Option Flaw)
  /-- A key may be any draft here; only a text is good as one. -/
  | object (members : List (Draft × Draft)) (flaw : Option Flaw)
deriving Repr, BEq

/-- A draft and the text after it, which is missing after a flaw. -/
abbrev Drafted := Draft × Option (List Char)

namespace Draft

def isBlank (c : Char) : Bool :=
  c == ' ' || c == '\t' || c == '\n' || c == '\r'

def skipBlank (s : List Char) : List Char :=
  s.dropWhile isBlank

/-- The rest of a word whose first letter has been read. -/
def word (draft : Draft) : List Char → List Char → Drafted
  | [], s => (draft, some s)
  | _ :: _, [] => (.broken .truncated, none)
  | e :: expected, c :: s => if c = e then word draft expected s else (.broken .malformed, none)

/-- A number with one more digit. -/
def addDigit (n : Nat) (c : Char) : Nat :=
  10 * n + (c.toNat - '0'.toNat)

/-- The value of decimal digits. -/
def digitsValue (digits : List Char) : Nat :=
  digits.foldl addDigit 0

/-- The digits at the start of a text, of which there must be one. -/
def digits1 (s : List Char) : Except Draft (List Char × List Char) :=
  match s.takeWhile Char.isDigit with
  | [] => .error (if s.isEmpty then .cutNumber else .broken .malformed)
  | digits => .ok (digits, s.dropWhile Char.isDigit)

/-- An exponent, if one is there. -/
def exponent (s : List Char) : Except Draft (Option Int × List Char) :=
  match s with
  | c :: r =>
    if c = 'e' ∨ c = 'E' then do
      let (negative, r) := match r with
        | '+' :: r => (false, r)
        | '-' :: r => (true, r)
        | r => (false, r)
      let (digits, r) ← digits1 r
      let n : Int := digitsValue digits
      return (some (if negative then -n else n), r)
    else return (none, s)
  | [] => return (none, s)

/-- The digits after a point, if one is there. -/
def fraction (s : List Char) : Except Draft (List Char × List Char) :=
  match s with
  | '.' :: r => digits1 r
  | _ => .ok ([], s)

/-- The digits before the point: no zero stands before another digit. -/
def whole (s : List Char) : Except Draft (List Char × List Char) :=
  match s with
  | '0' :: c :: r => if c.isDigit then .error (.broken .malformed) else .ok (['0'], c :: r)
  | _ => digits1 s

def numeral (negative : Bool) (s : List Char) : Drafted :=
  let read : Except Draft (Numeral × List Char) := do
    let (before, s) ← whole s
    let (after, s) ← fraction s
    let (exponent, s) ← exponent s
    return (⟨negative, before, after, exponent⟩, s)
  match read with
  | .ok (n, s) => (.number n, some s)
  | .error draft => (draft, none)

/-- The character of a short escape. -/
def escaped? : Char → Option Char
  | '"' => some '"'
  | '\\' => some '\\'
  | '/' => some '/'
  | 'b' => some '\x08'
  | 'f' => some '\x0c'
  | 'n' => some '\n'
  | 'r' => some '\r'
  | 't' => some '\t'
  | _ => none

def code? (a b c d : Char) : Option Nat := do
  return (← Hex.value? a) * 4096 + (← Hex.value? b) * 256 + (← Hex.value? c) * 16 +
    (← Hex.value? d)

/-- A code that is not four digits: the text ends too early if fewer than four octets are left. -/
def codeFlaw (s : List Char) : Flaw :=
  if (Utf8.encode s).length < 4 then .truncated else .malformed

/-- The text after an opening quote. -/
def quoted : List Char → Quoted × Option (List Char)
  | [] => (⟨[], some .truncated⟩, none)
  | '"' :: s => (⟨[], none⟩, some s)
  | ['\\'] => (⟨[], some .truncated⟩, none)
  | '\\' :: 'u' :: s =>
    match s with
    | a :: b :: c :: d :: r =>
      match code? a b c d with
      | some n =>
        let (q, rest) := quoted r
        (⟨.code n :: q.pieces, q.flaw⟩, rest)
      | none => (⟨[], some (codeFlaw s)⟩, none)
    | s => (⟨[], some (codeFlaw s)⟩, none)
  | '\\' :: e :: s =>
    match escaped? e with
    | some c =>
      let (q, rest) := quoted s
      (⟨.char c :: q.pieces, q.flaw⟩, rest)
    | none => (⟨[], some .malformed⟩, none)
  | c :: s =>
    if c.toNat < 0x20 then (⟨[], some .malformed⟩, none)
    else
      let (q, rest) := quoted s
      (⟨.char c :: q.pieces, q.flaw⟩, rest)

/-- What comes after a part of a container that is closed by `close`. -/
inductive Next where
  | closed (rest : List Char)
  | more (rest : List Char)
  | flawed (flaw : Flaw)

def next (close : Char) (s : List Char) : Next :=
  match skipBlank s with
  | [] => .flawed .truncated
  | c :: r => if c = close then .closed r else if c = ',' then .more r else .flawed .malformed

mutual

/-- A value, with blanks before it. Each step takes a character or more, or goes from a container to
    its parts, so twice the length of the text is fuel enough. -/
def value : Nat → List Char → Drafted
  | 0, _ => (.broken .malformed, none)
  | fuel + 1, s =>
    match skipBlank s with
    | [] => (.absent, none)
    | 'n' :: r => word .null ['u', 'l', 'l'] r
    | 't' :: r => word (.bool true) ['r', 'u', 'e'] r
    | 'f' :: r => word (.bool false) ['a', 'l', 's', 'e'] r
    | '"' :: r =>
      let (q, rest) := quoted r
      (.text q, rest)
    | '-' :: r => numeral true r
    | '[' :: r =>
      match skipBlank r with
      | [] => (.array [] (some .truncated), none)
      | ']' :: r => (.array [] none, some r)
      | r =>
        let (parts, flaw, rest) := items fuel r
        (.array parts flaw, rest)
    | '\x7b' :: r =>
      match skipBlank r with
      | [] => (.object [] (some .truncated), none)
      | '\x7d' :: r => (.object [] none, some r)
      | r =>
        let (parts, flaw, rest) := members fuel r
        (.object parts flaw, rest)
    | c :: r => if c.isDigit then numeral false (c :: r) else (.broken .malformed, none)

/-- The items of an array that is open, up to its end. -/
def items : Nat → List Char → List Draft × Option Flaw × Option (List Char)
  | 0, _ => ([], some .malformed, none)
  | fuel + 1, s =>
    match value fuel s with
    | (item, none) => ([item], none, none)
    | (item, some r) =>
      match next ']' r with
      | .closed r => ([item], none, some r)
      | .flawed flaw => ([item], some flaw, none)
      | .more r =>
        let (parts, flaw, rest) := items fuel r
        (item :: parts, flaw, rest)

/-- The members of an object that is open, up to its end. -/
def members : Nat → List Char → List (Draft × Draft) × Option Flaw × Option (List Char)
  | 0, _ => ([], some .malformed, none)
  | fuel + 1, s =>
    match value fuel s with
    | (.text q, some r) =>
      match skipBlank r with
      | [] => ([(.text q, .absent)], none, none)
      | ':' :: r =>
        match value fuel r with
        | (part, none) => ([(.text q, part)], none, none)
        | (part, some r) =>
          match next '\x7d' r with
          | .closed r => ([(.text q, part)], none, some r)
          | .flawed flaw => ([(.text q, part)], some flaw, none)
          | .more r =>
            let (parts, flaw, rest) := members fuel r
            ((.text q, part) :: parts, flaw, rest)
      | _ => ([(.text q, .broken .malformed)], none, none)
    | (key, _) => ([(key, .broken .malformed)], none, none)

end

/-- The draft of the first value of a text, and the text after it. -/
def ofText (s : List Char) : Drafted :=
  value (2 * s.length + 2) s

end Draft

end DirectorySearch.Json
