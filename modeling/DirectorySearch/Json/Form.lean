import DirectorySearch.Json.Basic
import DirectorySearch.Json.Draft

/-!
Reading data out of JSON text.

A `Form` says how one type of data is written in JSON, and reads it in two ways. Read directly, a
draft is walked from left to right and the first problem is reported, be it a flaw of the text or a
value of the wrong kind. Read from a finished value, there is no text left to be flawed and only
success counts. Data that tells its kind by a member which may stand anywhere is read that way: its
text is finished first.

What a reader has no use for it passes over, and the passed-over text need only look like JSON: its
numbers may be too large and its escapes may spell half a character.
-/

namespace DirectorySearch.Json

/-- Why a text does not hold the data that it should. -/
inductive Fault where
  | flaw (f : Flaw)
  /-- A value that is JSON and not what is asked for. -/
  | mismatched
deriving Repr, BEq, DecidableEq

def Fault.message : Fault → String
  | .flaw .malformed => "malformed JSON"
  | .flaw .truncated => "unexpected end of JSON"
  | .mismatched => "unexpected JSON value"

abbrev Reading := Except Fault

def Reading.flawed {α : Type} (f : Flaw) : Reading α :=
  .error (.flaw f)

def Reading.mismatched {α : Type} : Reading α :=
  .error .mismatched

/-- Stops at a flaw. -/
def Reading.check (flaw : Option Flaw) : Reading Unit :=
  match flaw with
  | none => return ()
  | some f => .flawed f

/-- How many containers may be open at once. -/
def maxDepth : Nat := 127

/-! ### Finished values -/

/-- The characters that pieces spell; the codes of a pair of surrogates spell one together. -/
def Piece.spell : List Piece → Option Flaw → Except Flaw (List Char)
  | [], none => .ok []
  | [], some f => .error f
  | .char c :: r, f => do return c :: (← spell r f)
  | .code n :: .code m :: r, f =>
    if 0xD800 ≤ n ∧ n < 0xDC00 then
      if 0xDC00 ≤ m ∧ m < 0xE000 then do
        return Char.ofNat (0x10000 + (n - 0xD800) * 1024 + (m - 0xDC00)) :: (← spell r f)
      else .error .malformed
    else if 0xDC00 ≤ n ∧ n < 0xE000 then .error .malformed
    else do return Char.ofNat n :: (← spell (.code m :: r) f)
  | .code n :: r, f =>
    if 0xD800 ≤ n ∧ n < 0xDC00 then .error (if r.isEmpty then f.getD .malformed else .malformed)
    else if 0xDC00 ≤ n ∧ n < 0xE000 then .error .malformed
    else do return Char.ofNat n :: (← spell r f)

def Quoted.spell (q : Quoted) : Reading String :=
  match Piece.spell q.pieces q.flaw with
  | .ok s => .ok (.ofList s)
  | .error f => .flawed f

namespace Numeral

/-- Adds digits to a number as long as sixty-four bits hold it, and tells how many are left over. -/
def gather (n : Nat) : List Char → Nat × Nat
  | [] => (n, 0)
  | c :: r =>
    let m := Draft.addDigit n c
    if m < Nat.pow 2 64 then gather m r else (n, r.length + 1)

/-- The number `digits * 10 ^ power` that a double is made of. Digits before the point that are left
    over count as zeros; behind the point they count for nothing. -/
def decimal (n : Numeral) : Nat × Int :=
  let (digits, zeros) := gather 0 n.whole
  let (digits, left) := gather digits n.fraction
  (digits, n.exponent.getD 0 + zeros - (n.fraction.length - left))

/-- A number without point and exponent is whole if sixty-four bits hold it; every other one is a
    double, and so is a negative zero. -/
def finish (n : Numeral) : Reading Json :=
  let size := Draft.digitsValue n.whole
  if n.exponent.isNone ∧ n.fraction = [] ∧ n.negative = false ∧ size < Nat.pow 2 64 then
    return .int size
  else if n.exponent.isNone ∧ n.fraction = [] ∧ n.negative = true ∧ 0 < size ∧ size ≤ Nat.pow 2 63 then
    return .int (-size)
  else
    match FiniteDouble.ofDecimal? n.negative n.decimal.1 n.decimal.2 with
    | some x => return .float (.finite x)
    | none => .flawed .malformed

end Numeral

namespace Draft

/-- The text of a member's key. -/
def key : Draft → Reading String
  | .text q => q.spell
  | .absent => .flawed .truncated
  | _ => .flawed .malformed

/-- What is wrong with a draft where another kind of value should stand. Numbers and texts are read
    to their end before they are found to be of the wrong kind; containers are not. -/
def misplaced {α : Type} : Draft → Reading α
  | .absent => .flawed .truncated
  | .broken f => .flawed f
  | .cutNumber => .flawed .truncated
  | .number n => do let _ ← n.finish; .mismatched
  | .text q => do let _ ← q.spell; .mismatched
  | _ => .mismatched

mutual

/-- The finished value, with room for so many more open containers. -/
def finish (room : Nat) : Draft → Reading Json
  | .null => return .null
  | .bool b => return .bool b
  | .number n => n.finish
  | .text q => return .string (← q.spell)
  | .array items flaw =>
    match room with
    | 0 => .flawed .malformed
    | room + 1 => do
      let items ← finishItems room items
      Reading.check flaw
      return .array items
  | .object members flaw =>
    match room with
    | 0 => .flawed .malformed
    | room + 1 => do
      let members ← finishMembers room members
      Reading.check flaw
      return .object members
  | .absent => .flawed .truncated
  | .broken f => .flawed f
  | .cutNumber => .flawed .truncated

def finishItems (room : Nat) : List Draft → Reading (List Json)
  | [] => return []
  | item :: items => do
    let item ← finish room item
    return item :: (← finishItems room items)

def finishMembers (room : Nat) : List (Draft × Draft) → Reading (List (String × Json))
  | [] => return []
  | (name, value) :: members => do
    let name ← name.key
    let value ← finish room value
    return (name, value) :: (← finishMembers room members)

end

mutual

/-- Passes over a draft. -/
def skip : Draft → Reading Unit
  | .absent => .flawed .truncated
  | .broken f => .flawed f
  | .cutNumber => .flawed .malformed
  | .text q => Reading.check q.flaw
  | .array items flaw => do
    skipItems items
    Reading.check flaw
  | .object members flaw => do
    skipMembers members
    Reading.check flaw
  | _ => return ()

def skipItems : List Draft → Reading Unit
  | [] => return ()
  | item :: items => do
    skip item
    skipItems items

def skipMembers : List (Draft × Draft) → Reading Unit
  | [] => return ()
  | (name, value) :: members => do
    match name with
    | .text q => Reading.check q.flaw
    | .absent => .flawed .truncated
    | _ => .flawed .malformed
    skip value
    skipMembers members

end

end Draft

/-! ### Forms -/

structure Form (α : Type) where
  /-- Reads a draft, with room for so many more open containers. -/
  direct : Nat → Draft → Reading α
  /-- Reads a finished value. -/
  buffered : Json → Option α

namespace Form

variable {α β : Type}

/-- The value if there is one; a missing one is of the wrong kind. -/
def orMismatched : Option α → Reading α
  | some a => return a
  | none => .mismatched

/-- Data that is read only once its text is finished. -/
def ofBuffered (read : Json → Option α) : Form α where
  direct room d := do orMismatched (read (← d.finish room))
  buffered := read

/-- Data that takes one more step to make. -/
def refine (form : Form α) (step : α → Option β) : Form β where
  direct room d := do orMismatched (step (← form.direct room d))
  buffered v := do step (← form.buffered v)

def string : Form String where
  direct _ d := match d with
    | .text q => q.spell
    | d => d.misplaced
  buffered v := match v with
    | .string s => some s
    | _ => none

/-- A text of exactly one character. -/
def char : Form Char :=
  string.refine fun s => match s.toList with
    | [c] => some c
    | _ => none

def bool : Form Bool where
  direct _ d := match d with
    | .bool b => return b
    | d => d.misplaced
  buffered v := match v with
    | .bool b => some b
    | _ => none

/-- A whole number, when it is within the range of sixty-four bits with a sign. -/
def int64? (n : Int) : Option Int64 :=
  if Int64.minValue.toInt ≤ n ∧ n ≤ Int64.maxValue.toInt then some (.ofInt n) else none

def int64 : Form Int64 where
  direct _ d := match d with
    | .number n => do
      match ← n.finish with
      | .int n => orMismatched (int64? n)
      | _ => .mismatched
    | d => d.misplaced
  buffered v := match v with
    | .int n => int64? n
    | _ => none

/-- Data that may be null. -/
def optional (form : Form α) : Form (Option α) where
  direct room d := match d with
    | .null => return none
    | d => return some (← form.direct room d)
  buffered v := match v with
    | .null => some none
    | v => do return some (← form.buffered v)

def list (form : Form α) : Form (List α) where
  direct room d := match d with
    | .array items flaw =>
      match room with
      | 0 => .flawed .malformed
      | room + 1 => do
        let items ← items.mapM (form.direct room)
        Reading.check flaw
        return items
    | d => d.misplaced
  buffered v := match v with
    | .array items => items.mapM form.buffered
    | _ => none

/-! ### Names -/

/-- The meanings of some names. -/
abbrev Names (α : Type) := List (String × α)

/-- Reads the name that a text spells; a finished text may also number the name, from zero. -/
def tag (names : Names α) : Form α where
  direct _ d := match d with
    | .text q => do orMismatched (names.lookup (← q.spell))
    | d => d.misplaced
  buffered v := match v with
    | .string s => names.lookup s
    | .int (.ofNat n) => (names[n]?).map (·.2)
    | _ => none

/-- One of some names, as a text, or as the key of an object with one member that is null. Read
    directly, any other kind of value is no JSON for a name. -/
def name (names : Names α) : Form α where
  direct room d := match d with
    | .text q => do orMismatched (names.lookup (← q.spell))
    | .object members flaw =>
      match room with
      | 0 => .flawed .malformed
      | _ + 1 =>
        match members with
        | [] => .flawed (flaw.getD .malformed)
        | (key, value) :: others => do
          let named ← orMismatched (names.lookup (← key.key))
          match value with
          | .null => pure ()
          | value => value.misplaced
          match others with
          | [] => Reading.check flaw
          | _ => .flawed .malformed
          return named
    | .absent => .flawed .truncated
    | _ => .flawed .malformed
  buffered v := match v with
    | .string s => names.lookup s
    | .object [(key, .null)] => names.lookup key
    | .object [(key, .object [])] => names.lookup key
    | _ => none

end Form

/-! ### Records -/

/-- A field of a record. -/
structure Field where
  name : String
  Value : Type
  form : Form Value

/-- A place for the value of each field. -/
def Slots : List Field → Type
  | [] => Unit
  | field :: fields => Option field.Value × Slots fields

namespace Slots

def empty : (fields : List Field) → Slots fields
  | [] => ()
  | _ :: fields => (none, empty fields)

/-- Reads the member `name` of an object. A field that has its value must not be named again, and a
    name that is no field's is passed over. -/
def put (room : Nat) (name : String) (d : Draft) : (fields : List Field) → Slots fields → Reading (Slots fields)
  | [], () => do
    d.skip
    return ()
  | field :: fields, (slot, slots) =>
    if field.name = name then
      match slot with
      | some _ => .mismatched
      | none => do return (some (← field.form.direct room d), slots)
    else do return (slot, ← put room name d fields slots)

def putAll (room : Nat) (fields : List Field) : List (Draft × Draft) → Slots fields → Reading (Slots fields)
  | [], slots => return slots
  | (key, d) :: members, slots => do
    let name ← key.key
    putAll room fields members (← put room name d fields slots)

/-- Reads the fields in order from the items of an array, which may end early. -/
def fill (room : Nat) (flaw : Option Flaw) : (fields : List Field) → List Draft → Reading (Slots fields)
  | [], [] => do
    Reading.check flaw
    return ()
  | [], _ :: _ => .flawed .malformed
  | field :: fields, [] => do
    Reading.check flaw
    return empty (field :: fields)
  | field :: fields, d :: items => do
    let value ← field.form.direct room d
    return (some value, ← fill room flaw fields items)

/-- The same for a member of a finished object. -/
def put? (name : String) (v : Json) : (fields : List Field) → Slots fields → Option (Slots fields)
  | [], () => some ()
  | field :: fields, (slot, slots) =>
    if field.name = name then
      match slot with
      | some _ => none
      | none => do return (some (← field.form.buffered v), slots)
    else do return (slot, ← put? name v fields slots)

def putAll? (fields : List Field) : List (String × Json) → Slots fields → Option (Slots fields)
  | [], slots => some slots
  | (name, v) :: members, slots => do putAll? fields members (← put? name v fields slots)

def fill? : (fields : List Field) → List Json → Option (Slots fields)
  | [], [] => some ()
  | [], _ :: _ => none
  | field :: fields, [] => some (empty (field :: fields))
  | field :: fields, v :: items => do
    let value ← field.form.buffered v
    return (some value, ← fill? fields items)

end Slots

/-- The parts of a record: members by name, or the values of the first fields in order. -/
inductive Content where
  | named (members : List (String × Json))
  | listed (items : List Json)
deriving Repr, BEq

/-- Reads a record from its parts. -/
def Content.read {α : Type} (fields : List Field) (make : Slots fields → Option α) : Content → Option α
  | .named members => do make (← Slots.putAll? fields members (.empty fields))
  | .listed items => do make (← Slots.fill? fields items)

namespace Form

variable {α τ : Type}

/-- A record: an object, or an array of its fields in order. -/
def record (fields : List Field) (make : Slots fields → Option α) : Form α where
  direct room d := match d with
    | .object members flaw =>
      match room with
      | 0 => .flawed .malformed
      | room + 1 => do
        let slots ← Slots.putAll room fields members (.empty fields)
        Reading.check flaw
        orMismatched (make slots)
    | .array items flaw =>
      match room with
      | 0 => .flawed .malformed
      | room + 1 => do orMismatched (make (← Slots.fill room flaw fields items))
    | d => d.misplaced
  buffered v := match v with
    | .object members => Content.read fields make (.named members)
    | .array items => Content.read fields make (.listed items)
    | _ => none

/-! ### Kinds -/

/-- Finds the tag among the members of an object and finishes the others. -/
def splitTag (names : Names τ) (room : Nat) (found : Option τ) :
    List (Draft × Draft) → Reading (Option τ × List (String × Json))
  | [] => return (found, [])
  | (key, d) :: members => do
    let name ← key.key
    if name = "type" then
      if found.isSome then .mismatched
      else
        let kind ← (tag names).direct room d
        splitTag names room (some kind) members
    else
      let value ← d.finish room
      let (found, others) ← splitTag names room found members
      return (found, (name, value) :: others)

def splitTag? (names : Names τ) (found : Option τ) :
    List (String × Json) → Option (Option τ × List (String × Json))
  | [] => some (found, [])
  | (name, v) :: members =>
    if name = "type" then
      if found.isSome then none
      else do splitTag? names (some (← (tag names).buffered v)) members
    else do
      let (found, others) ← splitTag? names found members
      return (found, (name, v) :: others)

/-- Data of several kinds, told by the member `type` of an object or by the first item of an array;
    the rest are the parts of a record of that kind. -/
def tagged (names : Names τ) (make : τ → Content → Option α) : Form α where
  direct room d := match d with
    | .object members flaw =>
      match room with
      | 0 => .flawed .malformed
      | room + 1 => do
        let (found, others) ← splitTag names room none members
        Reading.check flaw
        match found with
        | none => .mismatched
        | some kind => orMismatched (make kind (.named others))
    | .array items flaw =>
      match room, items with
      | 0, _ => .flawed .malformed
      | _, [] => do
        Reading.check flaw
        .mismatched
      | room + 1, first :: others => do
        let kind ← (tag names).direct room first
        let others ← Draft.finishItems room others
        Reading.check flaw
        orMismatched (make kind (.listed others))
    | d => d.misplaced
  buffered v := match v with
    | .object members => do
      let (found, others) ← splitTag? names none members
      make (← found) (.named others)
    | .array (first :: others) => do make (← (tag names).buffered first) (.listed others)
    | _ => none

/-- Reads a whole text. -/
def read (form : Form α) (text : String) : Reading α := do
  let (draft, rest) := Draft.ofText text.toList
  let value ← form.direct maxDepth draft
  match rest.map Draft.skipBlank with
  | some (_ :: _) => .flawed .malformed
  | _ => return value

end Form

end DirectorySearch.Json
