import DirectorySearch.Pattern.Reader

/-!
What a log level may say.

It is a list of directives with commas between them. A directive is a level, or it names a target and
in square brackets a span, which may name a field in braces, and gives their level behind an equals
sign: `info`, `server=debug`, `server[request{id=5}]=trace`. Empty directives are passed over.

Blanks may stand around a directive. Its parts are found in the text without them, and their places
there, counted in octets, are where they are taken from the text as given. So behind blanks a part is
not the one that was found, and may even begin or end within a character.
-/

namespace DirectorySearch

/-- Why a log level is refused. -/
inductive LogLevelError where
  | malformed
  /-- A part begins or ends within a character. -/
  | brokenCharacter
deriving Repr, BEq, DecidableEq

namespace LogLevel

def isLevelName (s : String) : Bool :=
  ["error", "warn", "info", "debug", "trace", "off"].contains (Text.asciiLower s)

/-- A level may also be given as a number, from none to all. -/
def isLevelNumber (s : List Char) : Bool :=
  let digits := match s with
    | '+' :: r => r
    | s => s
  !digits.isEmpty && digits.all Char.isDigit &&
    digits.foldl (fun n c => n * 10 + (c.toNat - '0'.toNat)) 0 ≤ 5

def isLevel (s : List Char) : Bool :=
  isLevelName (.ofList s) || isLevelNumber s

def startsTarget (c : Char) : Bool :=
  c == '-' || c == ':' || c == '_' || Text.isAlphabetic c || Text.isNumeric c

/-! ### Fields -/

def isDigits (s : List Char) : Bool :=
  !s.isEmpty && s.all Char.isDigit

def unsigned : List Char → List Char
  | '+' :: r => r
  | '-' :: r => r
  | s => s

/-- Digits, in which there may be a point. -/
def isDecimal (s : List Char) : Bool :=
  let fraction := (s.dropWhile (· != '.')).drop 1
  isDigits (s.takeWhile (· != '.') ++ fraction)

def isNumber (s : List Char) : Bool :=
  let s := (unsigned s).map Char.toLower
  ["inf", "infinity", "nan"].contains (.ofList s) ||
    match s.dropWhile (· != 'e') with
    | _ :: exponent => isDecimal (s.takeWhile (· != 'e')) && isDigits (unsigned exponent)
    | [] => isDecimal s

/-- A field is compared with a number or matched with a pattern. -/
def isFieldValue (s : List Char) : Bool :=
  isNumber s ||
    match Pattern.parse? s with
    | some p => p.isUsable
    | none => false

/-- A field has a name, and behind an equals sign a value. What stands behind a second one is passed
    over. -/
def isField (s : List Char) : Bool :=
  !s.isEmpty &&
    match s.dropWhile (· != '=') with
    | _ :: value => isFieldValue (value.takeWhile (· != '='))
    | [] => true

/-! ### Directives -/

def require (b : Bool) : Except LogLevelError Unit :=
  if b then .ok () else .error .malformed

/-- The part of a text between two places. -/
def part (given : List Char) (start stop : Nat) : Except LogLevelError (List Char) :=
  match Utf8.slice? given start stop with
  | some s => .ok s
  | none => .error .brokenCharacter

/-- The level goes to the end of the text as given. -/
def checkLevel (given : List Char) (start : Nat) : Except LogLevelError Unit := do
  let word ← part given start (Utf8.size given)
  require (word.isEmpty || isLevel word)

/-- Checks what follows a span. -/
def checkTail (given : List Char) (start : Nat) : List Char → Except LogLevelError Unit
  | [] => .ok ()
  | '=' :: _ => checkLevel given (start + 1)
  | _ => .error .malformed

/-- Checks from within the braces of a span. -/
def checkField (given : List Char) (start : Nat) (s : List Char) : Except LogLevelError Unit :=
  let stop := start + Utf8.size (s.takeWhile (· != '\x7d'))
  match s.dropWhile (· != '\x7d') with
  | [] => .error .malformed
  | _ :: r => do
    require (isField (← part given start stop))
    match r with
    | ']' :: r => checkTail given (stop + 2) r
    | _ => .error .malformed

/-- Checks from within the brackets of a span. -/
def checkSpan (given : List Char) (start : Nat) (s : List Char) : Except LogLevelError Unit :=
  let isName (c : Char) : Bool := c != ']' && c != '\x7b'
  let stop := start + Utf8.size (s.takeWhile isName)
  match s.dropWhile isName with
  | [] => .error .malformed
  | c :: r => do
    let _ ← part given start stop
    if c == ']' then checkTail given (stop + 1) r else checkField given (stop + 1) r

/-- Checks a directive, from its target on. -/
def checkTarget (given s : List Char) : Except LogLevelError Unit :=
  let isName (c : Char) : Bool := c != '=' && c != '['
  let stop := Utf8.size (s.takeWhile isName)
  match s.dropWhile isName with
  | [] => .ok ()
  | c :: r => do
    let _ ← part given 0 stop
    if c == '=' then checkLevel given (stop + 1) else checkSpan given (stop + 1) r

def checkDirective (given : List Char) : Except LogLevelError Unit :=
  match Text.trim given with
  | [] => .error .malformed
  | c :: r =>
    if c == '[' then checkSpan given 1 r
    else if startsTarget c then checkTarget given (c :: r)
    else .error .malformed

/-- The first directive that is refused tells why. -/
def check (level : String) : Except LogLevelError Unit :=
  (level.toList.splitOn ',').forM fun s => if s.isEmpty then .ok () else checkDirective s

end LogLevel

end DirectorySearch
