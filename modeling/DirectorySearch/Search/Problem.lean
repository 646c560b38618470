import DirectorySearch.Query.Basic
import DirectorySearch.Text.Quoted

/-!
Why a query cannot be put to a directory.

A problem either lies in the language of filters, which cannot say what the query asks, or in the
query itself. The wording of all of them is here.
-/

namespace DirectorySearch

/-- How a condition uses a column. -/
inductive Usage where
  /-- Comparisons, lists of values and null tests. -/
  | comparison
  | like
deriving Repr, DecidableEq

def Usage.name : Usage → String
  | .comparison => "comparisons"
  | .like => "LIKE"

/-- The part of a query that an expression stands in. -/
inductive Clause where
  | projection
  | orderBy
deriving Repr, DecidableEq

def Clause.name : Clause → String
  | .projection => "projection"
  | .orderBy => "ORDER BY"

inductive Problem where
  | badEscape (escape next : Char)
  | danglingEscape (escape : Char)
  | singleWildcard
  | notWildcard (c : Char)
  | notFinite (x : Double)
  | nullComparison
  | notSearchable (column : String) (usage : Usage)
  | badAttribute (column name : String)
  | emptyGroup
  | emptyList (column : String)
  | noTable
  | severalTables (count : Nat)
  | noBase (table : String)
  | literalIn (clause : Clause) (value : Literal)
  | negativeLimit (rows : Int64)
deriving Repr, BEq, DecidableEq

namespace Literal

/-- Doubles as assertion values: every digit by its position, and nothing after a whole number. -/
def assertionLayout : NumberLayout where
  tie := .up
  positional := none
  keepsPoint := false
  signsExponent := false

/-- Doubles in descriptions: large and small ones with an exponent. -/
def describeLayout : NumberLayout where
  tie := .up
  positional := some (-4, 16)
  keepsPoint := true
  signsExponent := false

def assertionFloat (x : Double) : String :=
  .ofList (assertionLayout.chars x)

def intText (n : Int64) : String :=
  .ofList (NumberLayout.intChars n.toInt)

/-- A literal with its kind, for messages. -/
def describe : Literal → String
  | .null => "Null"
  | .bool true => "Bool(true)"
  | .bool false => "Bool(false)"
  | .int n => s!"Int({intText n})"
  | .float x => s!"Float({String.ofList (describeLayout.chars x)})"
  | .string s => s!"String({Text.quoted s})"

end Literal

namespace Problem

/-- Where a problem lies. -/
inductive Kind where
  /-- Filters cannot express what is asked. -/
  | unsupported
  /-- The query is malformed or incomplete. -/
  | invalid
deriving Repr, DecidableEq

def kind : Problem → Kind
  | .badEscape .. | .danglingEscape _ | .singleWildcard | .notWildcard _ | .notFinite _
  | .nullComparison | .notSearchable .. => .unsupported
  | .badAttribute .. | .emptyGroup | .emptyList _ | .noTable | .severalTables _ | .noBase _
  | .literalIn .. | .negativeLimit _ => .invalid

def reason : Problem → String
  | .badEscape escape next => s!"invalid escape sequence '{escape}{next}' in LIKE pattern"
  | .danglingEscape escape => s!"LIKE pattern ends with escape character '{escape}'"
  | .singleWildcard => "single-character wildcard not representable"
  | .notWildcard c => s!"'{c}' is not a LIKE wildcard"
  | .notFinite x => s!"non-finite value {Literal.assertionFloat x} not representable"
  | .nullComparison => "comparison with NULL not representable"
  | .notSearchable column usage => s!"column {column} is not searchable with {usage.name}"
  | .badAttribute column name => s!"column {column} maps to invalid attribute name '{name}'"
  | .emptyGroup => "empty AND/OR group"
  | .emptyList column => s!"IN predicate on column {column} has no values"
  | .noTable => "query has no FROM table"
  | .severalTables count => s!"joins are not supported ({count} tables in FROM)"
  | .noBase table => s!"table {table} has no name in source to use as search base"
  | .literalIn clause value =>
    s!"only columns are allowed in the {clause.name}, found literal {value.describe}"
  | .negativeLimit rows => s!"negative row limit: {Literal.intText rows}"

def message (p : Problem) : String :=
  match p.kind with
  | .unsupported => s!"Unsupported: {p.reason}"
  | .invalid => s!"Translation error: {p.reason}"

end Problem

end DirectorySearch
