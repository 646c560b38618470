import DirectorySearch.Json.Form
import DirectorySearch.Search.Assertion
import DirectorySearch.Text.Blank

/-! What can be chosen about a search, and the names of the choices. -/

namespace DirectorySearch

/-- A value that a setting does not have. -/
structure UnknownChoice where
  setting : String
  value : String
deriving Repr, BEq, DecidableEq

def UnknownChoice.message (e : UnknownChoice) : String :=
  s!"Invalid {e.setting}: {e.value}"

/-- How far below its base a search goes. -/
inductive SearchScope where
  | base
  | oneLevel
  | subtree
deriving Repr, BEq, DecidableEq

namespace SearchScope

/-- The number of the scope in a search request. -/
def protocolValue : SearchScope → Int
  | .base => 0
  | .oneLevel => 1
  | .subtree => 2

def name : SearchScope → String
  | .base => "base"
  | .oneLevel => "one_level"
  | .subtree => "subtree"

def names : Json.Form.Names SearchScope :=
  [("base", .base), ("one_level", .oneLevel), ("subtree", .subtree)]

/-- Reads a scope in any case, also by its other names. -/
def parse (value : String) : Except UnknownChoice SearchScope :=
  match Text.asciiLower value with
  | "base" | "object" => .ok .base
  | "one_level" | "onelevel" | "one" => .ok .oneLevel
  | "subtree" | "sub" => .ok .subtree
  | _ => .error ⟨"search scope", value⟩

end SearchScope

namespace UnsearchablePolicy

def name : UnsearchablePolicy → String
  | .reject => "reject"
  | .allow => "allow"

def names : Json.Form.Names UnsearchablePolicy :=
  [("reject", .reject), ("allow", .allow)]

def parse (value : String) : Except UnknownChoice UnsearchablePolicy :=
  match Text.asciiLower value with
  | "reject" => .ok .reject
  | "allow" => .ok .allow
  | _ => .error ⟨"unsearchable column policy", value⟩

end UnsearchablePolicy

structure SearchSettings where
  scope : SearchScope := .oneLevel
  unsearchable : UnsearchablePolicy := .reject
  /-- Whether a search asks for the object class of its table. -/
  restrictToObjectClass : Bool := false
deriving Repr, BEq, DecidableEq

namespace SearchSettings

def fields : List Json.Field :=
  [⟨"default_scope", SearchScope, .name SearchScope.names⟩,
    ⟨"unsearchable_columns", UnsearchablePolicy, .name UnsearchablePolicy.names⟩,
    ⟨"restrict_to_object_class", Bool, .bool⟩]

def form : Json.Form SearchSettings :=
  .record fields fun (scope, unsearchable, restrict, _) =>
    some ⟨scope.getD .oneLevel, unsearchable.getD .reject, restrict.getD false⟩

def toJson (s : SearchSettings) : Json :=
  .object [("default_scope", .string s.scope.name), ("unsearchable_columns", .string s.unsearchable.name),
    ("restrict_to_object_class", .bool s.restrictToObjectClass)]

end SearchSettings

end DirectorySearch
