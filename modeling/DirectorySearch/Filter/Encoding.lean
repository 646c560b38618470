import DirectorySearch.Filter.Basic
import DirectorySearch.Json.Basic

/-! The JSON form of a filter: an object whose one key names the kind of component. -/

namespace DirectorySearch

def Relation.name : Relation → String
  | .equal => "equality"
  | .greaterOrEqual => "greater_or_equal"
  | .lessOrEqual => "less_or_equal"
  | .approx => "approx"

namespace Filter

def textOrNull : Option String → Json
  | some s => .string s
  | none => .null

mutual

def toJson : Filter → Json
  | .and parts => .object [("and", .array (toJsonAll parts))]
  | .or parts => .object [("or", .array (toJsonAll parts))]
  | .not part => .object [("not", toJson part)]
  | .compare relation attr value =>
    .object [(relation.name, .object [("attr", .string attr), ("value", .string value)])]
  | .present attr => .object [("present", .object [("attr", .string attr)])]
  | .substrings attr initial any final =>
    .object [("substrings", .object [("attr", .string attr), ("initial", textOrNull initial),
      ("any", .array (any.map .string)), ("end", textOrNull final)])]

def toJsonAll : List Filter → List Json
  | [] => []
  | part :: parts => toJson part :: toJsonAll parts

end

end Filter

end DirectorySearch
