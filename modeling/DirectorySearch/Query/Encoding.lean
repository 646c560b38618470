import DirectorySearch.Digest.Sha256
import DirectorySearch.Json.Basic
import DirectorySearch.Query.Basic
import DirectorySearch.Text.Utf8

/-! The JSON form of a query, and its fingerprint. -/

namespace DirectorySearch

namespace Json

/-- A member that is left out when it has no value. -/
def member? (name : String) (value : Option Json) : List (String × Json) :=
  match value with
  | some v => [(name, v)]
  | none => []

end Json

def Searchability.name : Searchability → String
  | .searchable => "searchable"
  | .allExceptLike => "all_except_like"
  | .likeOnly => "like_only"
  | .unsearchable => "unsearchable"

def Comparator.name : Comparator → String
  | .eq => "Eq"
  | .ne => "Ne"
  | .lt => "Lt"
  | .le => "Le"
  | .gt => "Gt"
  | .ge => "Ge"

def Table.toJson (t : Table) : Json :=
  .object <|
    ("name", .string t.name) ::
      (Json.member? "name_in_source" (t.nameInSource.map .string) ++
        Json.member? "object_class" (t.objectClass.map .string))

def Column.toJson (c : Column) : Json :=
  .object <|
    ("name", .string c.name) ::
      (Json.member? "name_in_source" (c.nameInSource.map .string) ++
        [("searchability", .string c.searchability.name)])

def Literal.toJson : Literal → Json
  | .null => .null
  | .bool b => .bool b
  | .int n => .int n.toInt
  | .float x => .float x
  | .string s => .string s

def Expr.toJson : Expr → Json
  | .column c => .object [("type", .string "Column"), ("column", c.toJson)]
  | .literal v => .object [("type", .string "Literal"), ("value", v.toJson)]

def SortItem.toJson (item : SortItem) : Json :=
  .object [("expr", item.expr.toJson), ("desc", .bool item.descending)]

mutual

def Condition.toJson : Condition → Json
  | .comparison op column value =>
    .object [("type", .string "Comparison"), ("op", .string op.name), ("column", column.toJson),
      ("value", value.toJson)]
  | .not condition => .object [("type", .string "Not"), ("condition", toJson condition)]
  | .and conditions => .object [("type", .string "And"), ("conditions", .array (toJsonAll conditions))]
  | .or conditions => .object [("type", .string "Or"), ("conditions", .array (toJsonAll conditions))]
  | .like column pattern escape negated =>
    .object <|
      [("type", .string "Like"), ("column", column.toJson), ("pattern", .string pattern)] ++
        Json.member? "escape" (escape.map fun c => .string (.singleton c)) ++
        [("negated", .bool negated)]
  | .inList column values negated =>
    .object [("type", .string "In"), ("column", column.toJson),
      ("values", .array (values.map Literal.toJson)), ("negated", .bool negated)]
  | .isNull column negated =>
    .object [("type", .string "IsNull"), ("column", column.toJson), ("negated", .bool negated)]

def Condition.toJsonAll : List Condition → List Json
  | [] => []
  | condition :: conditions => toJson condition :: toJsonAll conditions

end

def Query.toJson (q : Query) : Json :=
  .object <|
    [("from", .array (q.tables.map Table.toJson)), ("projection", .array (q.projection.map Expr.toJson))] ++
      Json.member? "selection" (q.selection.map Condition.toJson) ++
      Json.member? "order_by" (q.orderBy.map fun items => .array (items.map SortItem.toJson)) ++
      Json.member? "limit" (q.limit.map fun n => .int n.toInt)

/-- The text of a query. -/
def Query.render (q : Query) : String :=
  q.toJson.render .compact

/-- The digest of the text of a query, which tells queries apart in a log. -/
def Query.fingerprint (q : Query) : String :=
  Sha256.hex (Utf8.encode q.render.toList)

end DirectorySearch
