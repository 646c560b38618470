import DirectorySearch.Json.Form
import DirectorySearch.Query.Basic

/-!
Reading queries from JSON text.

Conditions and expressions tell their kind by the member `type`. A literal tells its kind by the
kind of its JSON value: a whole number that does not fit is taken as the nearest double.
-/

namespace DirectorySearch

open Json (Form Field Content)

def Searchability.form : Form Searchability :=
  .name [("searchable", .searchable), ("all_except_like", .allExceptLike), ("like_only", .likeOnly),
    ("unsearchable", .unsearchable)]

def Comparator.form : Form Comparator :=
  .name [("Eq", .eq), ("Ne", .ne), ("Lt", .lt), ("Le", .le), ("Gt", .gt), ("Ge", .ge)]

namespace Table

def fields : List Field :=
  [⟨"name", String, .string⟩, ⟨"name_in_source", Option String, .optional .string⟩,
    ⟨"object_class", Option String, .optional .string⟩]

def form : Form Table :=
  .record fields fun (name, source, objectClass, _) => do
    return ⟨← name, source.join, objectClass.join⟩

end Table

namespace Column

def fields : List Field :=
  [⟨"name", String, .string⟩, ⟨"name_in_source", Option String, .optional .string⟩,
    ⟨"searchability", Searchability, Searchability.form⟩]

def form : Form Column :=
  .record fields fun (name, source, searchability, _) => do
    return ⟨← name, source.join, searchability.getD .searchable⟩

end Column

/-- The literal that a JSON value stands for. -/
def Literal.ofJson? : Json → Option Literal
  | .null => some .null
  | .bool b => some (.bool b)
  | .int n =>
    match Form.int64? n with
    | some n => some (.int n)
    | none => (FiniteDouble.nearest? (n < 0) n.natAbs 0).map fun x => .float (.finite x)
  | .float x => some (.float x)
  | .string s => some (.string s)
  | .array _ => none
  | .object _ => none

def Literal.form : Form Literal :=
  .ofBuffered Literal.ofJson?

namespace Expr

inductive Kind where
  | column
  | literal
deriving Repr, DecidableEq

def form : Form Expr :=
  .tagged [("Column", Kind.column), ("Literal", Kind.literal)] fun
    | .column =>
      Content.read [⟨"column", Column, Column.form⟩] fun (named, _) => do return .column (← named)
    | .literal =>
      Content.read [⟨"value", Literal, Literal.form⟩] fun (value, _) => do return .literal (← value)

end Expr

namespace SortItem

def fields : List Field :=
  [⟨"expr", Expr, Expr.form⟩, ⟨"desc", Bool, .bool⟩]

def form : Form SortItem :=
  .record fields fun (expr, descending, _) => do return ⟨← expr, descending.getD false⟩

end SortItem

namespace Condition

inductive Kind where
  | comparison
  | not
  | and
  | or
  | like
  | inList
  | isNull
deriving Repr, DecidableEq

def kinds : Form.Names Kind :=
  [("Comparison", .comparison), ("Not", .not), ("And", .and), ("Or", .or), ("Like", .like),
    ("In", .inList), ("IsNull", .isNull)]

/-- Reads a condition of a given kind from its parts, with `inner` for the conditions in it. -/
def make (inner : Form Condition) : Kind → Content → Option Condition
  | .comparison =>
    Content.read [⟨"op", Comparator, Comparator.form⟩, ⟨"column", Column, Column.form⟩,
        ⟨"value", Literal, Literal.form⟩]
      fun (op, column, value, _) => do return .comparison (← op) (← column) (← value)
  | .not =>
    Content.read [⟨"condition", Condition, inner⟩] fun (condition, _) => do return .not (← condition)
  | .and =>
    Content.read [⟨"conditions", List Condition, .list inner⟩]
      fun (conditions, _) => do return .and (← conditions)
  | .or =>
    Content.read [⟨"conditions", List Condition, .list inner⟩]
      fun (conditions, _) => do return .or (← conditions)
  | .like =>
    Content.read [⟨"column", Column, Column.form⟩, ⟨"pattern", String, .string⟩,
        ⟨"escape", Option Char, .optional .char⟩, ⟨"negated", Bool, .bool⟩]
      fun (column, pattern, escape, negated, _) => do
        return .like (← column) (← pattern) escape.join (negated.getD false)
  | .inList =>
    Content.read [⟨"column", Column, Column.form⟩, ⟨"values", List Literal, .list Literal.form⟩,
        ⟨"negated", Bool, .bool⟩]
      fun (column, values, negated, _) => do
        return .inList (← column) (← values) (negated.getD false)
  | .isNull =>
    Content.read [⟨"column", Column, Column.form⟩, ⟨"negated", Bool, .bool⟩]
      fun (column, negated, _) => do return .isNull (← column) (negated.getD false)

/-- Conditions nested at most so deep. -/
def formWithin : Nat → Form Condition
  | 0 => .ofBuffered fun _ => none
  | depth + 1 => .tagged kinds (make (formWithin depth))

/-- No text nests deeper than `Json.maxDepth`, so no condition in one does. -/
def form : Form Condition :=
  formWithin Json.maxDepth

end Condition

namespace Query

def fields : List Field :=
  [⟨"from", List Table, .list Table.form⟩, ⟨"projection", List Expr, .list Expr.form⟩,
    ⟨"selection", Option Condition, .optional Condition.form⟩,
    ⟨"order_by", Option (List SortItem), .optional (.list SortItem.form)⟩,
    ⟨"limit", Option Int64, .optional .int64⟩]

def form : Form Query :=
  .record fields fun (tables, projection, selection, orderBy, limit, _) => do
    return ⟨← tables, projection.getD [], selection.join, orderBy.join, limit.join⟩

/-- Reads a query from its text. -/
def parse (text : String) : Json.Reading Query :=
  form.read text

end Query

end DirectorySearch
