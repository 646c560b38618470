import DirectorySearch.Query.Basic

/-!
Conditions without negations of other conditions.

Negation moves inward: groups swap, a comparison takes its complement, and the other conditions turn
their own flag.
-/

namespace DirectorySearch.Condition

mutual

/-- The condition with every negation moved to the leaves, or its opposite in the same form. -/
def normal (negate : Bool) : Condition → Condition
  | .not condition => normal (!negate) condition
  | .and conditions => if negate then .or (normalAll negate conditions) else .and (normalAll negate conditions)
  | .or conditions => if negate then .and (normalAll negate conditions) else .or (normalAll negate conditions)
  | .comparison op column value => .comparison (if negate then op.complement else op) column value
  | .like column pattern escape negated => .like column pattern escape (negated ^^ negate)
  | .inList column values negated => .inList column values (negated ^^ negate)
  | .isNull column negated => .isNull column (negated ^^ negate)

def normalAll (negate : Bool) : List Condition → List Condition
  | [] => []
  | condition :: conditions => normal negate condition :: normalAll negate conditions

end

/-- The condition with every negation moved to the leaves. -/
def negationNormal (condition : Condition) : Condition :=
  condition.normal false

end DirectorySearch.Condition
