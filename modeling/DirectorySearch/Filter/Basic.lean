/-!
Search filters: the conditions that a directory checks against an entry.

`FilterTree` leaves open what an assertion value is. The reader first builds a tree over values as
they are written, with their escapes; a `Filter` holds the texts that these stand for.
-/

namespace DirectorySearch

/-- How an item compares an attribute with its assertion value. -/
inductive Relation where
  | equal
  | greaterOrEqual
  | lessOrEqual
  | approx
deriving Repr, BEq, DecidableEq

/-- The mark between the attribute and the value of an item. -/
def Relation.symbol : Relation → List Char
  | .equal => ['=']
  | .greaterOrEqual => ['>', '=']
  | .lessOrEqual => ['<', '=']
  | .approx => ['~', '=']

/-- A filter with assertion values of type `α`. A substring item asks for a start, for pieces in
    order after it, and for an end, each of which may be left open. -/
inductive FilterTree (α : Type) where
  | and (parts : List (FilterTree α))
  | or (parts : List (FilterTree α))
  | not (part : FilterTree α)
  | compare (relation : Relation) (attr : String) (value : α)
  | present (attr : String)
  | substrings (attr : String) (initial : Option α) (any : List α) (final : Option α)
deriving Repr, BEq

abbrev Filter := FilterTree String

namespace FilterTree

variable {α β : Type}

mutual

/-- The number of components: one for each pair of parentheses in the written form. -/
def size : FilterTree α → Nat
  | .and parts => 1 + sizeAll parts
  | .or parts => 1 + sizeAll parts
  | .not part => 1 + size part
  | .compare .. => 1
  | .present _ => 1
  | .substrings .. => 1

def sizeAll : List (FilterTree α) → Nat
  | [] => 0
  | part :: parts => size part + sizeAll parts

end

mutual

/-- Reads every assertion value, from left to right, and keeps the shape. The first value that
    cannot be read decides. -/
def traverse {ε : Type} (read : α → Except ε β) : FilterTree α → Except ε (FilterTree β)
  | .and parts => return .and (← traverseAll read parts)
  | .or parts => return .or (← traverseAll read parts)
  | .not part => return .not (← traverse read part)
  | .compare relation attr value => return .compare relation attr (← read value)
  | .present attr => return .present attr
  | .substrings attr initial any final => do
    let initial ← initial.mapM read
    let any ← any.mapM read
    let final ← final.mapM read
    return .substrings attr initial any final

def traverseAll {ε : Type} (read : α → Except ε β) : List (FilterTree α) → Except ε (List (FilterTree β))
  | [] => return []
  | part :: parts => do
    let part ← traverse read part
    return part :: (← traverseAll read parts)

end

end FilterTree

end DirectorySearch
