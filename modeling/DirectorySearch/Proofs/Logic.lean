import DirectorySearch.Proofs.Items
import Mathlib.Data.List.Forall2

/-! Truth values for filters. Directories and queries do not agree on what an absent attribute means, so the
    value of a filter is taken in any logic where negations cancel and De Morgan's laws hold. -/

namespace DirectorySearch

universe u v

/-- A logic with groups of any number of parts. De Morgan's other law follows. -/
structure Logic (α : Type u) where
  not : α → α
  all : List α → α
  any : List α → α
  not_not : ∀ a, not (not a) = a
  not_all : ∀ l, not (all l) = any (l.map not)

namespace Logic
variable {α : Type u} {β : Type v} (L : Logic α)

theorem not_any (l : List α) : L.not (L.any l) = L.all (l.map L.not) := by
  have hcancel : (l.map L.not).map L.not = l := by
    simp only [List.map_map, Function.comp_def, L.not_not, List.map_id']
  rw [← L.not_not (L.all _), L.not_all, hcancel]

/-- A value or its negation. -/
def notIf (negated : Bool) (a : α) : α :=
  if negated then L.not a else a

@[simp] theorem notIf_true (a : α) : L.notIf true a = L.not a := rfl

@[simp] theorem notIf_false (a : α) : L.notIf false a = a := rfl

theorem map_notIf_true (l : List α) : l.map (L.notIf true) = l.map L.not := rfl

theorem map_notIf_false (l : List α) : l.map (L.notIf false) = l :=
  List.map_id l

theorem notIf_not (negated : Bool) (a : α) : L.notIf negated (L.not a) = L.notIf (!negated) a := by
  cases negated with
  | false => rfl
  | true => exact L.not_not a

theorem notIf_notIf (negated negated' : Bool) (a : α) :
    L.notIf negated (L.notIf negated' a) = L.notIf (negated' ^^ negated) a := by
  cases negated' with
  | false => rw [Bool.false_xor, notIf_false]
  | true => rw [Bool.true_xor, notIf_true, notIf_not]

/-! ### Two operands at a time -/

/-- A group under an operation on two values, from the right. An empty group has the value `unit`. -/
def fold (op : α → α → α) (unit : α) : List α → α
  | [] => unit
  | [a] => a
  | a :: b :: l => op a (fold op unit (b :: l))

theorem map_fold {op : α → α → α} {op' : β → β → β} {unit : α} {f : α → β}
    (h : ∀ a b, f (op a b) = op' (f a) (f b)) : ∀ l : List α, f (fold op unit l) = fold op' (f unit) (l.map f)
  | [] => rfl
  | [_] => rfl
  | a :: b :: l => by
    rw [fold, h, map_fold h (b :: l)]
    rfl

/-- Groups are related where their parts are, one by one. -/
theorem rel_fold {r : α → β → Prop} {op : α → α → α} {op' : β → β → β} {unit : α} {unit' : β} (hunit : r unit unit')
    (hop : ∀ {a b a' b'}, r a a' → r b b' → r (op a b) (op' a' b')) {l : List α} {l' : List β}
    (h : List.Forall₂ r l l') : r (fold op unit l) (fold op' unit' l') := by
  induction h with
  | nil => exact hunit
  | cons ha hl ih =>
    cases hl with
    | nil => exact ha
    | cons hb hl => exact hop ha ih

/-- The logic of operations on two values that satisfy De Morgan's law. -/
def ofBinary (not : α → α) (and or : α → α → α) (unit : α) (not_not : ∀ a, not (not a) = a)
    (not_and : ∀ a b, not (and a b) = or (not a) (not b)) : Logic α where
  not := not
  all := fold and unit
  any := fold or (not unit)
  not_not := not_not
  not_all := map_fold not_and

def boolean : Logic Bool :=
  ofBinary (!·) (· && ·) (· || ·) true Bool.not_not Bool.not_and

end Logic

/-! ### Three values -/

/-- What is known of a statement about an entry that may lack the attribute. -/
inductive Truth where
  | known (b : Bool)
  | unknown
deriving Repr, BEq, DecidableEq

namespace Truth

def not : Truth → Truth
  | .known b => .known !b
  | .unknown => .unknown

/-- False where one side is, whatever the other. -/
def and : Truth → Truth → Truth
  | .known false, _ => .known false
  | _, .known false => .known false
  | .known true, .known true => .known true
  | _, _ => .unknown

/-- True where one side is, whatever the other. -/
def or : Truth → Truth → Truth
  | .known true, _ => .known true
  | _, .known true => .known true
  | .known false, .known false => .known false
  | _, _ => .unknown

theorem not_not (a : Truth) : a.not.not = a := by
  cases a with
  | known b => rw [not, not, Bool.not_not]
  | unknown => rfl

theorem not_and (a b : Truth) : (a.and b).not = a.not.or b.not := by
  rcases a with (_ | _) | _ <;> rcases b with (_ | _) | _ <;> rfl

def logic : Logic Truth :=
  .ofBinary not and or (.known true) not_not not_and

end Truth

/-! ### Values of filters -/

namespace FilterTree
variable {α : Type u} {β : Type}

mutual

/-- The value of a filter whose items have the values `assign`. -/
def eval (L : Logic α) (assign : Item β → α) : FilterTree β → α
  | .and parts => L.all (evalAll L assign parts)
  | .or parts => L.any (evalAll L assign parts)
  | .not part => L.not (eval L assign part)
  | .compare relation attr value => assign (.compare relation attr value)
  | .present attr => assign (.present attr)
  | .substrings attr initial any final => assign (.substrings attr initial any final)

def evalAll (L : Logic α) (assign : Item β → α) : List (FilterTree β) → List α
  | [] => []
  | part :: parts => eval L assign part :: evalAll L assign parts

end

@[simp] theorem eval_toFilter (L : Logic α) (assign : Item β → α) (i : Item β) :
    eval L assign i.toFilter = assign i := by
  cases i <;> rfl

end FilterTree

end DirectorySearch
