import DirectorySearch.Proofs.Except
import DirectorySearch.Proofs.NormalForm
import DirectorySearch.Search.Selection

/-! Which conditions cannot be written down, and why. A leaf fails for what it asks about, whichever way it is
    turned, and a group only fails when it is empty or a part of it does. So a condition fails at its first
    part with a fault, as it stands and with its negations moved alike. -/

namespace DirectorySearch

open Selection

variable {policy : UnsearchablePolicy}

/-! ### Faults -/

/-- What is wrong with a condition, whatever is wrong with those inside it: a leaf cannot be written, or a group
    is empty. -/
def Condition.fault? (policy : UnsearchablePolicy) : Condition → Option Problem
  | .not _ => none
  | .and conditions | .or conditions => if conditions.isEmpty then some .emptyGroup else none
  | leaf => error? (fragment policy leaf)

/-- What is wrong with a part. -/
def Condition.Part.fault? (policy : UnsearchablePolicy) (part : Condition.Part) : Option Problem :=
  part.condition.fault? policy

namespace Selection

/-! ### Leaves either way -/

theorem error?_comparison (op op' : Comparator) (column : Column) (value : Literal) :
    error? (comparison policy op column value) = error? (comparison policy op' column value) := by
  refine error?_bind_congr fun _ => error?_bind_congr fun attr => error?_bind_congr fun text => ?_
  cases op <;> cases op' <;> rfl

theorem error?_like (column : Column) (pattern : String) (escape : Option Char) (negated negated' : Bool) :
    error? (like policy column pattern escape negated) = error? (like policy column pattern escape negated') :=
  error?_bind_congr fun _ => error?_bind_congr fun _ => error?_bind_congr fun _ => rfl

theorem error?_inList (column : Column) (values : List Literal) (negated negated' : Bool) :
    error? (inList policy column values negated) = error? (inList policy column values negated') := by
  cases values with
  | nil => rfl
  | cons value values => exact error?_bind_congr fun _ => rfl

theorem error?_isNull (column : Column) (negated negated' : Bool) :
    error? (isNull policy column negated) = error? (isNull policy column negated') :=
  error?_bind_congr fun _ => error?_bind_congr fun _ => rfl

/-! ### Groups -/

theorem error?_group (mark : Char) (conditions : List Condition) :
    error? (group policy mark conditions) =
      (if conditions.isEmpty then some .emptyGroup else none).or (error? (fragments policy conditions)) := by
  cases conditions with
  | nil => rfl
  | cons condition conditions =>
    rw [List.isEmpty_cons, if_neg Bool.false_ne_true, Option.none_or, group_cons, error?_bind_pure]

/-- A group does not fail for its mark, only for being empty or for its parts. -/
theorem error?_group_congr {mark mark' : Char} {conditions conditions' : List Condition}
    (hempty : conditions.isEmpty = conditions'.isEmpty)
    (h : error? (fragments policy conditions) = error? (fragments policy conditions')) :
    error? (group policy mark conditions) = error? (group policy mark' conditions') := by
  rw [error?_group, error?_group, hempty, h]

theorem isEmpty_normalAll (negate : Bool) (conditions : List Condition) :
    (Condition.normalAll negate conditions).isEmpty = conditions.isEmpty := by
  cases conditions <;> rfl

/-! ### Whole conditions -/

theorem error?_leaf {c : Condition} (hc : c.isLeaf = true) (nots : Nat) :
    error? (fragment policy c) = (c.partsUnder nots).findSome? (Condition.Part.fault? policy) := by
  have hfault : c.fault? policy = error? (fragment policy c) := by
    cases c <;> simp_all [Condition.isLeaf, Condition.fault?]
  rw [Condition.partsUnder_leaf hc, findSome?_cons_or, List.findSome?_nil, Option.or_none, Condition.Part.fault?, hfault]

mutual

/-- A condition fails for what is wrong with the first of its parts that has a fault. -/
theorem error?_fragment : ∀ (c : Condition) (nots : Nat),
    error? (fragment policy c) = (c.partsUnder nots).findSome? (Condition.Part.fault? policy)
  | .not condition, nots => by
    rw [fragment, error?_bind_pure, error?_fragment condition (nots + 1)]
    rfl
  | .and conditions, nots => by
    rw [fragment, error?_group, error?_fragments conditions nots, Condition.partsUnder, findSome?_cons_or]
    rfl
  | .or conditions, nots => by
    rw [fragment, error?_group, error?_fragments conditions nots, Condition.partsUnder, findSome?_cons_or]
    rfl
  | .comparison .., nots => error?_leaf rfl nots
  | .like .., nots => error?_leaf rfl nots
  | .inList .., nots => error?_leaf rfl nots
  | .isNull .., nots => error?_leaf rfl nots

theorem error?_fragments : ∀ (conditions : List Condition) (nots : Nat),
    error? (fragments policy conditions) =
      (Condition.allPartsUnder nots conditions).findSome? (Condition.Part.fault? policy)
  | [], _ => rfl
  | condition :: conditions, nots => by
    rw [fragments, error?_bind_bind_pure, Condition.allPartsUnder, List.findSome?_append,
      error?_fragment condition nots, error?_fragments conditions nots]

end

mutual

/-- Moving the negations does not change what a condition fails for. -/
theorem error?_fragment_normal : ∀ (c : Condition) (negate : Bool),
    error? (fragment policy (c.normal negate)) = error? (fragment policy c)
  | .not condition, negate => by
    rw [fragment, error?_bind_pure]
    exact error?_fragment_normal condition !negate
  | .and conditions, negate => by
    cases negate <;>
      exact error?_group_congr (isEmpty_normalAll _ conditions) (error?_fragments_normalAll conditions _)
  | .or conditions, negate => by
    cases negate <;>
      exact error?_group_congr (isEmpty_normalAll _ conditions) (error?_fragments_normalAll conditions _)
  | .comparison op column value, _ => error?_comparison _ op column value
  | .like column pattern escape negated, _ => error?_like column pattern escape _ negated
  | .inList column values negated, _ => error?_inList column values _ negated
  | .isNull column negated, _ => error?_isNull column _ negated

theorem error?_fragments_normalAll : ∀ (conditions : List Condition) (negate : Bool),
    error? (fragments policy (Condition.normalAll negate conditions)) = error? (fragments policy conditions)
  | [], _ => rfl
  | condition :: conditions, negate => by
    rw [Condition.normalAll, fragments, fragments, error?_bind_bind_pure, error?_bind_bind_pure,
      error?_fragment_normal condition negate, error?_fragments_normalAll conditions negate]

end

/-- A condition is written either way or fails either way, as it stands and with its negations moved. It fails
    where it has a part with a fault, an empty group or a leaf that cannot be written by itself, and for what
    is wrong with the first such part. -/
theorem compile_fails_at_first_fault (policy : UnsearchablePolicy) (c : Condition) :
    ((∃ s t, compile policy (some c) = .ok s ∧ fragment policy c = .ok t) ∨
        ∃ e, compile policy (some c) = .error e ∧ fragment policy c = .error e) ∧
      ((∃ e, fragment policy c = .error e) ↔ ∃ part ∈ c.parts, ∃ e, part.fault? policy = some e) ∧
      ∀ e, fragment policy c = .error e ↔ ∃ before part after, c.parts = before ++ part :: after ∧
        part.fault? policy = some e ∧ ∀ earlier ∈ before, earlier.fault? policy = none := by
  have hsame : error? (compile policy (some c)) = error? (fragment policy c) := error?_fragment_normal c false
  have hfirst : error? (fragment policy c) = c.parts.findSome? (Condition.Part.fault? policy) := error?_fragment c 0
  refine ⟨?_, ?_, fun e => ?_⟩
  · cases hfragment : fragment policy c with
    | error e =>
      rw [hfragment, error?_error, error?_eq_some] at hsame
      exact .inr ⟨e, hsame, rfl⟩
    | ok t =>
      cases hcompile : compile policy (some c) with
      | error e => rw [hcompile, hfragment] at hsame; cases hsame
      | ok s => exact .inl ⟨s, t, rfl, rfl⟩
  · simp only [← error?_eq_some, hfirst, ← Option.isSome_iff_exists, List.findSome?_isSome_iff]
  · rw [← error?_eq_some, hfirst, List.findSome?_eq_some_iff]

-- The first of three faults decides, whichever way the negation turns the groups.
example : error? (compile .reject (some (.not (.and [.or [.missing { name := "cn" }, .matching { name := "cn" } "a_"],
    .or [], .equals { name := "cn" } .null])))) = some .singleWildcard := by decide +kernel

end Selection

end DirectorySearch
