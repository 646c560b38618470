import DirectorySearch.Search.Negation
import Mathlib.Algebra.Group.Nat.Even

/-! The parts of a condition, and what moving negations to the leaves makes of them. A normal form has no
    negations left, a second normal form is decided by the two signs together, and the leaves keep their
    order: only those under an odd number of negations turn into their opposites. -/

namespace DirectorySearch

theorem Comparator.complement_complement (op : Comparator) : op.complement.complement = op := by
  cases op <;> rfl

namespace Condition

/-! ### Parts -/

/-- A condition inside another, and how many negations it stands under there. -/
structure Part where
  nots : Nat
  condition : Condition

mutual

/-- A condition under `nots` negations and all that is inside it, depth first and from left to right. -/
def partsUnder (nots : Nat) : Condition → List Part
  | .comparison op column value => [⟨nots, .comparison op column value⟩]
  | .not condition => ⟨nots, .not condition⟩ :: partsUnder (nots + 1) condition
  | .and conditions => ⟨nots, .and conditions⟩ :: allPartsUnder nots conditions
  | .or conditions => ⟨nots, .or conditions⟩ :: allPartsUnder nots conditions
  | .like column pattern escape negated => [⟨nots, .like column pattern escape negated⟩]
  | .inList column values negated => [⟨nots, .inList column values negated⟩]
  | .isNull column negated => [⟨nots, .isNull column negated⟩]

def allPartsUnder (nots : Nat) : List Condition → List Part
  | [] => []
  | condition :: conditions => partsUnder nots condition ++ allPartsUnder nots conditions

end

/-- A condition and all that is inside it. -/
def parts (c : Condition) : List Part :=
  c.partsUnder 0

def isNegation : Condition → Bool
  | .not _ => true
  | _ => false

/-- Whether a condition asks about a column itself. -/
def isLeaf : Condition → Bool
  | .not _ | .and _ | .or _ => false
  | _ => true

/-- The leaves from left to right. -/
def leaves (c : Condition) : List Part :=
  c.parts.filter (·.condition.isLeaf)

/-- No part is a negation of another condition. -/
def NegationFree (c : Condition) : Prop :=
  ∀ part ∈ c.parts, part.condition.isNegation = false

instance (c : Condition) : Decidable c.NegationFree :=
  inferInstanceAs (Decidable (∀ part ∈ c.parts, part.condition.isNegation = false))

/-- The leaf that holds where the given one does not. -/
def opposite : Condition → Condition
  | .comparison op column value => .comparison op.complement column value
  | .like column pattern escape negated => .like column pattern escape !negated
  | .inList column values negated => .inList column values !negated
  | .isNull column negated => .isNull column !negated
  | c => c

/-- What a part becomes when the negations above it are moved into it. -/
def Part.turned (part : Part) : Condition :=
  if Even part.nots then part.condition else part.condition.opposite

theorem partsUnder_leaf {c : Condition} (hc : c.isLeaf = true) (nots : Nat) : c.partsUnder nots = [⟨nots, c⟩] := by
  cases c <;> simp_all [isLeaf, partsUnder]

/-! ### Normal forms -/

mutual

/-- A normal form of a normal form is decided by the two signs together. -/
theorem normal_normal : ∀ (c : Condition) (negate negate' : Bool),
    (c.normal negate).normal negate' = c.normal (negate ^^ negate')
  | .comparison op column value, negate, negate' => by
    cases negate <;> cases negate' <;> simp [normal, op.complement_complement]
  | .not condition, negate, negate' => by
    rw [normal, normal, normal_normal condition, Bool.not_xor]
  | .and conditions, negate, negate' => by
    cases negate <;> cases negate' <;> simp [normal, normalAll_normalAll conditions]
  | .or conditions, negate, negate' => by
    cases negate <;> cases negate' <;> simp [normal, normalAll_normalAll conditions]
  | .like column pattern escape negated, negate, negate' => by simp only [normal, Bool.xor_assoc]
  | .inList column values negated, negate, negate' => by simp only [normal, Bool.xor_assoc]
  | .isNull column negated, negate, negate' => by simp only [normal, Bool.xor_assoc]

theorem normalAll_normalAll : ∀ (conditions : List Condition) (negate negate' : Bool),
    normalAll negate' (normalAll negate conditions) = normalAll (negate ^^ negate') conditions
  | [], _, _ => rfl
  | condition :: conditions, negate, negate' => by
    rw [normalAll, normalAll, normalAll, normal_normal condition, normalAll_normalAll conditions]

end

mutual

theorem isNegation_of_mem_normal : ∀ (c : Condition) (negate : Bool) (nots : Nat),
    ∀ part ∈ (c.normal negate).partsUnder nots, part.condition.isNegation = false
  | .not condition, negate, nots => isNegation_of_mem_normal condition (!negate) nots
  | .and conditions, negate, nots => by
    cases negate <;> exact List.forall_mem_cons.mpr ⟨rfl, isNegation_of_mem_normalAll conditions _ nots⟩
  | .or conditions, negate, nots => by
    cases negate <;> exact List.forall_mem_cons.mpr ⟨rfl, isNegation_of_mem_normalAll conditions _ nots⟩
  | .comparison .., _, _ => List.forall_mem_singleton.mpr rfl
  | .like .., _, _ => List.forall_mem_singleton.mpr rfl
  | .inList .., _, _ => List.forall_mem_singleton.mpr rfl
  | .isNull .., _, _ => List.forall_mem_singleton.mpr rfl

theorem isNegation_of_mem_normalAll : ∀ (conditions : List Condition) (negate : Bool) (nots : Nat),
    ∀ part ∈ allPartsUnder nots (normalAll negate conditions), part.condition.isNegation = false
  | [], _, _ => by simp [normalAll, allPartsUnder]
  | condition :: conditions, negate, nots => List.forall_mem_append.mpr
    ⟨isNegation_of_mem_normal condition negate nots, isNegation_of_mem_normalAll conditions negate nots⟩

end

mutual

/-- Where there is nothing to move, nothing moves. -/
theorem normal_eq_self : ∀ (c : Condition) {nots : Nat},
    (∀ part ∈ c.partsUnder nots, part.condition.isNegation = false) → c.normal false = c
  | .not condition, nots, h => by
    have hnot : (Condition.not condition).isNegation = false := h ⟨nots, _⟩ List.mem_cons_self
    cases hnot
  | .and conditions, nots, h => by
    have hparts := (List.forall_mem_cons.mp h).2
    simp [normal, normalAll_eq_self conditions hparts]
  | .or conditions, nots, h => by
    have hparts := (List.forall_mem_cons.mp h).2
    simp [normal, normalAll_eq_self conditions hparts]
  | .comparison .., _, _ => by simp [normal]
  | .like .., _, _ => by simp [normal]
  | .inList .., _, _ => by simp [normal]
  | .isNull .., _, _ => by simp [normal]

theorem normalAll_eq_self : ∀ (conditions : List Condition) {nots : Nat},
    (∀ part ∈ allPartsUnder nots conditions, part.condition.isNegation = false) →
      normalAll false conditions = conditions
  | [], _, _ => rfl
  | condition :: conditions, nots, h => by
    obtain ⟨hfirst, hothers⟩ := List.forall_mem_append.mp h
    rw [normalAll, normal_eq_self condition hfirst, normalAll_eq_self conditions hothers]

end

/-! ### Leaves -/

theorem leaves_leaf {c : Condition} (hc : c.isLeaf = true) (nots : Nat) :
    (c.partsUnder nots).filter (·.condition.isLeaf) = [⟨nots, c⟩] := by
  rw [partsUnder_leaf hc]
  exact List.filter_cons_of_pos hc

theorem normal_leaf {c : Condition} (hc : c.isLeaf = true) (negate : Bool) :
    c.normal negate = if negate then c.opposite else c := by
  cases c <;> cases negate <;> simp_all [isLeaf, normal, opposite]

theorem isLeaf_normal {c : Condition} (hc : c.isLeaf = true) (negate : Bool) : (c.normal negate).isLeaf = true := by
  cases c <;> simp_all [isLeaf, normal]

/-- A leaf under as many negations as the sign stands for. -/
theorem leaves_normal_leaf {c : Condition} (hc : c.isLeaf = true) {negate : Bool} {nots : Nat} (nots' : Nat)
    (h : negate = false ↔ Even nots) :
    (((c.normal negate).partsUnder nots').filter (·.condition.isLeaf)).map Part.condition =
      ((c.partsUnder nots).filter (·.condition.isLeaf)).map Part.turned := by
  rw [leaves_leaf (isLeaf_normal hc negate), leaves_leaf hc, List.map_singleton, List.map_singleton, normal_leaf hc,
    Part.turned]
  cases negate with
  | false => rw [if_pos (h.mp rfl), if_neg Bool.false_ne_true]
  | true =>
    have hodd : ¬Even nots := fun heven => Bool.noConfusion (h.mpr heven)
    rw [if_neg hodd, if_pos rfl]

mutual

/-- The sign of a normal form stands for the negations above: its leaves are those of the condition, each turned
    as the negations above it ask. -/
theorem leaves_normal : ∀ (c : Condition) {negate : Bool} {nots : Nat} (nots' : Nat), (negate = false ↔ Even nots) →
    (((c.normal negate).partsUnder nots').filter (·.condition.isLeaf)).map Part.condition =
      ((c.partsUnder nots).filter (·.condition.isLeaf)).map Part.turned
  | .not condition, negate, nots, nots', h => by
    have hnext : (!negate) = false ↔ Even (nots + 1) := by
      rw [Nat.even_add_one, ← h, Bool.not_eq_false', Bool.not_eq_false]
    exact leaves_normal condition nots' hnext
  | .and conditions, negate, nots, nots', h => by
    cases negate <;> exact leaves_normalAll conditions nots' h
  | .or conditions, negate, nots, nots', h => by
    cases negate <;> exact leaves_normalAll conditions nots' h
  | .comparison .., _, _, nots', h => leaves_normal_leaf rfl nots' h
  | .like .., _, _, nots', h => leaves_normal_leaf rfl nots' h
  | .inList .., _, _, nots', h => leaves_normal_leaf rfl nots' h
  | .isNull .., _, _, nots', h => leaves_normal_leaf rfl nots' h

theorem leaves_normalAll : ∀ (conditions : List Condition) {negate : Bool} {nots : Nat} (nots' : Nat),
    (negate = false ↔ Even nots) →
      ((allPartsUnder nots' (normalAll negate conditions)).filter (·.condition.isLeaf)).map Part.condition =
        ((allPartsUnder nots conditions).filter (·.condition.isLeaf)).map Part.turned
  | [], _, _, _, _ => rfl
  | condition :: conditions, negate, nots, nots', h => by
    rw [normalAll, allPartsUnder, allPartsUnder, List.filter_append, List.filter_append, List.map_append,
      List.map_append, leaves_normal condition nots' h, leaves_normalAll conditions nots' h]

end

/-- The normal form of a condition is one: it has no negations, what has none is its own normal form, a negation
    may be moved before or after another, and the leaves are those of the condition, each turned into its
    opposite under an odd number of negations. -/
theorem negationNormal_is_normal (c : Condition) :
    c.negationNormal.NegationFree ∧ (c.NegationFree → c.negationNormal = c) ∧
      c.negationNormal.negationNormal = c.negationNormal ∧
      (Condition.not (Condition.not c).negationNormal).negationNormal = c.negationNormal ∧
      (Condition.not c.negationNormal).negationNormal = (Condition.not c).negationNormal ∧
      c.negationNormal.leaves.map Part.condition = c.leaves.map Part.turned := by
  refine ⟨isNegation_of_mem_normal c false 0, normal_eq_self c, normal_normal c false false, ?_, ?_, ?_⟩
  · exact normal_normal c true true
  · exact normal_normal c false true
  · exact leaves_normal c 0 (iff_of_true rfl Even.zero)

theorem negationNormal_is_normal_nested :
    let age : Column := { name := "age" }
    let c : Condition := .not (.and [.not (.or [.comparison .lt age (.string "9"), .missing age]),
      .among age [.string "3", .string "4"]])
    let d : Condition := .or [.or [.comparison .lt age (.string "9"), .missing age],
      .inList age [.string "3", .string "4"] true]
    c.negationNormal = d ∧ d.NegationFree ∧ d.negationNormal = d ∧
      d.leaves.map Part.condition = c.leaves.map Part.turned := by
  intro age c d
  have hnormal : c.negationNormal = d := rfl
  obtain ⟨hfree, -, -, -, -, hleaves⟩ := negationNormal_is_normal c
  rw [hnormal] at hfree hleaves
  exact ⟨hnormal, hfree, (negationNormal_is_normal d).2.1 hfree, hleaves⟩

end Condition

end DirectorySearch
