import DirectorySearch.Proofs.Columns
import DirectorySearch.Proofs.NormalForm

/-! What the policy for columns that must not be searched decides. It lets conditions through or not, and has no say
    in their text: what is rejected of a condition is told by the columns of its leaves alone. -/

namespace DirectorySearch

/-- Columns that differ in how they may be used only. -/
def Column.SameButSearchability (a b : Column) : Prop :=
  a.name = b.name ∧ a.nameInSource = b.nameInSource

/-- The column of a leaf may be used as the leaf uses it. -/
def Condition.Permitted : Condition → Prop
  | .comparison _ column _ | .inList column _ _ | .isNull column _ =>
    column.searchability = .searchable ∨ column.searchability = .allExceptLike
  | .like column _ _ _ => column.searchability = .searchable ∨ column.searchability = .likeOnly
  | .not _ | .and _ | .or _ => True

instance : ∀ c : Condition, Decidable c.Permitted
  | .comparison .. | .inList .. | .isNull .. | .like .. => inferInstanceAs (Decidable (_ ∨ _))
  | .not _ | .and _ | .or _ => inferInstanceAs (Decidable True)

/-! ### Gates -/

/-- A computation gives what another does where `p` holds, and nothing elsewhere. -/
def Gated {α : Type} (p : Prop) (x y : Except Problem α) : Prop :=
  ∀ a, x = .ok a ↔ y = .ok a ∧ p

namespace Gated
variable {α β γ : Type} {p q : Prop} {x y : Except Problem α} {x' y' : Except Problem β}

theorem error (p : Prop) (e e' : Problem) : Gated p (.error e : Except Problem α) (.error e') := by
  intro a
  constructor
  · rintro ⟨⟩
  · rintro ⟨⟨⟩, -⟩

theorem congr (h : Gated p x y) (hpq : p ↔ q) : Gated q x y :=
  fun a => (h a).trans (and_congr_right' hpq)

theorem map (h : Gated p x y) (f : α → β) : Gated p (x >>= fun a => pure (f a)) (y >>= fun a => pure (f a)) := by
  intro b
  simp only [bind_eq_ok, pure_eq_ok, h _]
  constructor
  · rintro ⟨a, ⟨ha, hp⟩, rfl⟩
    exact ⟨⟨a, ha, rfl⟩, hp⟩
  · rintro ⟨⟨a, ha, rfl⟩, hp⟩
    exact ⟨a, ⟨ha, hp⟩, rfl⟩

/-- Two computations in a row pass both gates. -/
theorem both (h : Gated p x y) (h' : Gated q x' y') (f : α → β → γ) :
    Gated (p ∧ q) (x >>= fun a => x' >>= fun b => pure (f a b)) (y >>= fun a => y' >>= fun b => pure (f a b)) := by
  intro c
  simp only [bind_eq_ok, pure_eq_ok, h _, h' _]
  constructor
  · rintro ⟨a, ⟨ha, hp⟩, b, ⟨hb, hq⟩, rfl⟩
    exact ⟨⟨a, ha, b, hb, rfl⟩, hp, hq⟩
  · rintro ⟨⟨a, ha, b, hb, rfl⟩, hp, hq⟩
    exact ⟨a, ⟨ha, hp⟩, b, ⟨hb, hq⟩, rfl⟩

end Gated

/-! ### Usage of a column -/

namespace Column

theorem allows_comparison_iff (column : Column) :
    column.allows .comparison = true ↔ column.searchability = .searchable ∨ column.searchability = .allExceptLike := by
  unfold allows Searchability.allowsComparison
  cases column.searchability <;> simp

theorem allows_like_iff (column : Column) :
    column.allows .like = true ↔ column.searchability = .searchable ∨ column.searchability = .likeOnly := by
  unfold allows Searchability.allowsLike
  cases column.searchability <;> simp

theorem checkUsage_allow (column : Column) (usage : Usage) : column.checkUsage .allow usage = .ok () := by
  unfold checkUsage
  split <;> rfl

/-- What comes after the check does not depend on the policy. -/
theorem gated_checkUsage {α : Type} (column : Column) (usage : Usage) (next : Unit → Except Problem α) :
    Gated (column.allows usage = true) (column.checkUsage .reject usage >>= next)
      (column.checkUsage .allow usage >>= next) := by
  intro a
  cases hallows : column.allows usage with
  | true =>
    have hpassed : column.checkUsage .reject usage = .ok () := if_pos hallows
    rw [hpassed, checkUsage_allow, and_iff_left rfl]
  | false =>
    have hrefused : column.checkUsage .reject usage = .error (.notSearchable column.name usage) := by
      rw [checkUsage, hallows]
      rfl
    rw [hrefused]
    constructor
    · rintro ⟨⟩
    · rintro ⟨-, ⟨⟩⟩

/-- Where every use is allowed, nothing else is asked of how a column may be used. -/
theorem SameButSearchability.interchangeable {a b : Column} (h : a.SameButSearchability b) :
    a.Interchangeable .allow id b where
  usage usage := by rw [checkUsage_allow, checkUsage_allow]
  attr := by
    have hsource : a.sourceName = b.sourceName := by rw [sourceName, sourceName, h.1, h.2]
    rw [attr, attr, hsource, h.1]
  emptyList := by rw [h.1]

end Column

/-! ### Leaves -/

namespace Selection

theorem gated_comparison (op : Comparator) (column : Column) (value : Literal) :
    Gated (column.allows .comparison = true) (comparison .reject op column value) (comparison .allow op column value) :=
  column.gated_checkUsage .comparison _

theorem gated_like (column : Column) (pattern : String) (escape : Option Char) (negated : Bool) :
    Gated (column.allows .like = true) (like .reject column pattern escape negated)
      (like .allow column pattern escape negated) :=
  column.gated_checkUsage .like _

theorem gated_isNull (column : Column) (negated : Bool) :
    Gated (column.allows .comparison = true) (isNull .reject column negated) (isNull .allow column negated) :=
  column.gated_checkUsage .comparison _

/-- Equalities use their column, if there are any. -/
theorem gated_equalities (column : Column) (values : List Literal) :
    Gated (values ≠ [] → column.allows .comparison = true) (equalities .reject column values)
      (equalities .allow column values) := by
  induction values with
  | nil =>
    intro s
    exact (and_iff_left fun hne => absurd rfl hne).symm
  | cons value values ih =>
    refine ((gated_comparison .eq column value).both ih _).congr ?_
    constructor
    · rintro ⟨hallows, -⟩ -
      exact hallows
    · intro hallows
      have hallows := hallows (List.cons_ne_nil value values)
      exact ⟨hallows, fun _ => hallows⟩

theorem gated_inList (column : Column) (values : List Literal) (negated : Bool) :
    Gated (column.allows .comparison = true) (inList .reject column values negated)
      (inList .allow column values negated) := by
  cases values with
  | nil => exact .error _ _ _
  | cons value values =>
    have hbody := (gated_equalities column (value :: values)).congr (forall_prop_of_true (List.cons_ne_nil value values))
    exact hbody.map _

/-! ### Whole conditions -/

/-- The policy has no say in a group beside its parts. -/
theorem gated_group (mark : Char) {conditions : List Condition} {p : Prop}
    (h : Gated p (fragments .reject conditions) (fragments .allow conditions)) :
    Gated p (group .reject mark conditions) (group .allow mark conditions) := by
  cases conditions with
  | nil => exact .error _ _ _
  | cons condition conditions =>
    rw [group_cons, group_cons]
    exact h.map _

/-- A leaf has no leaves but itself. -/
theorem gated_leaf {c : Condition} (hc : c.isLeaf = true) (nots : Nat) {x y : Except Problem (List Char)}
    (h : Gated c.Permitted x y) :
    Gated (∀ part ∈ (c.partsUnder nots).filter (·.condition.isLeaf), part.condition.Permitted) x y := by
  rw [Condition.leaves_leaf hc, List.forall_mem_singleton]
  exact h

mutual

/-- A condition is rejected for the leaves whose columns must not be used, and keeps its text where there are none.
    Which way a leaf is turned does not matter. -/
theorem gated_fragment : ∀ (c : Condition) (negate : Bool) (nots : Nat),
    Gated (∀ part ∈ (c.partsUnder nots).filter (·.condition.isLeaf), part.condition.Permitted)
      (fragment .reject (c.normal negate)) (fragment .allow (c.normal negate))
  | .not condition, negate, nots => gated_fragment condition (!negate) (nots + 1)
  -- A group is no leaf, so its leaves are those of its parts, whichever mark it gets.
  | .and conditions, negate, nots => by
    cases negate <;> exact gated_group _ (gated_fragments conditions _ nots)
  | .or conditions, negate, nots => by
    cases negate <;> exact gated_group _ (gated_fragments conditions _ nots)
  | .comparison _ column _, _, nots =>
    gated_leaf rfl nots ((gated_comparison _ column _).congr column.allows_comparison_iff)
  | .like column _ _ _, _, nots => gated_leaf rfl nots ((gated_like column _ _ _).congr column.allows_like_iff)
  | .inList column _ _, _, nots =>
    gated_leaf rfl nots ((gated_inList column _ _).congr column.allows_comparison_iff)
  | .isNull column _, _, nots => gated_leaf rfl nots ((gated_isNull column _).congr column.allows_comparison_iff)

theorem gated_fragments : ∀ (cs : List Condition) (negate : Bool) (nots : Nat),
    Gated (∀ part ∈ (Condition.allPartsUnder nots cs).filter (·.condition.isLeaf), part.condition.Permitted)
      (fragments .reject (Condition.normalAll negate cs)) (fragments .allow (Condition.normalAll negate cs))
  | [], _, _ => fun _ => (and_iff_left (List.forall_mem_nil _)).symm
  | c :: cs, negate, nots => by
    rw [Condition.allPartsUnder, List.filter_append, List.forall_mem_append]
    exact (gated_fragment c negate nots).both (gated_fragments cs negate nots) _

end

/-- Rejecting the use of columns that must not be searched gives the text that allowing it gives, or none, and none
    exactly where a leaf uses its column in such a way. What allowing it gives does not depend on how the columns may
    be used. -/
theorem policy_only_gates (c : Condition) :
    (∀ s, compile .reject (some c) = .ok s ↔
        compile .allow (some c) = .ok s ∧ ∀ leaf ∈ c.leaves, leaf.condition.Permitted) ∧
      ∀ c', c.SameBut Column.SameButSearchability c' → compile .allow (some c) = compile .allow (some c') := by
  refine ⟨gated_fragment c false 0, fun c' h => ?_⟩
  have halike := mapError_compile Column.SameButSearchability.interchangeable (.some h)
  rwa [mapError_id, mapError_id] at halike

theorem policy_only_gates_mixed :
    let c (age cn : Searchability) : Condition := .not (.or [.among { name := "age", searchability := age } [.int 3],
      .missing { name := "age", searchability := age }, .matching { name := "cn", searchability := cn } "a%"])
    let text := "(&(!(|(age=3)))(age=*)(!(cn=a*)))".toList
    compile .reject (some (c .allExceptLike .likeOnly)) = .ok text ∧
      compile .allow (some (c .likeOnly .likeOnly)) = .ok text ∧
      ∀ s, compile .reject (some (c .likeOnly .likeOnly)) ≠ .ok s := by
  intro c text
  have hallow : compile .allow (some (c .allExceptLike .likeOnly)) = .ok text := toOption_eq_some.mp (by decide +kernel)
  have hagree : (c .allExceptLike .likeOnly).SameBut Column.SameButSearchability (c .likeOnly .likeOnly) :=
    .not (.or (.cons (.inList _ _ ⟨rfl, rfl⟩) (.cons (.isNull _ ⟨rfl, rfl⟩) (.cons (.like _ _ _ ⟨rfl, rfl⟩) .nil))))
  obtain ⟨hgate, hsame⟩ := policy_only_gates (c .allExceptLike .likeOnly)
  refine ⟨(hgate text).mpr ⟨hallow, by decide +kernel⟩, (hsame _ hagree).symm.trans hallow, fun s hreject => ?_⟩
  have hpermitted := (((policy_only_gates (c .likeOnly .likeOnly)).1 s).mp hreject).2
  exact absurd hpermitted (by decide +kernel)

end Selection

end DirectorySearch
