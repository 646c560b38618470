import DirectorySearch.Proofs.Matching
import DirectorySearch.Proofs.Negation

/-! The rows that a query asks for and the entries that its filter selects. A condition on an absent value is
    unknown in a query, while a filter is true or false of every entry; the filter still selects every row,
    and no other entry that has all the attributes. -/

namespace DirectorySearch

/-! ### Conditions on an entry -/

/-- Whether a comparison holds between two texts in a given order. -/
def Comparator.holds (order : LinearOrder String) : Comparator → String → String → Bool
  | .eq, a, b => a == b
  | .ne, a, b => a != b
  | .lt, a, b => @decide (order.lt a b) (order.toDecidableLT a b)
  | .le, a, b => @decide (order.le a b) (order.toDecidableLE a b)
  | .gt, a, b => @decide (order.lt b a) (order.toDecidableLT b a)
  | .ge, a, b => @decide (order.le b a) (order.toDecidableLE b a)

/-- What is known of a relation between two things that may be absent. -/
def Truth.ofBoth {α β : Type} (p : α → β → Bool) : Option α → Option β → Truth
  | some a, some b => .known (p a b)
  | _, _ => .unknown

namespace Condition

mutual

/-- What a query knows of a condition on an entry, where absent attributes are null. -/
def truth (order : LinearOrder String) (e : Entry) : Condition → Truth
  | .comparison op column value => .ofBoth (op.holds order) (e column.sourceName) value.text?
  | .not condition => (truth order e condition).not
  | .and conditions => Truth.logic.all (truths order e conditions)
  | .or conditions => Truth.logic.any (truths order e conditions)
  | .like column pattern escape negated => Truth.logic.notIf negated
    (.ofBoth (fun v signs => Like.fits signs v.toList) (e column.sourceName) (Like.signs? escape pattern.toList))
  | .inList column values negated => Truth.logic.notIf negated
    (Truth.logic.any (values.map fun value => .ofBoth (Comparator.eq.holds order) (e column.sourceName) value.text?))
  | .isNull column negated => Truth.logic.notIf negated (.known (e column.sourceName).isNone)

def truths (order : LinearOrder String) (e : Entry) : List Condition → List Truth
  | [] => []
  | condition :: conditions => truth order e condition :: truths order e conditions

end

end Condition

/-- Whether a filter selects an entry. -/
def Filter.selects (order : LinearOrder String) (e : Entry) (f : Filter) : Bool :=
  f.eval .boolean (Item.holds order e)

/-! ### From three values to two -/

namespace Truth

/-- A relation that holds of what is known, and that the connectives keep. -/
structure Respected (r : Truth → Bool → Prop) : Prop where
  known : ∀ b, r (.known b) b
  not : ∀ {a b}, r a b → r a.not !b
  and : ∀ {a a' b b'}, r a b → r a' b' → r (a.and a') (b && b')
  or : ∀ {a a' b b'}, r a b → r a' b' → r (a.or a') (b || b')

namespace Respected
variable {r : Truth → Bool → Prop} (h : Respected r)
include h

theorem notIf (negated : Bool) {a : Truth} {b : Bool} (hab : r a b) :
    r (logic.notIf negated a) (Logic.boolean.notIf negated b) := by
  cases negated with
  | false => exact hab
  | true => exact h.not hab

theorem all {as : List Truth} {bs : List Bool} (hab : List.Forall₂ r as bs) : r (logic.all as) (Logic.boolean.all bs) :=
  Logic.rel_fold (h.known true) h.and hab

theorem any {as : List Truth} {bs : List Bool} (hab : List.Forall₂ r as bs) : r (logic.any as) (Logic.boolean.any bs) :=
  Logic.rel_fold (h.known false) h.or hab

end Respected

/-- What is known is so. -/
def Agrees (a : Truth) (b : Bool) : Prop :=
  a = .unknown ∨ a = .known b

theorem agrees_respected : Respected Agrees where
  known _ := .inr rfl
  not := by
    rintro _ b (rfl | rfl)
    · exact .inl rfl
    · exact .inr rfl
  and := by
    rintro _ _ b b' (rfl | rfl) (rfl | rfl) <;> cases b <;> cases b' <;> simp [Agrees, Truth.and]
  or := by
    rintro _ _ b b' (rfl | rfl) (rfl | rfl) <;> cases b <;> cases b' <;> simp [Agrees, Truth.or]

theorem eq_known_respected : Respected fun a b => a = .known b where
  known _ := rfl
  not := by
    rintro _ b rfl
    rfl
  and := by
    rintro _ _ b b' rfl rfl
    cases b <;> cases b' <;> rfl
  or := by
    rintro _ _ b b' rfl rfl
    cases b <;> cases b' <;> rfl

end Truth

/-! ### Leaves -/

section Leaf
variable {order : LinearOrder String} {e : Entry} {attr : String}

theorem decide_lt (order : LinearOrder String) (a b : String) :
    @decide (order.lt a b) (order.toDecidableLT a b) = !@decide (order.le b a) (order.toDecidableLE b a) := by
  rw [Bool.eq_iff_iff, Bool.not_eq_true', decide_eq_false_iff_not, decide_eq_true_iff]
  exact (@not_le String order b a).symm

/-- On an entry with the attribute, the filter of a comparison is the comparison. -/
theorem Comparator.selects_filter (op : Comparator) {v : String} (hv : e attr = some v) (text : String) :
    Filter.selects order e (op.filter attr text) = op.holds order v text := by
  have hitem (relation : Relation) :
      Item.holds order e (.compare relation attr text) = relation.holds order v text := by
    rw [Item.holds, hv, Option.any_some]
  cases op
  case eq => exact hitem .equal
  case le => exact hitem .lessOrEqual
  case ge => exact hitem .greaterOrEqual
  case ne => exact congrArg (!·) (hitem .equal)
  case lt => exact (congrArg (!·) (hitem .greaterOrEqual)).trans (decide_lt order v text).symm
  case gt => exact (congrArg (!·) (hitem .lessOrEqual)).trans (decide_lt order text v).symm

variable {r : Truth → Bool → Prop} (hr : Truth.Respected r)
include hr

/-- A leaf that is decided by the value of an attribute needs to be looked at only where there is one. -/
theorem rel_ofBoth {α : Type} {p : String → α → Bool} {a : α} {b : Bool} (habsent : e attr = none → ∀ b, r .unknown b)
    (h : ∀ v, e attr = some v → b = p v a) : r (.ofBoth p (e attr) (some a)) b := by
  cases hv : e attr with
  | none => exact habsent hv b
  | some v =>
    rw [h v hv]
    exact hr.known _

theorem rel_equalities (habsent : e attr = none → ∀ b, r .unknown b) {values : List Literal} {texts : List String}
    (h : values.mapM Literal.text? = some texts) :
    List.Forall₂ r (values.map fun value => .ofBoth (Comparator.eq.holds order) (e attr) value.text?)
      (FilterTree.evalAll .boolean (Item.holds order e) (texts.map (.compare .equal attr))) := by
  induction values generalizing texts with
  | nil =>
    cases h
    exact .nil
  | cons value values ih =>
    simp only [List.mapM_cons] at h
    obtain ⟨text, htext, h⟩ := Option.bind_eq_some_iff.mp h
    obtain ⟨texts, htexts, h⟩ := Option.bind_eq_some_iff.mp h
    cases h
    refine .cons ?_ (ih htexts)
    simp only [htext]
    exact rel_ofBoth hr habsent fun v hv => Comparator.eq.selects_filter hv text

end Leaf

/-! ### Whole conditions -/

namespace Condition

section Rel
variable {order : LinearOrder String} {e : Entry} {r : Truth → Bool → Prop}

mutual

/-- A relation that the connectives keep holds between a condition and its filter, on entries that have the
    attributes or wherever nothing is known. -/
theorem rel_truth (hr : Truth.Respected r) : ∀ (c : Condition) {f : Filter}, c.tree? = some f →
    (∀ column ∈ c.columns, e column.sourceName = none → ∀ b, r .unknown b) → r (c.truth order e) (f.selects order e)
  | .comparison op column value, f, h, habsent => by
    obtain ⟨text, htext, rfl⟩ := Option.map_eq_some_iff.mp h
    rw [truth, htext]
    exact rel_ofBoth hr (habsent column (List.mem_singleton_self _)) fun v hv => op.selects_filter hv text
  | .not condition, f, h, habsent => by
    obtain ⟨part, hpart, rfl⟩ := Option.map_eq_some_iff.mp h
    exact hr.not (rel_truth hr condition hpart habsent)
  | .and conditions, f, h, habsent => by
    obtain ⟨parts, hparts, rfl⟩ := Option.map_eq_some_iff.mp h
    exact hr.all (rel_truths hr conditions hparts habsent)
  | .or conditions, f, h, habsent => by
    obtain ⟨parts, hparts, rfl⟩ := Option.map_eq_some_iff.mp h
    exact hr.any (rel_truths hr conditions hparts habsent)
  | .like column pattern escape negated, f, h, habsent => by
    obtain ⟨runs, hbind, rfl⟩ := Option.map_eq_some_iff.mp h
    obtain ⟨signs, hsigns, hruns⟩ := Option.bind_eq_some_iff.mp hbind
    rw [truth, Filter.selects, FilterTree.eval_negatedIf, FilterTree.eval_toFilter, Like.holds_item, hsigns]
    refine hr.notIf negated (rel_ofBoth hr (habsent column (List.mem_singleton_self _)) fun v hv => ?_)
    rw [hv, Option.any_some, Like.fits_eq_runs hruns]
  | .inList column values negated, f, h, habsent => by
    obtain ⟨texts, htexts, rfl⟩ := Option.map_eq_some_iff.mp h
    rw [truth, Filter.selects, FilterTree.eval_negatedIf]
    exact hr.notIf negated (hr.any (rel_equalities hr (habsent column (List.mem_singleton_self _)) htexts))
  | .isNull column negated, f, h, _ => by
    cases h
    rw [truth, Filter.selects, FilterTree.eval_negatedIf, ← Logic.notIf_not]
    have hpresent : Logic.boolean.not ((FilterTree.present column.sourceName).eval .boolean (Item.holds order e)) =
        (e column.sourceName).isNone := Option.not_isSome _
    rw [hpresent]
    exact hr.notIf negated (hr.known _)

theorem rel_truths (hr : Truth.Respected r) : ∀ (conditions : List Condition) {fs : List Filter},
    trees? conditions = some fs → (∀ column ∈ allColumns conditions, e column.sourceName = none → ∀ b, r .unknown b) →
      List.Forall₂ r (truths order e conditions) (FilterTree.evalAll .boolean (Item.holds order e) fs)
  | [], fs, h, _ => by
    cases h
    exact .nil
  | condition :: conditions, fs, h, habsent => by
    obtain ⟨f, hf, h⟩ := Option.bind_eq_some_iff.mp h
    obtain ⟨fs, hfs, rfl⟩ := Option.map_eq_some_iff.mp h
    have habsents := List.forall_mem_append.mp habsent
    exact .cons (rel_truth hr condition hf habsents.1) (rel_truths hr conditions hfs habsents.2)

end

end Rel

end Condition

namespace Selection

open Token

/-- The filter of a condition selects every entry of which the condition is true, and where no attribute is
    absent no others. -/
theorem compile_selects (policy : UnsearchablePolicy) (c : Condition) (s : List Char)
    (hattrs : ∀ column ∈ c.columns, Attribute column.sourceName.toList) (h : compile policy (some c) = .ok s) :
    ∃ f, Filter.parse (.ofList s) = .ok f ∧ ∀ (order : LinearOrder String) (e : Entry),
      (c.truth order e = .known true → f.selects order e = true) ∧
        ((∀ column ∈ c.columns, e column.sourceName ≠ none) →
          (f.selects order e = true ↔ c.truth order e = .known true)) := by
  obtain ⟨g, hg, hwrites⟩ := compile_writes h
  refine ⟨g, hwrites.parse_eq (List.forall_mem_map.mpr hattrs), fun order e => ?_⟩
  -- Both halves are about the condition as it stands, which the logic of filters does not tell from its normal form.
  obtain ⟨f, hf, heval⟩ := Condition.eval_normal .boolean (Item.holds order e) c false hg
  have hselects : g.selects order e = f.selects order e := heval
  rw [hselects]
  constructor
  · intro htrue
    have hagrees : Truth.Agrees (c.truth order e) (f.selects order e) :=
      Condition.rel_truth Truth.agrees_respected c hf fun _ _ _ _ => .inl rfl
    rcases hagrees with hunknown | hknown
    · rw [hunknown] at htrue
      cases htrue
    · rw [hknown] at htrue
      exact Truth.known.inj htrue
  · intro hpresent
    have hknown : c.truth order e = .known (f.selects order e) :=
      Condition.rel_truth Truth.eq_known_respected c hf fun column hcolumn habsent =>
        absurd habsent (hpresent column hcolumn)
    rw [hknown, Truth.known.injEq]

theorem compile_selects_adults :
    let c : Condition := .not (.or [.comparison .lt { name := "age" } (.string "18"),
      .matchingEscaped { name := "mail" } "%!_%" '!', .among { name := "role" } [.string "guest"]])
    let s := "(&(age>=18)(!(mail=*_*))(!(|(role=guest))))"
    compile .reject (some c) = .ok s.toList ∧
      ∃ f, Filter.parse s = .ok f ∧ ∀ (order : LinearOrder String) (e : Entry),
        (c.truth order e = .known true → f.selects order e = true) ∧
          ((∀ column ∈ c.columns, e column.sourceName ≠ none) →
            (f.selects order e = true ↔ c.truth order e = .known true)) := by
  intro c s
  have hcompile : compile .reject (some c) = .ok s.toList := toOption_eq_some.mp (by decide +kernel)
  have hattrs : ∀ column ∈ c.columns, Attribute column.sourceName.toList := by decide +kernel
  obtain ⟨f, hf, hselects⟩ := compile_selects .reject c s.toList hattrs hcompile
  rw [String.ofList_toList] at hf
  exact ⟨hcompile, f, hf, hselects⟩

end Selection

end DirectorySearch
