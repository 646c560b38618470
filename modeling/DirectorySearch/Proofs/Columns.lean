import DirectorySearch.Proofs.Except
import DirectorySearch.Search.Selection

/-! What the text of a condition takes from its columns. It is the attribute of a column and whether the column may
    be used, so conditions whose columns agree in these have one text, or fail alike. -/

namespace DirectorySearch

/-! ### Conditions on other columns -/

/-- Two conditions are the same but for their columns, which `r` relates place by place. -/
inductive Condition.SameBut (r : Column → Column → Prop) : Condition → Condition → Prop
  | comparison (op : Comparator) {a b : Column} (value : Literal) (h : r a b) :
    SameBut r (.comparison op a value) (.comparison op b value)
  | not {c c' : Condition} (h : SameBut r c c') : SameBut r (.not c) (.not c')
  | and {cs cs' : List Condition} (h : List.Forall₂ (SameBut r) cs cs') : SameBut r (.and cs) (.and cs')
  | or {cs cs' : List Condition} (h : List.Forall₂ (SameBut r) cs cs') : SameBut r (.or cs) (.or cs')
  | like {a b : Column} (pattern : String) (escape : Option Char) (negated : Bool) (h : r a b) :
    SameBut r (.like a pattern escape negated) (.like b pattern escape negated)
  | inList {a b : Column} (values : List Literal) (negated : Bool) (h : r a b) :
    SameBut r (.inList a values negated) (.inList b values negated)
  | isNull {a b : Column} (negated : Bool) (h : r a b) : SameBut r (.isNull a negated) (.isNull b negated)

namespace Condition
variable {r : Column → Column → Prop}

mutual

/-- Moving the negations keeps the columns in their places. -/
theorem SameBut.normal : ∀ (c : Condition) {c' : Condition} (negate : Bool), c.SameBut r c' →
    (c.normal negate).SameBut r (c'.normal negate)
  | .comparison .., _, _, .comparison _ _ h => .comparison _ _ h
  | .not condition, _, negate, .not h => SameBut.normal condition (!negate) h
  | .and conditions, _, false, .and h => .and (sameBut_normalAll conditions false h)
  | .and conditions, _, true, .and h => .or (sameBut_normalAll conditions true h)
  | .or conditions, _, false, .or h => .or (sameBut_normalAll conditions false h)
  | .or conditions, _, true, .or h => .and (sameBut_normalAll conditions true h)
  | .like .., _, _, .like _ _ _ h => .like _ _ _ h
  | .inList .., _, _, .inList _ _ h => .inList _ _ h
  | .isNull .., _, _, .isNull _ h => .isNull _ h

theorem sameBut_normalAll : ∀ (cs : List Condition) {cs' : List Condition} (negate : Bool),
    List.Forall₂ (SameBut r) cs cs' → List.Forall₂ (SameBut r) (normalAll negate cs) (normalAll negate cs')
  | [], _, _, .nil => .nil
  | c :: cs, _, negate, .cons h hs => .cons (SameBut.normal c negate h) (sameBut_normalAll cs negate hs)

end

end Condition

/-! ### Columns that do the same -/

/-- Under a policy, two columns have one attribute and may be used alike, up to what `f` keeps of problems. -/
structure Column.Interchangeable {κ : Type} (policy : UnsearchablePolicy) (f : Problem → κ) (a b : Column) : Prop where
  usage : ∀ usage, (a.checkUsage policy usage).mapError f = (b.checkUsage policy usage).mapError f
  attr : a.attr.mapError f = b.attr.mapError f
  emptyList : f (.emptyList a.name) = f (.emptyList b.name)

namespace Selection

section Leaf
variable {κ : Type} {policy : UnsearchablePolicy} {f : Problem → κ} {a b : Column}

theorem mapError_comparison (op : Comparator) (value : Literal) (h : a.Interchangeable policy f b) :
    (comparison policy op a value).mapError f = (comparison policy op b value).mapError f :=
  mapError_bind_congr (h.usage .comparison) fun _ => mapError_bind_congr h.attr fun _ => rfl

theorem mapError_like (pattern : String) (escape : Option Char) (negated : Bool) (h : a.Interchangeable policy f b) :
    (like policy a pattern escape negated).mapError f = (like policy b pattern escape negated).mapError f :=
  mapError_bind_congr (h.usage .like) fun _ => mapError_bind_congr h.attr fun _ => rfl

theorem mapError_equalities (values : List Literal) (h : a.Interchangeable policy f b) :
    (equalities policy a values).mapError f = (equalities policy b values).mapError f := by
  induction values with
  | nil => rfl
  | cons value values ih =>
    exact mapError_bind_congr (mapError_comparison .eq value h) fun _ => mapError_bind_congr ih fun _ => rfl

theorem mapError_inList (values : List Literal) (negated : Bool) (h : a.Interchangeable policy f b) :
    (inList policy a values negated).mapError f = (inList policy b values negated).mapError f := by
  cases values with
  | nil => exact congrArg Except.error h.emptyList
  | cons value values => exact mapError_bind_congr (mapError_equalities (value :: values) h) fun _ => rfl

theorem mapError_isNull (negated : Bool) (h : a.Interchangeable policy f b) :
    (isNull policy a negated).mapError f = (isNull policy b negated).mapError f :=
  mapError_bind_congr (h.usage .comparison) fun _ => mapError_bind_congr h.attr fun _ => rfl

end Leaf

/-! ### Whole conditions -/

section Fragment
variable {κ : Type} {policy : UnsearchablePolicy} {f : Problem → κ} {r : Column → Column → Prop}

theorem mapError_group (mark : Char) {cs cs' : List Condition} (hs : List.Forall₂ (Condition.SameBut r) cs cs')
    (h : (fragments policy cs).mapError f = (fragments policy cs').mapError f) :
    (group policy mark cs).mapError f = (group policy mark cs').mapError f := by
  cases hs with
  | nil => rfl
  | cons _ _ =>
    rw [group_cons, group_cons]
    exact mapError_bind_congr h fun _ => rfl

mutual

/-- Conditions on columns that do the same have one text, or fail alike. -/
theorem mapError_fragment (hr : ∀ {a b : Column}, r a b → a.Interchangeable policy f b) :
    ∀ (c : Condition) {c' : Condition}, c.SameBut r c' → (fragment policy c).mapError f = (fragment policy c').mapError f
  | .comparison .., _, .comparison op value h => mapError_comparison op value (hr h)
  | .not condition, _, .not h => mapError_bind_congr (mapError_fragment hr condition h) fun _ => rfl
  | .and conditions, _, .and h => mapError_group '&' h (mapError_fragments hr conditions h)
  | .or conditions, _, .or h => mapError_group '|' h (mapError_fragments hr conditions h)
  | .like .., _, .like pattern escape negated h => mapError_like pattern escape negated (hr h)
  | .inList .., _, .inList values negated h => mapError_inList values negated (hr h)
  | .isNull .., _, .isNull negated h => mapError_isNull negated (hr h)

theorem mapError_fragments (hr : ∀ {a b : Column}, r a b → a.Interchangeable policy f b) :
    ∀ (cs : List Condition) {cs' : List Condition}, List.Forall₂ (Condition.SameBut r) cs cs' →
      (fragments policy cs).mapError f = (fragments policy cs').mapError f
  | [], _, .nil => rfl
  | c :: cs, _, .cons h hs => mapError_bind_congr (mapError_fragment hr c h) fun _ =>
    mapError_bind_congr (mapError_fragments hr cs hs) fun _ => rfl

end

theorem mapError_compile (hr : ∀ {a b : Column}, r a b → a.Interchangeable policy f b)
    {selection selection' : Option Condition} (h : Option.Rel (Condition.SameBut r) selection selection') :
    (compile policy selection).mapError f = (compile policy selection').mapError f := by
  cases h with
  | none => rfl
  | some h => exact mapError_fragment hr _ (Condition.SameBut.normal _ false h)

end Fragment

end Selection

end DirectorySearch
