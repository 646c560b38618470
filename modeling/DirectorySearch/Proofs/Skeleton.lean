import DirectorySearch.Proofs.Request
import DirectorySearch.Proofs.Unescaping

/-! No value can change the structure of a filter. What the parentheses and operators of a filter are
    follows from the shape of the query alone: the kinds of its conditions, their operators and flags, and
    how many parts and values they have. Names, literals and patterns leave no trace there. -/

namespace DirectorySearch

open Token

/-! ### Skeletons -/

namespace Skeleton

def isOperator (c : Char) : Bool :=
  c == '&' || c == '|' || c == '!'

/-- The parentheses of a text, and the operators that stand right after an opening one. It is given
    whether one stands right before the text. -/
def after (opened : Bool) : List Char → List Char
  | [] => []
  | c :: r =>
    if c = '(' ∨ c = ')' ∨ (opened && isOperator c) = true then c :: after (c == '(') r else after false r

/-- Every closing parenthesis has an opening one before it, and none stays open. -/
def Balanced (s : List Char) : Prop :=
  s.count '(' = s.count ')' ∧ ∀ p, p <+: s → p.count ')' ≤ p.count '('

theorem after_open (opened : Bool) (r : List Char) : after opened ('(' :: r) = '(' :: after true r := by
  simp [after]

theorem after_close (opened : Bool) (r : List Char) : after opened (')' :: r) = ')' :: after false r := by
  simp [after]

theorem after_operator {c : Char} (hc : isOperator c = true) (r : List Char) : after true (c :: r) = c :: after false r := by
  have hopen : (c == '(') = false := by
    rw [beq_eq_false_iff_ne]
    rintro rfl
    exact absurd hc (by decide)
  simp [after, hc, hopen]

/-- A text without parentheses leaves no trace, if no operator starts it. -/
theorem after_append {s : List Char} (hs : ∀ c ∈ s, c ≠ '(' ∧ c ≠ ')') (hhead : ∀ c ∈ s.head?, isOperator c = false)
    (r : List Char) : after true (s ++ ')' :: r) = ')' :: after false r := by
  have hfalse {s : List Char} (hs : ∀ c ∈ s, c ≠ '(' ∧ c ≠ ')') :
      after false (s ++ ')' :: r) = ')' :: after false r := by
    induction s with
    | nil => exact after_close false r
    | cons c s ih =>
      obtain ⟨⟨hopen, hclose⟩, hs⟩ := List.forall_mem_cons.mp hs
      simp [after, hopen, hclose, ih hs]
  cases s with
  | nil => exact after_close true r
  | cons c s =>
    obtain ⟨⟨hopen, hclose⟩, hs⟩ := List.forall_mem_cons.mp hs
    simp [after, hopen, hclose, hhead c rfl, hfalse hs]

/-! ### Balance -/

theorem Balanced.nil : Balanced [] := by
  refine ⟨rfl, fun p hp => ?_⟩
  rw [List.prefix_nil.mp hp]
  exact Nat.le_refl _

theorem Balanced.append {s t : List Char} (hs : Balanced s) (ht : Balanced t) : Balanced (s ++ t) := by
  refine ⟨by rw [List.count_append, List.count_append, hs.1, ht.1], fun p hp => ?_⟩
  obtain ⟨v, hv⟩ := hp
  rcases List.append_eq_append_iff.mp hv with ⟨u, rfl, -⟩ | ⟨u, rfl, rfl⟩
  · exact hs.2 p (List.prefix_append p u)
  · have hcount := hs.1
    have hrest := ht.2 u (List.prefix_append u v)
    rw [List.count_append, List.count_append]
    omega

theorem Balanced.operator {c : Char} (hc : isOperator c = true) : Balanced [c] := by
  simp only [isOperator, Bool.or_eq_true, beq_iff_eq] at hc
  rcases hc with (rfl | rfl) | rfl
  all_goals
    refine ⟨by decide, fun p hp => ?_⟩
    have hcount := hp.sublist.count_le ')'
    exact Nat.le_trans hcount (by simp)

theorem Balanced.parenthesized {s : List Char} (hs : Balanced s) : Balanced ('(' :: (s ++ [')'])) := by
  refine ⟨by simp [hs.1], fun p hp => ?_⟩
  cases p with
  | nil => exact Nat.le_refl _
  | cons c p =>
    obtain ⟨rfl, htail⟩ := List.cons_prefix_cons.mp hp
    have hinner : p.count ')' ≤ p.count '(' + 1 := by
      rcases List.prefix_concat_iff.mp htail with rfl | htail
      · simp [hs.1]
      · exact Nat.le_succ_of_le (hs.2 p htail)
    simpa using hinner

theorem Balanced.group {c : Char} (hc : isOperator c = true) {s : List Char} (hs : Balanced s) :
    Balanced ('(' :: c :: (s ++ [')'])) :=
  ((Balanced.operator hc).append hs).parenthesized

end Skeleton

/-! ### Filters -/

namespace FilterTree

variable {α β : Type}

mutual

/-- The skeleton of the text of a filter: every item is a pair of parentheses. -/
def outline : FilterTree α → List Char
  | .and parts => '(' :: '&' :: (outlines parts ++ [')'])
  | .or parts => '(' :: '|' :: (outlines parts ++ [')'])
  | .not part => '(' :: '!' :: (outline part ++ [')'])
  | .compare .. => ['(', ')']
  | .present _ => ['(', ')']
  | .substrings .. => ['(', ')']

def outlines : List (FilterTree α) → List Char
  | [] => []
  | part :: parts => outline part ++ outlines parts

end

theorem outline_toFilter (i : Item α) : i.toFilter.outline = ['(', ')'] := by
  cases i <;> rfl

theorem outline_negatedIf (negated : Bool) (f : FilterTree α) :
    (f.negatedIf negated).outline = if negated then '(' :: '!' :: (f.outline ++ [')']) else f.outline := by
  cases negated <;> rfl

mutual

theorem balanced_outline : ∀ f : FilterTree α, Skeleton.Balanced f.outline
  | .and parts => Skeleton.Balanced.group rfl (balanced_outlines parts)
  | .or parts => Skeleton.Balanced.group rfl (balanced_outlines parts)
  | .not part => Skeleton.Balanced.group rfl (balanced_outline part)
  | .compare .. => Skeleton.Balanced.nil.parenthesized
  | .present _ => Skeleton.Balanced.nil.parenthesized
  | .substrings .. => Skeleton.Balanced.nil.parenthesized

theorem balanced_outlines : ∀ fs : List (FilterTree α), Skeleton.Balanced (outlines fs)
  | [] => .nil
  | part :: parts => (balanced_outline part).append (balanced_outlines parts)

end

mutual

/-- Items have one outline, so it does not matter which they are. -/
theorem outline_mapItems (f : Item α → Item β) : ∀ t : FilterTree α, (t.mapItems f).outline = t.outline
  | .and parts => by rw [mapItems, outline, outline, outlines_mapAllItems f parts]
  | .or parts => by rw [mapItems, outline, outline, outlines_mapAllItems f parts]
  | .not part => by rw [mapItems, outline, outline, outline_mapItems f part]
  | .compare .. => outline_toFilter _
  | .present _ => outline_toFilter _
  | .substrings .. => outline_toFilter _

theorem outlines_mapAllItems (f : Item α → Item β) : ∀ ts : List (FilterTree α),
    outlines (mapAllItems f ts) = outlines ts
  | [] => rfl
  | part :: parts => by rw [mapAllItems, outlines, outlines, outline_mapItems f part, outlines_mapAllItems f parts]

end

end FilterTree

/-! ### Texts of filters -/

namespace Skeleton

/-- No parenthesis stands in a text. -/
def Flat (s : List Char) : Prop := ∀ c ∈ s, c ≠ '(' ∧ c ≠ ')'

instance (s : List Char) : Decidable (Flat s) := List.decidableBAll _ s

theorem Flat.append {s t : List Char} (hs : Flat s) (ht : Flat t) : Flat (s ++ t) :=
  List.forall_mem_append.mpr ⟨hs, ht⟩

theorem flat_attr {s : List Char} (h : AttributeChars s) : Flat s := by
  intro c hc
  have hchar := h c hc
  constructor <;> rintro rfl <;> revert hchar <;> decide

theorem flat_word {w : List Char} (hw : Word w) : Flat w := by
  intro c hc
  constructor <;> rintro rfl <;> exact Escape.special_not_mem_word hw (by decide) hc

theorem flat_getD {w : Option (List Char)} (hw : ∀ p ∈ w, Piece p) : Flat (w.getD []) := by
  cases w with
  | none => exact flat_word .nil
  | some w => exact flat_word (hw w rfl).1

theorem flat_tail {any : List (List Char)} {final : Option (List Char)} (hany : ∀ w ∈ any, Piece w)
    (hfinal : ∀ w ∈ final, Piece w) : Flat (RawItem.tail any final) := by
  refine Flat.append (fun c hc => ?_) (flat_getD hfinal)
  obtain ⟨w, hw, hc⟩ := List.mem_flatMap.mp hc
  exact (flat_word (hany w hw).1).append (by decide) c hc

/-- An item has no parentheses but those around it. -/
theorem flat_text {i : RawItem} (h : i.Spelled) : Flat i.text := by
  obtain ⟨ha, hw⟩ := h
  refine (flat_attr ha).append ?_
  cases i with
  | compare relation attr word =>
    have hsymbol : Flat relation.symbol := by cases relation <;> decide
    exact hsymbol.append (flat_word hw)
  | present attr => exact (by decide : Flat ['=', '*'])
  | substrings attr initial any final =>
    obtain ⟨hinitial, hany, hfinal, -⟩ := hw
    have hequals : Flat ['='] := by decide
    have hstar : Flat ['*'] := by decide
    exact hequals.append ((flat_getD hinitial).append (hstar.append (flat_tail hany hfinal)))

theorem after_item {i : RawItem} (h : i.Spelled) (opened : Bool) (r : List Char) :
    after opened (RawFilter.text i.toFilter ++ r) = i.toFilter.outline ++ after false r := by
  have hhead : ∀ c ∈ i.text.head?, isOperator c = false := by
    intro c hc
    have hunmarked := Reader.unmarked_text h.1 []
    rw [List.append_nil] at hunmarked
    obtain ⟨hand, hor, hnot⟩ := hunmarked c hc
    simp [isOperator, hand, hor, hnot]
  rw [RawFilter.text_toFilter, FilterTree.outline_toFilter]
  simp only [List.cons_append, List.append_assoc, List.nil_append]
  rw [after_open, after_append (flat_text h) hhead]

mutual

/-- The skeleton of the text of a filter with its values as written is its outline. -/
theorem after_text : ∀ {t : RawFilter} (opened : Bool) (r : List Char), t.WellFormed RawItem.Spelled →
    after opened (t.text ++ r) = t.outline ++ after false r
  | .and parts, opened, r, ⟨_, hparts⟩ => by
    simp only [RawFilter.text, FilterTree.outline, List.cons_append, List.append_assoc, List.nil_append]
    rw [after_open, after_operator rfl, after_allText _ hparts, after_close]
  | .or parts, opened, r, ⟨_, hparts⟩ => by
    simp only [RawFilter.text, FilterTree.outline, List.cons_append, List.append_assoc, List.nil_append]
    rw [after_open, after_operator rfl, after_allText _ hparts, after_close]
  | .not part, opened, r, hpart => by
    simp only [RawFilter.text, FilterTree.outline, List.cons_append, List.append_assoc, List.nil_append]
    rw [after_open, after_operator rfl, after_text (t := part) false _ hpart, after_close]
  | .compare .., opened, r, h => after_item (i := .compare ..) h opened r
  | .present _, opened, r, h => after_item (i := .present _) h opened r
  | .substrings .., opened, r, h => after_item (i := .substrings ..) h opened r

theorem after_allText : ∀ {ts : List RawFilter} (r : List Char), FilterTree.AllWellFormed RawItem.Spelled ts →
    after false (RawFilter.allText ts ++ r) = FilterTree.outlines ts ++ after false r
  | [], _, _ => rfl
  | part :: parts, r, ⟨hpart, hparts⟩ => by
    rw [RawFilter.allText, List.append_assoc, after_text false _ hpart, after_allText r hparts, FilterTree.outlines,
      List.append_assoc]

end

theorem after_text_eq {t : RawFilter} (h : t.WellFormed RawItem.Spelled) : after false t.text = t.outline := by
  have hafter := after_text false [] h
  rwa [List.append_nil, after, List.append_nil] at hafter

/-- The skeleton of the text of a filter is its outline. -/
theorem after_writer {f : Filter} (h : f.WellFormed fun i => AttributeChars i.attr.toList) :
    after false (Writer.filter f) = f.outline := by
  have hnormal : f.normal.WellFormed fun i => AttributeChars i.attr.toList ∧ i.Normal := by
    rw [Filter.normal, FilterTree.wellFormed_mapItems]
    refine h.imp fun i hi => ⟨?_, i.normal_normal⟩
    rwa [Item.attr_normal]
  rw [Filter.writer_eq_text, after_text_eq (Filter.escaped_spelled hnormal), Filter.escaped,
    FilterTree.outline_mapItems, Filter.normal, FilterTree.outline_mapItems]

end Skeleton

/-! ### Shapes -/

/-- What is left of a condition without its columns, values, patterns and escape characters. -/
inductive Shape where
  | comparison (op : Comparator)
  | not (part : Shape)
  | and (parts : List Shape)
  | or (parts : List Shape)
  | like (negated : Bool)
  | inList (count : Nat) (negated : Bool)
  | isNull (negated : Bool)

namespace Condition

mutual

def shape : Condition → Shape
  | .comparison op _ _ => .comparison op
  | .not condition => .not (shape condition)
  | .and conditions => .and (shapes conditions)
  | .or conditions => .or (shapes conditions)
  | .like _ _ _ negated => .like negated
  | .inList _ values negated => .inList values.length negated
  | .isNull _ negated => .isNull negated

def shapes : List Condition → List Shape
  | [] => []
  | condition :: conditions => shape condition :: shapes conditions

end

end Condition

namespace Shape

/-- An outline, with a negation around it if `negated`. -/
def leaf (negated : Bool) (inner : List Char) : List Char :=
  if negated then '(' :: '!' :: (inner ++ [')']) else inner

/-- The outline of the item for a comparison. -/
def compared (op : Comparator) : List Char :=
  match op.item with
  | .direct _ => leaf false ['(', ')']
  | .negated _ => leaf true ['(', ')']

mutual

/-- The outline of the filter for a condition of this shape, or for its opposite. -/
def outline (negate : Bool) : Shape → List Char
  | .comparison op => compared (if negate then op.complement else op)
  | .not part => outline (!negate) part
  | .and parts => '(' :: (if negate then '|' else '&') :: (outlines negate parts ++ [')'])
  | .or parts => '(' :: (if negate then '&' else '|') :: (outlines negate parts ++ [')'])
  | .like negated => leaf (negated ^^ negate) ['(', ')']
  | .inList count negated => leaf (negated ^^ negate) ('(' :: '|' :: ((List.replicate count ['(', ')']).flatten ++ [')']))
  | .isNull negated => leaf (!(negated ^^ negate)) ['(', ')']

def outlines (negate : Bool) : List Shape → List Char
  | [] => []
  | part :: parts => outline negate part ++ outlines negate parts

end

end Shape

theorem Comparator.outline_filter (op : Comparator) (attr value : String) :
    (op.filter attr value).outline = Shape.compared op := by
  cases op <;> rfl

theorem Literal.length_of_mapM_text? {values : List Literal} {texts : List String}
    (h : values.mapM Literal.text? = some texts) : texts.length = values.length := by
  induction values generalizing texts with
  | nil =>
    obtain rfl := Option.some.inj h
    rfl
  | cons value values ih =>
    simp only [List.mapM_cons, Option.bind_eq_bind, Option.bind_eq_some_iff] at h
    obtain ⟨text, -, others, hothers, h⟩ := h
    obtain rfl := Option.some.inj h
    rw [List.length_cons, List.length_cons, ih hothers]

theorem FilterTree.outlines_map_compare (attr : String) (texts : List String) :
    outlines (texts.map (.compare .equal attr)) = (List.replicate texts.length ['(', ')']).flatten := by
  induction texts with
  | nil => rfl
  | cons text texts ih =>
    rw [List.map_cons, outlines, ih, List.length_cons, List.replicate_succ, List.flatten_cons]
    rfl

namespace Condition

mutual

/-- The outline of the filter for a condition is told by its shape. -/
theorem outline_tree : ∀ (c : Condition) (negate : Bool) {f : Filter}, (c.normal negate).tree? = some f →
    f.outline = c.shape.outline negate
  | .comparison op column value, negate, f, h => by
    obtain ⟨text, -, rfl⟩ := Option.map_eq_some_iff.mp h
    exact Comparator.outline_filter _ _ _
  | .not condition, negate, f, h => outline_tree condition (!negate) h
  | .and conditions, negate, f, h => by
    cases negate <;>
    · obtain ⟨fs, hfs, rfl⟩ := Option.map_eq_some_iff.mp h
      rw [FilterTree.outline, outlines_trees conditions _ hfs]
      rfl
  | .or conditions, negate, f, h => by
    cases negate <;>
    · obtain ⟨fs, hfs, rfl⟩ := Option.map_eq_some_iff.mp h
      rw [FilterTree.outline, outlines_trees conditions _ hfs]
      rfl
  | .like column pattern escape negated, negate, f, h => by
    obtain ⟨runs, -, rfl⟩ := Option.map_eq_some_iff.mp h
    rw [FilterTree.outline_negatedIf, FilterTree.outline_toFilter]
    rfl
  | .inList column values negated, negate, f, h => by
    obtain ⟨texts, htexts, rfl⟩ := Option.map_eq_some_iff.mp h
    rw [FilterTree.outline_negatedIf, FilterTree.outline, FilterTree.outlines_map_compare, Literal.length_of_mapM_text? htexts]
    rfl
  | .isNull column negated, negate, f, h => by
    obtain rfl := Option.some.inj h
    exact FilterTree.outline_negatedIf _ _

theorem outlines_trees : ∀ (cs : List Condition) (negate : Bool) {fs : List Filter},
    trees? (normalAll negate cs) = some fs → FilterTree.outlines fs = Shape.outlines negate (shapes cs)
  | [], negate, fs, h => by
    obtain rfl := Option.some.inj h
    rfl
  | c :: cs, negate, fs, h => by
    obtain ⟨f, hf, hrest⟩ := Option.bind_eq_some_iff.mp h
    obtain ⟨gs, hgs, rfl⟩ := Option.map_eq_some_iff.mp hrest
    rw [FilterTree.outlines, outline_tree c negate hf, outlines_trees cs negate hgs, shapes, Shape.outlines]

end

end Condition

/-! ### Queries -/

/-- Two queries have conditions of one shape, and declare object classes alike. -/
structure Query.Alike (q q' : Query) : Prop where
  selection : q.selection.map Condition.shape = q'.selection.map Condition.shape
  objectClass : q.tables.map (·.objectClass.isSome) = q'.tables.map (·.objectClass.isSome)

namespace SearchRequest

/-- The parentheses of a filter, and the operators that stand right after an opening one. -/
def skeleton (d : SearchRequest) : List Char :=
  Skeleton.after false d.filter.toList

/-- The outline of the filter for a condition of some shape, with or without an object class to ask for. -/
def outline (restricted : Bool) : Option Shape → List Char
  | none => ['(', ')']
  | some shape =>
    if restricted then '(' :: '&' :: ('(' :: ')' :: (shape.outline false ++ [')'])) else shape.outline false

theorem outline_tree? {settings : SearchSettings} {t : Table} {selection : Option Condition} {f : Filter}
    (h : tree? settings t selection = some f) :
    f.outline = outline (settings.restrictToObjectClass && t.objectClass.isSome) (selection.map Condition.shape) := by
  unfold tree? restriction? at h
  cases hasked : settings.restrictToObjectClass <;> cases hclass : t.objectClass <;> cases selection <;>
    simp only [hasked, hclass, Bool.false_eq_true, ↓reduceIte, Option.map_some, Option.map_none] at h
  case false.none.none | false.some.none | true.none.none | true.some.none =>
    obtain rfl := Option.some.inj h
    rfl
  case false.none.some condition | false.some.some condition | true.none.some condition =>
    exact condition.outline_tree false h
  case true.some.some objectClass condition =>
    obtain ⟨g, hg, rfl⟩ := Option.map_eq_some_iff.mp h
    have houtline := condition.outline_tree false hg
    simp [FilterTree.outline, FilterTree.outlines, houtline, outline]

/-- The skeleton of a filter is told by the shape of its query. -/
theorem skeleton_eq {settings : SearchSettings} {q : Query} {d : SearchRequest} (h : build settings q = .ok d) :
    ∃ t, q.tables = [t] ∧ Skeleton.Balanced d.skeleton ∧
      d.skeleton = outline (settings.restrictToObjectClass && t.objectClass.isSome) (q.selection.map Condition.shape) := by
  obtain ⟨t, s, htables, hs, hfilter⟩ := build_filter h
  obtain ⟨attrs, f, hf, hwrites, -⟩ := filterOf_writes hs
  have hchars : f.WellFormed fun i => AttributeChars i.attr.toList :=
    (hwrites.attr fun a => AttributeChars a.toList).mpr hwrites.chars
  have hskeleton : d.skeleton = f.outline := by
    rw [skeleton, hfilter, String.toList_ofList, hwrites.text, Skeleton.after_writer hchars]
  refine ⟨t, htables, ?_, ?_⟩
  · rw [hskeleton]
    exact f.balanced_outline
  · rw [hskeleton, outline_tree? hf]

/-- Queries that differ in names, values and patterns only have filters of one structure, which is balanced. -/
theorem skeleton_eq_of_alike (settings : SearchSettings) (q q' : Query) (d d' : SearchRequest)
    (h : build settings q = .ok d) (h' : build settings q' = .ok d') (halike : q.Alike q') :
    d.skeleton = d'.skeleton ∧ Skeleton.Balanced d.skeleton := by
  obtain ⟨t, htables, hbalanced, hskeleton⟩ := skeleton_eq h
  obtain ⟨t', htables', -, hskeleton'⟩ := skeleton_eq h'
  have hclass : t.objectClass.isSome = t'.objectClass.isSome := by
    simpa [htables, htables'] using halike.objectClass
  refine ⟨?_, hbalanced⟩
  rw [hskeleton, hskeleton', hclass, halike.selection]

theorem skeleton_eq_of_alike_injected :
    let settings : SearchSettings := { restrictToObjectClass := true }
    let q (objectClass column value pattern : String) (escape : Option Char) :=
      (Query.ofTable { name := "people", nameInSource := some "ou=people", objectClass := some objectClass }).filter
        (.not (.or [.comparison .lt { name := column } (.string value), .like { name := column } pattern escape true,
          .among { name := column } [.string value, .string pattern]]))
    ∃ d d', build settings (q "person" "cn" "a" "b" none) = .ok d ∧
      build settings (q "*)(&" "-.;" "x)(|(uid=*" "!%)(&(!!%" (some '!')) = .ok d' ∧
      d.skeleton = d'.skeleton ∧ Skeleton.Balanced d.skeleton := by
  intro settings q
  have hbuilds : (build settings (q "person" "cn" "a" "b" none)).toOption.isSome ∧
      (build settings (q "*)(&" "-.;" "x)(|(uid=*" "!%)(&(!!%" (some '!'))).toOption.isSome := by decide +kernel
  obtain ⟨d, hd⟩ := Option.isSome_iff_exists.mp hbuilds.1
  obtain ⟨d', hd'⟩ := Option.isSome_iff_exists.mp hbuilds.2
  refine ⟨d, d', toOption_eq_some.mp hd, toOption_eq_some.mp hd', ?_⟩
  exact skeleton_eq_of_alike settings _ _ d d' (toOption_eq_some.mp hd) (toOption_eq_some.mp hd') ⟨rfl, rfl⟩

end SearchRequest

end DirectorySearch
