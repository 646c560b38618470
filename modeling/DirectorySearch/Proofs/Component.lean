import DirectorySearch.Filter.Reader
import DirectorySearch.Proofs.Attribute
import DirectorySearch.Proofs.Escape
import DirectorySearch.Proofs.Items

/-! Reading what was written. The text of a filter whose values are as written reads back as that
    filter, whatever follows it; where one attribute is no description, nothing is read. -/

namespace DirectorySearch

open Token

/-! ### Texts -/

abbrev RawItem := Item (List Char)

/-- A word that a value can be: not empty. -/
def Token.Piece (w : List Char) : Prop := Word w ∧ w ≠ []

namespace RawItem

/-- What follows the first star of a substring item. -/
def tail (any : List (List Char)) (final : Option (List Char)) : List Char :=
  any.flatMap (· ++ ['*']) ++ final.getD []

/-- What follows the attribute of an item. -/
def claim : RawItem → List Char
  | .compare relation _ word => relation.symbol ++ word
  | .present _ => ['=', '*']
  | .substrings _ initial any final => '=' :: (initial.getD [] ++ '*' :: tail any final)

/-- An item without its parentheses. -/
def text (i : RawItem) : List Char :=
  i.attr.toList ++ claim i

/-- Values are words, pieces are not empty, and a substring item has a piece. -/
def Worded : RawItem → Prop
  | .compare _ _ word => Word word
  | .present _ => True
  | .substrings _ initial any final => (∀ w ∈ initial, Piece w) ∧ (∀ w ∈ any, Piece w) ∧ (∀ w ∈ final, Piece w) ∧
    (initial.isSome = true ∨ any ≠ [] ∨ final.isSome = true)

/-- An item that is read back from its text. -/
def Readable (i : RawItem) : Prop := Attribute i.attr.toList ∧ Worded i

/-- An item whose attribute has only characters of descriptions, but may be none. -/
def Spelled (i : RawItem) : Prop := AttributeChars i.attr.toList ∧ Worded i

end RawItem

namespace RawFilter

mutual

def text : RawFilter → List Char
  | .and parts => '(' :: '&' :: (allText parts ++ [')'])
  | .or parts => '(' :: '|' :: (allText parts ++ [')'])
  | .not part => '(' :: '!' :: (text part ++ [')'])
  | .compare relation attr word => '(' :: (RawItem.text (.compare relation attr word) ++ [')'])
  | .present attr => '(' :: (RawItem.text (.present attr) ++ [')'])
  | .substrings attr initial any final => '(' :: (RawItem.text (.substrings attr initial any final) ++ [')'])

def allText : List RawFilter → List Char
  | [] => []
  | part :: parts => text part ++ allText parts

end

theorem text_toFilter (i : RawItem) : text i.toFilter = '(' :: (RawItem.text i ++ [')']) := by
  cases i <;> rfl

theorem text_eq_cons (t : RawFilter) : ∃ r, text t = '(' :: r := by
  cases t <;> exact ⟨_, rfl⟩

end RawFilter

namespace Reader

/-! ### Items -/

theorem attr_append {attr : String} (ha : Attribute attr.toList) {rest : List Char} (h : AttributeEnds rest)
    (pos : Nat) : Reader.attr pos (attr.toList ++ rest) = some ⟨attr, pos + attr.toList.length, rest⟩ := by
  simp only [Reader.attr, ha.attribute?_append h, String.ofList_toList]

theorem symbol_ends (relation : Relation) (rest : List Char) : AttributeEnds (relation.symbol ++ rest) := by
  intro c hc
  cases relation <;> cases hc <;> decide

theorem equals_ends (rest : List Char) : AttributeEnds ('=' :: rest) :=
  symbol_ends .equal rest

theorem pieces_star {w : List Char} (hw : Piece w) (fuel pos : Nat) (rest : List Char) :
    pieces (fuel + 1) pos (w ++ '*' :: rest) =
      { pieces fuel (pos + w.length + 1) rest with any := w :: (pieces fuel (pos + w.length + 1) rest).any } := by
  obtain ⟨hword, hne⟩ := hw
  rw [pieces, value_word_star hword]
  cases w with
  | nil => exact absurd rfl hne
  | cons c w => rfl

theorem pieces_last {w : List Char} (hw : Piece w) (fuel pos : Nat) (rest : List Char) :
    pieces (fuel + 1) pos (w ++ ')' :: rest) = ⟨pos + w.length, [], some w, pos + w.length, ')' :: rest⟩ := by
  obtain ⟨hword, hne⟩ := hw
  rw [pieces, value_word_close hword]
  cases w with
  | nil => exact absurd rfl hne
  | cons c w => rfl

theorem pieces_close (fuel pos : Nat) (rest : List Char) :
    pieces (fuel + 1) pos (')' :: rest) = ⟨pos, [], none, pos, ')' :: rest⟩ := by
  rw [pieces, value_stop (by decide) (by decide)]

/-- After the first star: pieces with a star each, at most one without, and the end of the item. -/
theorem pieces_tail {final : Option (List Char)} (hfinal : ∀ w ∈ final, Piece w) (rest : List Char) :
    ∀ {any : List (List Char)} {fuel : Nat} (pos : Nat), (∀ w ∈ any, Piece w) → any.length < fuel →
      ∃ reach, pieces fuel pos (RawItem.tail any final ++ ')' :: rest) =
        ⟨reach, any, final, pos + (RawItem.tail any final).length, ')' :: rest⟩
  | [], fuel + 1, pos, _, _ => by
    cases final with
    | none => exact ⟨pos, pieces_close fuel pos rest⟩
    | some w => exact ⟨pos + w.length, pieces_last (hfinal w rfl) fuel pos rest⟩
  | w :: any, fuel + 1, pos, hany, hfuel => by
    obtain ⟨reach, ih⟩ := pieces_tail hfinal rest (pos + w.length + 1)
      (fun v hv => hany v (List.mem_cons_of_mem _ hv)) (Nat.lt_of_succ_lt_succ hfuel)
    have htail : RawItem.tail (w :: any) final ++ ')' :: rest =
        w ++ '*' :: (RawItem.tail any final ++ ')' :: rest) := by
      simp [RawItem.tail]
    have hlength : (RawItem.tail (w :: any) final).length = w.length + 1 + (RawItem.tail any final).length := by
      simp [RawItem.tail]
      omega
    refine ⟨reach, ?_⟩
    rw [htail, pieces_star (hany w List.mem_cons_self), ih, hlength]
    simp only [Nat.add_assoc]

theorem found_orElse {α : Type} (first : Attempt α) (second : Unit → Attempt α) :
    (first.orElse second).found = first.found.or (second ()).found := by
  unfold Attempt.orElse
  cases h : first.found with
  | none => rfl
  | some f => exact h

theorem present_text {attr : String} (ha : Attribute attr.toList) (pos : Nat) (rest : List Char) :
    (present pos (attr.toList ++ '=' :: '*' :: ')' :: rest)).found =
      some ⟨.present attr, pos + attr.toList.length + 2, ')' :: rest⟩ := by
  simp only [present, attr_append ha (equals_ends _)]

/-- A presence item is not read where anything but a lone star follows. -/
theorem present_found_none {attr : String} (ha : Attribute attr.toList) (pos : Nat) {rest : List Char}
    (hends : AttributeEnds rest) (h : ∀ r, rest ≠ '=' :: '*' :: ')' :: r) :
    (present pos (attr.toList ++ rest)).found = none := by
  simp only [present, attr_append ha hends]
  split
  · next heq =>
    simp only [Option.some.injEq, Found.mk.injEq] at heq
    obtain ⟨-, -, rfl⟩ := heq
    exact absurd rfl (h _)
  · rfl

theorem substrings_open {attr : String} (ha : Attribute attr.toList) (pos : Nat) (rest : List Char) :
    (substrings pos (attr.toList ++ '=' :: '*' :: rest)).found =
      let next := pieces rest.length (pos + attr.toList.length + 2) rest
      some ⟨.substrings attr none next.any next.final, next.pos, next.rest⟩ := by
  simp only [substrings, attr_append ha (equals_ends _), value_stop (c := '*') (by decide) (by decide)]

theorem substrings_initial {attr : String} (ha : Attribute attr.toList) {w : List Char} (hw : Piece w) (pos : Nat)
    (rest : List Char) :
    (substrings pos (attr.toList ++ '=' :: (w ++ '*' :: rest))).found =
      let next := pieces rest.length (pos + attr.toList.length + w.length + 2) rest
      some ⟨.substrings attr (some w) next.any next.final, next.pos, next.rest⟩ := by
  obtain ⟨hword, hne⟩ := hw
  simp only [substrings, attr_append ha (equals_ends _), value_word_star hword]

theorem length_le_tail (any : List (List Char)) (final : Option (List Char)) :
    any.length ≤ (RawItem.tail any final).length := by
  induction any with
  | nil => exact Nat.zero_le _
  | cons w any ih =>
    simp only [RawItem.tail, List.flatMap_cons, List.append_assoc, List.length_append, List.length_cons] at ih ⊢
    omega

theorem substrings_text {attr : String} {initial final : Option (List Char)} {any : List (List Char)}
    (ha : Attribute attr.toList) (hw : RawItem.Worded (.substrings attr initial any final)) (pos : Nat)
    (rest : List Char) :
    (substrings pos (RawItem.text (.substrings attr initial any final) ++ ')' :: rest)).found =
      some ⟨.substrings attr initial any final,
        pos + (RawItem.text (.substrings attr initial any final)).length, ')' :: rest⟩ := by
  obtain ⟨hinitial, hany, hfinal, -⟩ := hw
  have hfuel : any.length < (RawItem.tail any final ++ ')' :: rest).length := by
    have := length_le_tail any final
    simp only [List.length_append, List.length_cons]
    omega
  simp only [RawItem.text, RawItem.claim, Item.attr, List.append_assoc, List.cons_append, List.length_append,
    List.length_cons]
  cases initial with
  | none =>
    obtain ⟨reach, htail⟩ := pieces_tail hfinal rest (pos + attr.toList.length + 2) hany hfuel
    rw [Option.getD_none, List.nil_append, substrings_open ha, htail, List.length_nil]
    simp only [Option.some.injEq, Found.mk.injEq, true_and, and_true]
    omega
  | some w =>
    obtain ⟨reach, htail⟩ := pieces_tail hfinal rest (pos + attr.toList.length + w.length + 2) hany hfuel
    rw [Option.getD_some, substrings_initial ha (hinitial w rfl), htail]
    simp only [Option.some.injEq, Found.mk.injEq, true_and, and_true]
    omega

/-- A substring item is not read where no star follows the first value. -/
theorem substrings_found_none {attr : String} (ha : Attribute attr.toList) (relation : Relation) {w : List Char}
    (hw : Word w) (pos : Nat) (rest : List Char) :
    (substrings pos (attr.toList ++ (relation.symbol ++ (w ++ ')' :: rest)))).found = none := by
  simp only [substrings, attr_append ha (symbol_ends _ _)]
  cases relation with
  | equal =>
    simp only [Relation.symbol, List.cons_append, List.nil_append, value_word_close hw]
    cases w <;> rfl
  | greaterOrEqual => rfl
  | lessOrEqual => rfl
  | approx => rfl

theorem relation?_symbol (relation : Relation) (rest : List Char) :
    relation? (relation.symbol ++ rest) = some (relation, rest) := by
  cases relation <;> rfl

theorem comparison_text {attr : String} {relation : Relation} {w : List Char} (ha : Attribute attr.toList)
    (hw : Word w) (pos : Nat) (rest : List Char) :
    (comparison pos (attr.toList ++ (relation.symbol ++ (w ++ ')' :: rest)))).found =
      some ⟨.compare relation attr w, pos + attr.toList.length + relation.symbol.length + w.length, ')' :: rest⟩ := by
  simp only [comparison, attr_append ha (symbol_ends _ _), relation?_symbol, value_word_close hw]

/-- The first character of a word is neither a star nor the end of an item. -/
theorem Piece.append_ne {w : List Char} (hw : Piece w) {c : Char} (hc : isPlain c = false) (hb : c ≠ '\\')
    (rest r : List Char) : w ++ rest ≠ c :: r := by
  obtain ⟨hword, hne⟩ := hw
  cases w with
  | nil => exact absurd rfl hne
  | cons d w =>
    intro h
    obtain ⟨rfl, -⟩ := List.cons.inj h
    rcases hword.head with hd | hd
    · rw [hc] at hd
      cases hd
    · exact hb hd

theorem item_text {i : RawItem} (h : i.Readable) (pos : Nat) (rest : List Char) :
    (item pos (i.text ++ ')' :: rest)).found = some ⟨i.toFilter, pos + i.text.length, ')' :: rest⟩ := by
  obtain ⟨ha, hw⟩ := h
  simp only [item, found_orElse]
  cases i with
  | present attr =>
    have ha : Attribute attr.toList := ha
    simp only [RawItem.text, RawItem.claim, Item.attr, List.append_assoc, List.cons_append, List.nil_append,
      present_text ha, Option.some_or, Item.toFilter, List.length_append, List.length_cons, List.length_nil,
      Nat.add_assoc]
  | substrings attr initial any final =>
    have ha : Attribute attr.toList := ha
    have hpresent : (present pos (RawItem.text (.substrings attr initial any final) ++ ')' :: rest)).found = none := by
      obtain ⟨hinitial, hany, hfinal, hsome⟩ := hw
      simp only [RawItem.text, RawItem.claim, Item.attr, List.append_assoc, List.cons_append]
      apply present_found_none ha pos (equals_ends _)
      intro r h
      obtain ⟨-, h⟩ := List.cons.inj h
      -- Some piece stands where the lone star or the end would be.
      cases initial with
      | some w => exact Piece.append_ne (hinitial w rfl) (by decide) (by decide) _ _ h
      | none =>
        obtain ⟨-, h⟩ := List.cons.inj h
        cases any with
        | cons w any =>
          simp only [RawItem.tail, List.flatMap_cons, List.append_assoc] at h
          exact Piece.append_ne (hany w List.mem_cons_self) (by decide) (by decide) _ _ h
        | nil =>
          cases final with
          | some w => exact Piece.append_ne (hfinal w rfl) (by decide) (by decide) _ _ h
          | none => simp at hsome
    rw [hpresent, Option.none_or, substrings_text ha hw]
    rfl
  | compare relation attr w =>
    have ha : Attribute attr.toList := ha
    have hw : Word w := hw
    have hpresent : (present pos (RawItem.text (.compare relation attr w) ++ ')' :: rest)).found = none := by
      simp only [RawItem.text, RawItem.claim, Item.attr, List.append_assoc]
      apply present_found_none ha pos (symbol_ends _ _)
      intro r h
      cases relation with
      | equal =>
        obtain ⟨-, h⟩ := List.cons.inj h
        cases w with
        | nil => cases h
        | cons c w => exact Piece.append_ne ⟨hw, by simp⟩ (by decide) (by decide) _ _ h
      | greaterOrEqual => cases h
      | lessOrEqual => cases h
      | approx => cases h
    rw [hpresent, Option.none_or]
    simp only [RawItem.text, RawItem.claim, Item.attr, List.append_assoc, substrings_found_none ha relation hw,
      Option.none_or, comparison_text ha hw, Item.toFilter, List.length_append, Nat.add_assoc]

/-- No item is read where its attribute has only characters of descriptions and is none. -/
theorem item_refused {i : RawItem} (hc : AttributeChars i.attr.toList) (ha : ¬Attribute i.attr.toList) (pos : Nat)
    (rest : List Char) : (item pos (i.text ++ rest)).found = none := by
  have hends : AttributeEnds (i.claim ++ rest) := by
    cases i with
    | compare relation attr w =>
      simp only [RawItem.claim, List.append_assoc]
      exact symbol_ends relation _
    | present attr => exact equals_ends _
    | substrings attr initial any final => exact equals_ends _
  -- Whatever is taken of the attribute, what is left starts with one of its characters.
  have hleft : ∀ f, Reader.attr pos (i.text ++ rest) = some f →
      ∃ c r, f.rest = c :: r ∧ (isKeyChar c = true ∨ c = '.' ∨ c = ';') := by
    intro f hf
    simp only [Reader.attr, RawItem.text, List.append_assoc] at hf
    split at hf
    · next word left hread =>
      cases hf
      obtain ⟨c, r, hmem, rfl⟩ := attribute?_leaves ha hends hread
      exact ⟨c, r, rfl, hc c hmem⟩
    · cases hf
  cases hattr : Reader.attr pos (i.text ++ rest) with
  | none => simp only [item, found_orElse, present, substrings, comparison, hattr, Attempt.failed, Option.none_or]
  | some f =>
    obtain ⟨attr, p, left⟩ := f
    obtain ⟨c, r, hrest, hchar⟩ := hleft _ hattr
    have hrest : left = c :: r := hrest
    subst hrest
    have h1 : c ≠ '=' := by rintro rfl; revert hchar; decide
    have h2 : c ≠ '~' := by rintro rfl; revert hchar; decide
    have h3 : c ≠ '>' := by rintro rfl; revert hchar; decide
    have h4 : c ≠ '<' := by rintro rfl; revert hchar; decide
    have hrelation : relation? (c :: r) = none := by
      unfold relation?
      split <;> simp_all
    simp [item, found_orElse, present, substrings, comparison, hattr, Attempt.failed, h1, hrelation]

/-! ### Components -/

theorem found_close {pos p : Nat} {inner : Attempt RawFilter} {tree : RawFilter} {rest : List Char}
    (h : inner.found = some ⟨tree, p, ')' :: rest⟩) : (inner.close pos).found = some ⟨tree, p + 1, rest⟩ := by
  simp only [Attempt.close, h]

theorem found_close_none {pos : Nat} {inner : Attempt RawFilter} (h : inner.found = none) :
    (inner.close pos).found = none := by
  simp only [Attempt.close, h, Attempt.failed]

theorem found_close_open {pos p : Nat} {inner : Attempt RawFilter} {tree : RawFilter} {rest : List Char}
    (h : inner.found = some ⟨tree, p, '(' :: rest⟩) : (inner.close pos).found = none := by
  rw [Attempt.close, h]
  rfl

theorem found_close_congr {pos : Nat} {a b : Attempt RawFilter} (h : a.found = b.found) :
    (a.close pos).found = (b.close pos).found := by
  unfold Attempt.close
  rw [h]
  split <;> rfl

/-- The two marks of groups, with what they make of their parts. -/
inductive IsGroup : Char → (List RawFilter → RawFilter) → Prop where
  | and : IsGroup '&' .and
  | or : IsGroup '|' .or

theorem component_group {mark : Char} {make : List RawFilter → RawFilter} (h : IsGroup mark make) (fuel pos : Nat)
    (s : List Char) :
    (component (fuel + 1) pos ('(' :: mark :: s)).found =
      (((components fuel (pos + 2) s).group make).close pos).found := by
  cases h with
  | and =>
    rw [component]
    apply found_close_congr
    split <;> rfl
  | or => exact found_close_congr rfl

theorem component_not (fuel pos : Nat) (s : List Char) :
    (component (fuel + 1) pos ('(' :: '!' :: s)).found =
      (Attempt.close pos ⟨0, (component fuel (pos + 2) s).found.map fun f => ⟨.not f.value, f.pos, f.rest⟩⟩).found := by
  rw [component]
  exact found_close_congr rfl

/-- A text that no mark of a group or negation starts. -/
def Unmarked (s : List Char) : Prop :=
  ∀ c ∈ s.head?, c ≠ '&' ∧ c ≠ '|' ∧ c ≠ '!'

theorem component_of_unmarked {s : List Char} (h : Unmarked s) (fuel pos : Nat) :
    component (fuel + 1) pos ('(' :: s) = .close pos (.after (pos + 1) (item (pos + 1) s)) := by
  rw [component]
  · rintro r rfl
    exact (h '&' rfl).1 rfl
  · rintro r rfl
    exact (h '|' rfl).2.1 rfl
  · rintro r rfl
    exact (h '!' rfl).2.2 rfl

theorem component_item {s : List Char} (h : Unmarked s) (fuel pos : Nat) :
    (component (fuel + 1) pos ('(' :: s)).found = ((item (pos + 1) s).close pos).found := by
  rw [component_of_unmarked h]
  exact found_close_congr rfl

theorem unmarked_text {i : RawItem} (h : AttributeChars i.attr.toList) (rest : List Char) :
    Unmarked (i.text ++ rest) := by
  intro c hc
  have hchar : isKeyChar c = true ∨ c = '.' ∨ c = ';' ∨ c = '=' ∨ c = '~' ∨ c = '>' ∨ c = '<' := by
    simp only [RawItem.text, List.append_assoc] at hc
    cases hattr : i.attr.toList with
    | cons d s =>
      rw [hattr] at hc h
      obtain rfl : d = c := by simpa using hc
      rcases h d List.mem_cons_self with hd | hd | hd
      · exact Or.inl hd
      · exact Or.inr (Or.inl hd)
      · exact Or.inr (Or.inr (Or.inl hd))
    | nil =>
      rw [hattr, List.nil_append] at hc
      cases i with
      | compare relation attr w => cases relation <;> cases hc <;> decide
      | present attr => cases hc; decide
      | substrings attr initial any final => cases hc; decide
  refine ⟨?_, ?_, ?_⟩ <;> rintro rfl <;> revert hchar <;> decide

theorem component_of_not_open {s : List Char} (h : s.head? ≠ some '(') (fuel pos : Nat) :
    component fuel pos s = .failed pos := by
  cases fuel with
  | zero => simp [component]
  | succ fuel =>
    cases s with
    | nil => rfl
    | cons c s =>
      have hc : c ≠ '(' := fun hc => h (by rw [hc]; rfl)
      simp [component, hc]

theorem component_found_none {s : List Char} (h : s.head? ≠ some '(') (fuel pos : Nat) :
    (component fuel pos s).found = none := by
  rw [component_of_not_open h]
  rfl

/-! ### Rows of components -/

theorem components_cons {fuel pos p q reach : Nat} {s rest r : List Char} {tree : RawFilter} {trees : List RawFilter}
    (hfirst : (component fuel pos s).found = some ⟨tree, p, rest⟩)
    (hnext : components fuel p rest = ⟨reach, trees, q, r⟩) :
    ∃ reach', components (fuel + 1) pos s = ⟨reach', tree :: trees, q, r⟩ :=
  ⟨max (component fuel pos s).reach reach, by simp only [components, hfirst, hnext]⟩

theorem components_stop {fuel pos : Nat} {s : List Char} (h : (component fuel pos s).found = none) :
    ∃ reach, components (fuel + 1) pos s = ⟨reach, [], pos, s⟩ :=
  ⟨(component fuel pos s).reach, by simp only [components, h]⟩

/-- A row ends where no component starts. -/
theorem components_end {s : List Char} (h : s.head? ≠ some '(') (fuel pos : Nat) :
    ∃ reach, components fuel pos s = ⟨reach, [], pos, s⟩ := by
  cases fuel with
  | zero => exact ⟨pos, by rw [components]⟩
  | succ fuel => exact components_stop (component_found_none h fuel pos)

theorem found_group {row : Row} {make : List RawFilter → RawFilter} (h : row.parts ≠ []) :
    (row.group make).found = some ⟨make row.parts, row.pos, row.rest⟩ := by
  unfold Row.group
  split
  · next hnil => exact absurd hnil h
  · rfl

open RawFilter (text allText)

theorem component_item_text {i : RawItem} (h : i.Readable) (fuel pos : Nat) (rest : List Char)
    (hfuel : (text i.toFilter).length ≤ fuel + 1) :
    (component fuel pos (text i.toFilter ++ rest)).found = some ⟨i.toFilter, pos + (text i.toFilter).length, rest⟩ := by
  rw [RawFilter.text_toFilter] at hfuel ⊢
  simp only [List.length_cons, List.length_append, List.length_nil] at hfuel
  obtain ⟨fuel, rfl⟩ : ∃ n, fuel = n + 1 := ⟨fuel - 1, by omega⟩
  simp only [List.cons_append, List.append_assoc, List.nil_append]
  rw [component_item (unmarked_text h.1.chars _), found_close (item_text h _ _)]
  simp only [List.length_cons, List.length_append, List.length_nil, Option.some.injEq, Found.mk.injEq, true_and,
    and_true]
  omega

theorem IsGroup.text_eq {mark : Char} {make : List RawFilter → RawFilter} (h : IsGroup mark make)
    (parts : List RawFilter) : text (make parts) = '(' :: mark :: (allText parts ++ [')']) := by
  cases h <;> rfl

/-- A group is read back once its parts are read back as a row. -/
theorem component_group_text {mark : Char} {make : List RawFilter → RawFilter} (h : IsGroup mark make) {fuel pos : Nat}
    {parts : List RawFilter} {rest : List Char} (hne : parts ≠ []) (hfuel : (text (make parts)).length ≤ fuel + 1)
    (hrow : ∀ {n : Nat}, (allText parts).length ≤ n → ∃ reach, components n (pos + 2) (allText parts ++ ')' :: rest) =
      ⟨reach, parts, pos + 2 + (allText parts).length, ')' :: rest⟩) :
    (component fuel pos (text (make parts) ++ rest)).found =
      some ⟨make parts, pos + (text (make parts)).length, rest⟩ := by
  rw [h.text_eq] at hfuel ⊢
  simp only [List.length_cons, List.length_append, List.length_nil, List.cons_append, List.append_assoc,
    List.nil_append] at hfuel ⊢
  obtain ⟨fuel, rfl⟩ : ∃ n, fuel = n + 1 := ⟨fuel - 1, by omega⟩
  obtain ⟨reach, hrow⟩ := hrow (n := fuel) (by omega)
  rw [component_group h, hrow, found_close (found_group hne)]
  simp only [Option.some.injEq, Found.mk.injEq, true_and, and_true]
  omega

mutual

/-- A filter is read back from its text, and nothing of what follows is taken. -/
theorem component_text : ∀ {t : RawFilter} (fuel pos : Nat) (rest : List Char),
    t.WellFormed RawItem.Readable → (text t).length ≤ fuel + 1 →
      (component fuel pos (text t ++ rest)).found = some ⟨t, pos + (text t).length, rest⟩
  | .and parts, fuel, pos, rest, ⟨hne, hparts⟩, hfuel =>
    component_group_text .and hne hfuel fun hn => components_text _ (pos + 2) (')' :: rest) (by simp) hparts hn
  | .or parts, fuel, pos, rest, ⟨hne, hparts⟩, hfuel =>
    component_group_text .or hne hfuel fun hn => components_text _ (pos + 2) (')' :: rest) (by simp) hparts hn
  | .not part, fuel, pos, rest, hpart, hfuel => by
    simp only [text, List.length_cons, List.length_append, List.length_nil, List.cons_append, List.append_assoc,
      List.nil_append] at hfuel ⊢
    obtain ⟨fuel, rfl⟩ : ∃ n, fuel = n + 1 := ⟨fuel - 1, by omega⟩
    have hinner := component_text (t := part) fuel (pos + 2) (')' :: rest) hpart (by omega)
    rw [component_not, hinner, found_close rfl]
    simp only [Option.some.injEq, Found.mk.injEq, true_and, and_true]
    omega
  | .compare .., fuel, pos, rest, h, hfuel => component_item_text (i := .compare ..) h fuel pos rest hfuel
  | .present _, fuel, pos, rest, h, hfuel => component_item_text (i := .present _) h fuel pos rest hfuel
  | .substrings .., fuel, pos, rest, h, hfuel => component_item_text (i := .substrings ..) h fuel pos rest hfuel

theorem components_text : ∀ {parts : List RawFilter} (fuel pos : Nat) (rest : List Char),
    rest.head? ≠ some '(' → FilterTree.AllWellFormed RawItem.Readable parts → (allText parts).length ≤ fuel →
      ∃ reach, components fuel pos (allText parts ++ rest) = ⟨reach, parts, pos + (allText parts).length, rest⟩
  | [], fuel, pos, _, hrest, _, _ => components_end hrest fuel pos
  | part :: parts, fuel, pos, rest, hrest, ⟨hpart, hparts⟩, hfuel => by
    obtain ⟨r, hr⟩ := RawFilter.text_eq_cons part
    have hpos : 0 < (text part).length := by simp [hr]
    simp only [allText, List.length_append, List.append_assoc] at hfuel ⊢
    obtain ⟨fuel, rfl⟩ : ∃ n, fuel = n + 1 := ⟨fuel - 1, by omega⟩
    have hfirst := component_text fuel pos (allText parts ++ rest) hpart (by omega)
    obtain ⟨reach, hnext⟩ := components_text fuel (pos + (text part).length) rest hrest hparts (by omega)
    rw [← Nat.add_assoc]
    exact components_cons hfirst hnext

end

theorem component_item_refused {i : RawItem} (h : i.Spelled) (hr : ¬i.Readable) (fuel pos : Nat) (rest : List Char) :
    (component fuel pos (text i.toFilter ++ rest)).found = none := by
  obtain ⟨hchars, hworded⟩ := h
  have ha : ¬Attribute i.attr.toList := fun ha => hr ⟨ha, hworded⟩
  cases fuel with
  | zero => simp [component, Attempt.failed]
  | succ fuel =>
    rw [RawFilter.text_toFilter]
    simp only [List.cons_append, List.append_assoc]
    rw [component_item (unmarked_text hchars _)]
    exact found_close_none (item_refused hchars ha _ _)

/-- A group is refused once the row of its parts ends before one of them. -/
theorem component_group_refused {mark : Char} {make : List RawFilter → RawFilter} (h : IsGroup mark make)
    {fuel pos : Nat} {parts : List RawFilter} {rest : List Char} (hfuel : (text (make parts)).length ≤ fuel + 1)
    (hrow : ∀ {n : Nat}, (allText parts).length ≤ n →
      ∃ reach read p r, components n (pos + 2) (allText parts ++ ')' :: rest) = ⟨reach, read, p, '(' :: r⟩) :
    (component fuel pos (text (make parts) ++ rest)).found = none := by
  rw [h.text_eq] at hfuel ⊢
  simp only [List.length_cons, List.length_append, List.length_nil, List.cons_append, List.append_assoc,
    List.nil_append] at hfuel ⊢
  obtain ⟨fuel, rfl⟩ : ∃ n, fuel = n + 1 := ⟨fuel - 1, by omega⟩
  obtain ⟨reach, read, p, r, hrow⟩ := hrow (n := fuel) (by omega)
  rw [component_group h, hrow]
  cases read with
  | nil => exact found_close_none rfl
  | cons part read => exact found_close_open rfl

mutual

/-- A filter is refused where the attribute of an item is no description. -/
theorem component_refused : ∀ {t : RawFilter} (fuel pos : Nat) (rest : List Char), t.WellFormed RawItem.Spelled →
    ¬t.WellFormed RawItem.Readable → (text t).length ≤ fuel + 1 → (component fuel pos (text t ++ rest)).found = none
  | .and parts, fuel, pos, rest, ⟨hne, hparts⟩, hr, hfuel =>
    component_group_refused .and hfuel fun hn =>
      components_refused _ (pos + 2) (')' :: rest) hparts (fun hall => hr ⟨hne, hall⟩) hn
  | .or parts, fuel, pos, rest, ⟨hne, hparts⟩, hr, hfuel =>
    component_group_refused .or hfuel fun hn =>
      components_refused _ (pos + 2) (')' :: rest) hparts (fun hall => hr ⟨hne, hall⟩) hn
  | .not part, fuel, pos, rest, hpart, hr, hfuel => by
    simp only [text, List.length_cons, List.length_append, List.length_nil, List.cons_append, List.append_assoc,
      List.nil_append] at hfuel ⊢
    obtain ⟨fuel, rfl⟩ : ∃ n, fuel = n + 1 := ⟨fuel - 1, by omega⟩
    have hinner := component_refused (t := part) fuel (pos + 2) (')' :: rest) hpart hr (by omega)
    rw [component_not, hinner]
    exact found_close_none rfl
  | .compare .., fuel, pos, rest, h, hr, _ => component_item_refused (i := .compare ..) h hr fuel pos rest
  | .present _, fuel, pos, rest, h, hr, _ => component_item_refused (i := .present _) h hr fuel pos rest
  | .substrings .., fuel, pos, rest, h, hr, _ => component_item_refused (i := .substrings ..) h hr fuel pos rest

/-- The parts before the first one that is refused are read, and the row ends there. -/
theorem components_refused : ∀ {parts : List RawFilter} (fuel pos : Nat) (rest : List Char),
    FilterTree.AllWellFormed RawItem.Spelled parts → ¬FilterTree.AllWellFormed RawItem.Readable parts →
      (allText parts).length ≤ fuel →
      ∃ reach read p r, components fuel pos (allText parts ++ rest) = ⟨reach, read, p, '(' :: r⟩
  | [], _, _, _, _, hr, _ => absurd trivial hr
  | part :: parts, fuel, pos, rest, ⟨hpart, hparts⟩, hr, hfuel => by
    obtain ⟨r, hopen⟩ := RawFilter.text_eq_cons part
    have hpos : 0 < (text part).length := by simp [hopen]
    simp only [allText, List.length_append, List.append_assoc] at hfuel ⊢
    obtain ⟨fuel, rfl⟩ : ∃ n, fuel = n + 1 := ⟨fuel - 1, by omega⟩
    by_cases hfirst : part.WellFormed RawItem.Readable
    · have hread := component_text fuel pos (allText parts ++ rest) hfirst (by omega)
      obtain ⟨reach, read, p, r, hnext⟩ := components_refused fuel (pos + (text part).length) rest hparts
        (fun hall => hr ⟨hfirst, hall⟩) (by omega)
      obtain ⟨reach', hrow⟩ := components_cons hread hnext
      exact ⟨reach', part :: read, p, r, hrow⟩
    · have hread := component_refused fuel pos (allText parts ++ rest) hpart hfirst (by omega)
      obtain ⟨reach, hrow⟩ := components_stop hread
      rw [hopen] at hrow ⊢
      exact ⟨reach, [], pos, r ++ (allText parts ++ rest), hrow⟩

end

/-! ### Whole texts -/

theorem filter_text {t : RawFilter} (h : t.WellFormed RawItem.Readable) : Reader.filter (text t) = .ok t := by
  have hread := component_text (text t).length 0 [] h (Nat.le_succ _)
  rw [List.append_nil] at hread
  simp only [Reader.filter, hread]

theorem filter_refused {t : RawFilter} (h : t.WellFormed RawItem.Spelled) (hr : ¬t.WellFormed RawItem.Readable) :
    ∃ offset, Reader.filter (text t) = .error offset := by
  have hread := component_refused (text t).length 0 [] h hr (Nat.le_succ _)
  rw [List.append_nil] at hread
  exact ⟨(component (text t).length 0 (text t)).reach, by simp only [Reader.filter, hread]⟩

end Reader

end DirectorySearch
