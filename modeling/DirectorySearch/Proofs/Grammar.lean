import DirectorySearch.Proofs.Reading

/-! The grammar of filters, without an order of choices and without greed. A derivation is a syntax tree
    with the classes of its characters in the types, and the text that it derives is read off its leaves.
    The reader accepts exactly the texts that have a derivation, and each has one only, but for a lone star,
    which is also a substring item without pieces. -/

namespace DirectorySearch.Grammar

open Token

/-! ### Rules -/

/-- A character of a class. -/
abbrev CharOf (p : Char → Bool) := { c : Char // p c = true }

/-- One or more characters of a class. -/
structure Run (p : Char → Bool) where
  first : CharOf p
  others : List (CharOf p)

/-- A letter, and then letters, digits and hyphens. -/
structure Descr where
  first : CharOf Char.isAlpha
  others : List (CharOf isKeyChar)

/-- Two numbers or more, with a dot between each two. -/
structure NumericOid where
  first : Run Char.isDigit
  second : Run Char.isDigit
  others : List (Run Char.isDigit)

inductive AttrBase where
  | descr (d : Descr)
  | numericOid (n : NumericOid)

/-- A name or a numeric identifier, and options with a semicolon before each. -/
structure Attr where
  base : AttrBase
  options : List (Run isKeyChar)

def isHexDigit (c : Char) : Bool :=
  (Hex.value? c).isSome

inductive ValueChar where
  | escaped (high low : CharOf isHexDigit)
  | plain (c : CharOf isPlain)

/-- One or more escapes and plain characters. -/
structure Value where
  first : ValueChar
  others : List ValueChar

/-- A component, without its parentheses: groups have one part or more, the value of a comparison may be
    missing, and so may each piece of a substring item. -/
inductive Component where
  | and (first : Component) (others : List Component)
  | or (first : Component) (others : List Component)
  | not (part : Component)
  | present (attr : Attr)
  | substring (attr : Attr) (initial : Option Value) (any : List Value) (final : Option Value)
  | simple (attr : Attr) (relation : Relation) (value : Option Value)

/-! ### Derived texts -/

def Run.text {p : Char → Bool} (r : Run p) : List Char :=
  r.first.val :: r.others.map (·.val)

/-- Runs, each behind a separator. -/
def separated (separator : Char) {p : Char → Bool} (runs : List (Run p)) : List Char :=
  runs.flatMap fun r => separator :: r.text

def AttrBase.text : AttrBase → List Char
  | .descr d => d.first.val :: d.others.map (·.val)
  | .numericOid n => n.first.text ++ separated '.' (n.second :: n.others)

def Attr.text (a : Attr) : List Char :=
  a.base.text ++ separated ';' a.options

def ValueChar.text : ValueChar → List Char
  | .escaped high low => ['\\', high.val, low.val]
  | .plain c => [c.val]

def Value.text (v : Value) : List Char :=
  (v.first :: v.others).flatMap ValueChar.text

/-- A value that may be missing. -/
def valueText (v : Option Value) : List Char :=
  v.elim [] Value.text

mutual

/-- The text that a derivation of a component derives. -/
def Component.text : Component → List Char
  | .and first others => '(' :: '&' :: (text first ++ texts others ++ [')'])
  | .or first others => '(' :: '|' :: (text first ++ texts others ++ [')'])
  | .not part => '(' :: '!' :: (text part ++ [')'])
  | .present attr => '(' :: (attr.text ++ ['=', '*', ')'])
  | .substring attr initial any final =>
    '(' :: (attr.text ++ '=' :: (valueText initial ++ '*' :: (any.flatMap (·.text ++ ['*']) ++ valueText final ++ [')'])))
  | .simple attr relation value => '(' :: (attr.text ++ relation.symbol ++ valueText value ++ [')'])

def Component.texts : List Component → List Char
  | [] => []
  | part :: parts => text part ++ texts parts

end

/-! ### Derivations as filters -/

namespace Component

mutual

/-- The derivation with a presence in place of each substring item without pieces. -/
def resolve : Component → Component
  | .and first others => .and (resolve first) (resolveAll others)
  | .or first others => .or (resolve first) (resolveAll others)
  | .not part => .not (resolve part)
  | .present attr => .present attr
  | .substring attr initial any final =>
    if initial.isNone && any.isEmpty && final.isNone then .present attr else .substring attr initial any final
  | .simple attr relation value => .simple attr relation value

def resolveAll : List Component → List Component
  | [] => []
  | part :: parts => resolve part :: resolveAll parts

end

mutual

/-- The filter that a derivation shows, with its values as written. -/
def tree : Component → RawFilter
  | .and first others => .and (tree first :: trees others)
  | .or first others => .or (tree first :: trees others)
  | .not part => .not (tree part)
  | .present attr => .present (.ofList attr.text)
  | .substring attr initial any final =>
    .substrings (.ofList attr.text) (initial.map (·.text)) (any.map (·.text)) (final.map (·.text))
  | .simple attr relation value => .compare relation (.ofList attr.text) (valueText value)

def trees : List Component → List RawFilter
  | [] => []
  | part :: parts => tree part :: trees parts

end

end Component

/-! ### Words of the grammar -/

section Run
variable {p : Char → Bool}

theorem forall_mem_map_val (cs : List (CharOf p)) : ∀ c ∈ cs.map (·.val), p c = true := by
  intro c hc
  obtain ⟨d, -, rfl⟩ := List.mem_map.mp hc
  exact d.property

theorem exists_map_val {w : List Char} (hw : ∀ c ∈ w, p c = true) : ∃ cs : List (CharOf p), cs.map (·.val) = w :=
  ⟨w.attachWith _ hw, List.attachWith_map_subtype_val hw⟩

theorem map_val_inj {cs cs' : List (CharOf p)} (h : cs.map (·.val) = cs'.map (·.val)) : cs = cs' :=
  List.map_inj_right (fun _ _ => Subtype.ext) |>.mp h

/-- A run and what cannot continue it are told from the text of both. -/
theorem append_inj {w w' rest rest' : List Char} (hw : ∀ c ∈ w, p c = true) (hw' : ∀ c ∈ w', p c = true)
    (hrest : ∀ c ∈ rest.head?, p c = false) (hrest' : ∀ c ∈ rest'.head?, p c = false)
    (h : w ++ rest = w' ++ rest') : w = w' ∧ rest = rest' := by
  have htake {v t : List Char} (hv : ∀ c ∈ v, p c = true) (ht : ∀ c ∈ t.head?, p c = false) :
      (v ++ t).takeWhile p = v := by
    rw [List.takeWhile_append_of_pos hv]
    cases t with
    | nil => simp
    | cons c t => simp [ht c rfl]
  have hword : w = w' := by rw [← htake hw hrest, h, htake hw' hrest']
  subst hword
  exact ⟨rfl, List.append_cancel_left h⟩

theorem Run.text_inj {r r' : Run p} (h : r.text = r'.text) : r = r' := by
  obtain ⟨hfirst, hothers⟩ := List.cons.inj h
  cases r
  cases r'
  rw [Run.mk.injEq]
  exact ⟨Subtype.ext hfirst, map_val_inj hothers⟩

theorem Run.forall_mem_text (r : Run p) : ∀ c ∈ r.text, p c = true := by
  rw [Run.text, List.forall_mem_cons]
  exact ⟨r.first.property, forall_mem_map_val r.others⟩

variable {separator : Char}

theorem separated_head (hsep : p separator = false) (runs : List (Run p)) :
    ∀ c ∈ (separated separator runs).head?, p c = false := by
  cases runs with
  | nil => simp [separated]
  | cons r runs => simp [separated, hsep]

theorem separated_inj (hsep : p separator = false) {runs runs' : List (Run p)}
    (h : separated separator runs = separated separator runs') : runs = runs' := by
  induction runs generalizing runs' with
  | nil =>
    cases runs' with
    | nil => rfl
    | cons r' runs' => simp [separated] at h
  | cons r runs ih =>
    cases runs' with
    | nil => simp [separated] at h
    | cons r' runs' =>
      simp only [separated, List.flatMap_cons, List.cons_append, List.cons.injEq, true_and] at h
      obtain ⟨hfirst, hothers⟩ := append_inj r.forall_mem_text r'.forall_mem_text (separated_head hsep runs)
        (separated_head hsep runs') h
      rw [Run.text_inj hfirst, ih hothers]

theorem items_separated (runs : List (Run p)) : Items separator p (separated separator runs) := by
  induction runs with
  | nil => exact .nil
  | cons r runs ih => exact .cons r.first.property (forall_mem_map_val r.others) ih

theorem exists_separated {s : List Char} (h : Items separator p s) :
    ∃ runs : List (Run p), separated separator runs = s := by
  induction h with
  | nil => exact ⟨[], rfl⟩
  | @cons c w r hc hw _ ih =>
    obtain ⟨runs, rfl⟩ := ih
    obtain ⟨cs, rfl⟩ := exists_map_val hw
    exact ⟨⟨⟨c, hc⟩, cs⟩ :: runs, rfl⟩

end Run

/-! ### Attributes -/

namespace AttrBase

theorem name_or_numericId (b : AttrBase) : Name b.text ∨ NumericId b.text := by
  cases b with
  | descr d => exact .inl ⟨d.first.val, _, rfl, d.first.property, forall_mem_map_val d.others⟩
  | numericOid n =>
    exact .inr ⟨n.first.first.val, _, _, rfl, n.first.first.property, forall_mem_map_val n.first.others,
      items_separated (n.second :: n.others), by simp [separated]⟩

theorem exists_text {s : List Char} (h : Name s ∨ NumericId s) : ∃ b : AttrBase, b.text = s := by
  rcases h with ⟨c, w, rfl, hc, hw⟩ | ⟨c, w, dotted, rfl, hc, hw, hdotted, hne⟩
  · obtain ⟨cs, rfl⟩ := exists_map_val hw
    exact ⟨.descr ⟨⟨c, hc⟩, cs⟩, rfl⟩
  · obtain ⟨cs, rfl⟩ := exists_map_val hw
    obtain ⟨runs, rfl⟩ := exists_separated hdotted
    cases runs with
    | nil => exact absurd rfl hne
    | cons second others => exact ⟨.numericOid ⟨⟨⟨c, hc⟩, cs⟩, second, others⟩, rfl⟩

/-- A letter is no digit, so the first character tells the two kinds apart. -/
theorem text_inj {b b' : AttrBase} (h : b.text = b'.text) : b = b' := by
  have hkinds (d : Descr) (n : NumericOid) : (descr d).text ≠ (numericOid n).text := by
    intro heq
    have hchar : d.first.val = n.first.first.val := (List.cons.inj heq).1
    have hletter := d.first.property
    rw [hchar, not_isAlpha_of_isDigit n.first.first.property] at hletter
    cases hletter
  cases b with
  | descr d =>
    cases b' with
    | descr d' =>
      obtain ⟨hfirst, hothers⟩ := List.cons.inj h
      rw [descr.injEq, Descr.mk.injEq]
      exact ⟨Subtype.ext hfirst, map_val_inj hothers⟩
    | numericOid n' => exact absurd h (hkinds d n')
  | numericOid n =>
    cases b' with
    | descr d' => exact absurd h.symm (hkinds d' n)
    | numericOid n' =>
      obtain ⟨hfirst, hothers⟩ := append_inj n.first.forall_mem_text n'.first.forall_mem_text
        (separated_head (by decide) _) (separated_head (by decide) _) h
      have hothers := separated_inj (by decide) hothers
      rw [List.cons.injEq] at hothers
      rw [numericOid.injEq, NumericOid.mk.injEq]
      exact ⟨Run.text_inj hfirst, hothers⟩

end AttrBase

namespace Attr

theorem described (a : Attr) : Attribute a.text :=
  ⟨a.base.text, _, rfl, a.base.name_or_numericId, items_separated a.options⟩

theorem exists_text {s : List Char} (h : Attribute s) : ∃ a : Attr, a.text = s := by
  obtain ⟨base, options, rfl, hbase, hoptions⟩ := h
  obtain ⟨b, rfl⟩ := AttrBase.exists_text hbase
  obtain ⟨runs, rfl⟩ := exists_separated hoptions
  exact ⟨⟨b, runs⟩, rfl⟩

theorem text_inj {a a' : Attr} (h : a.text = a'.text) : a = a' := by
  -- No semicolon stands before the options.
  have hbase (b : AttrBase) : ∀ c ∈ b.text, (c != ';') = true := by
    intro c hc
    refine bne_iff_ne.mpr ?_
    rintro rfl
    rcases b.name_or_numericId with ⟨c, w, heq, hfirst, hw⟩ | ⟨c, w, dotted, heq, hfirst, hw, hdotted, -⟩
    · rw [heq] at hc
      rcases List.mem_cons.mp hc with rfl | hc
      · exact absurd hfirst (by decide)
      · exact absurd (hw _ hc) (by decide)
    · rw [heq] at hc
      rcases List.mem_cons.mp hc with rfl | hc
      · exact absurd hfirst (by decide)
      rcases List.mem_append.mp hc with hc | hc
      · exact absurd (hw _ hc) (by decide)
      · exact absurd (hdotted.mem hc) (by decide)
  have hoptions (runs : List (Run isKeyChar)) : ∀ c ∈ (separated ';' runs).head?, (c != ';') = false := by
    cases runs <;> simp [separated]
  obtain ⟨hb, ho⟩ := append_inj (hbase a.base) (hbase a'.base) (hoptions _) (hoptions _) h
  cases a
  cases a'
  rw [Attr.mk.injEq]
  exact ⟨AttrBase.text_inj hb, separated_inj (by decide) ho⟩

end Attr

/-! ### Values -/

theorem octet?_isSome {a b : Char} : (Escape.octet? a b).isSome = true ↔ isHexDigit a = true ∧ isHexDigit b = true := by
  cases ha : Hex.value? a <;> cases hb : Hex.value? b <;> simp [Escape.octet?, isHexDigit, ha, hb]

/-- A backslash is not plain, so the first character tells escapes from plain characters. -/
theorem valueChars_inj {cs cs' : List ValueChar} (h : cs.flatMap (·.text) = cs'.flatMap (·.text)) : cs = cs' := by
  induction cs generalizing cs' with
  | nil =>
    cases cs' with
    | nil => rfl
    | cons c' cs' => cases c' <;> simp [ValueChar.text] at h
  | cons c cs ih =>
    cases cs' with
    | nil => cases c <;> simp [ValueChar.text] at h
    | cons c' cs' =>
      cases c with
      | escaped high low =>
        cases c' with
        | escaped high' low' =>
          simp only [List.flatMap_cons, ValueChar.text, List.cons_append, List.nil_append, List.cons.injEq, true_and] at h
          obtain ⟨hhigh, hlow, hothers⟩ := h
          rw [Subtype.ext hhigh, Subtype.ext hlow, ih hothers]
        | plain d' =>
          simp only [List.flatMap_cons, ValueChar.text, List.cons_append, List.nil_append, List.cons.injEq] at h
          exact absurd h.1.symm (Escape.ne_backslash_of_plain d'.property)
      | plain d =>
        cases c' with
        | escaped high' low' =>
          simp only [List.flatMap_cons, ValueChar.text, List.cons_append, List.nil_append, List.cons.injEq] at h
          exact absurd h.1 (Escape.ne_backslash_of_plain d.property)
        | plain d' =>
          simp only [List.flatMap_cons, ValueChar.text, List.cons_append, List.nil_append, List.cons.injEq] at h
          obtain ⟨hchar, hothers⟩ := h
          rw [Subtype.ext hchar, ih hothers]

theorem word_flatMap_text (cs : List ValueChar) : Word (cs.flatMap (·.text)) := by
  induction cs with
  | nil => exact .nil
  | cons c cs ih =>
    cases c with
    | escaped high low => exact .escape (octet?_isSome.mpr ⟨high.property, low.property⟩) ih
    | plain c => exact .plain c.property ih

theorem exists_flatMap_text {w : List Char} (h : Word w) : ∃ cs : List ValueChar, cs.flatMap (·.text) = w := by
  induction h with
  | nil => exact ⟨[], rfl⟩
  | @plain c r hc _ ih =>
    obtain ⟨cs, rfl⟩ := ih
    exact ⟨.plain ⟨c, hc⟩ :: cs, rfl⟩
  | @escape a b r ho _ ih =>
    obtain ⟨ha, hb⟩ := octet?_isSome.mp ho
    obtain ⟨cs, rfl⟩ := ih
    exact ⟨.escaped ⟨a, ha⟩ ⟨b, hb⟩ :: cs, rfl⟩

namespace Value

theorem piece (v : Value) : Piece v.text := by
  refine ⟨word_flatMap_text _, ?_⟩
  rw [Value.text, List.flatMap_cons]
  cases v.first <;> simp [ValueChar.text]

theorem exists_text {w : List Char} (h : Piece w) : ∃ v : Value, v.text = w := by
  obtain ⟨hword, hne⟩ := h
  obtain ⟨cs, rfl⟩ := exists_flatMap_text hword
  cases cs with
  | nil => exact absurd rfl hne
  | cons first others => exact ⟨⟨first, others⟩, rfl⟩

theorem text_inj {v v' : Value} (h : v.text = v'.text) : v = v' := by
  have hchars := valueChars_inj h
  rw [List.cons.injEq] at hchars
  cases v
  cases v'
  rw [Value.mk.injEq]
  exact hchars

end Value

theorem valueText_inj {v v' : Option Value} (h : valueText v = valueText v') : v = v' := by
  cases v with
  | none =>
    cases v' with
    | none => rfl
    | some v' => exact absurd h.symm v'.piece.2
  | some v =>
    cases v' with
    | none => exact absurd h v.piece.2
    | some v' => rw [Value.text_inj h]

theorem word_valueText (v : Option Value) : Word (valueText v) := by
  cases v with
  | none => exact .nil
  | some v => exact v.piece.1

theorem exists_valueText {w : List Char} (h : Word w) : ∃ v : Option Value, valueText v = w := by
  by_cases hne : w = []
  · exact ⟨none, hne.symm⟩
  · obtain ⟨v, rfl⟩ := Value.exists_text ⟨h, hne⟩
    exact ⟨some v, rfl⟩

/-! ### Components -/

namespace Component

theorem bare_iff {initial final : Option Value} {any : List Value} :
    (initial.isNone && any.isEmpty && final.isNone) = true ↔ initial = none ∧ any = [] ∧ final = none := by
  simp [and_assoc]

mutual

/-- A substring item without pieces has the text of a presence. -/
theorem text_resolve : ∀ d : Component, d.resolve.text = d.text
  | .and first others => by rw [resolve, text, text, text_resolve first, texts_resolveAll others]
  | .or first others => by rw [resolve, text, text, text_resolve first, texts_resolveAll others]
  | .not part => by rw [resolve, text, text, text_resolve part]
  | .present _ => rfl
  | .substring attr initial any final => by
    rw [resolve]
    split
    · next hbare =>
      obtain ⟨rfl, rfl, rfl⟩ := bare_iff.mp hbare
      simp [text, valueText]
    · rfl
  | .simple .. => rfl

theorem texts_resolveAll : ∀ ds : List Component, texts (resolveAll ds) = texts ds
  | [] => rfl
  | part :: parts => by rw [resolveAll, texts, texts, text_resolve part, texts_resolveAll parts]

end

theorem valueText_eq (v : Option Value) : (v.map (·.text)).getD [] = valueText v := by
  cases v <;> rfl

mutual

/-- A derivation derives the text of the filter that it shows. -/
theorem text_tree : ∀ d : Component, d.tree.text = d.text
  | .and first others => by rw [tree, RawFilter.text, RawFilter.allText, text_tree first, allText_trees others, text]
  | .or first others => by rw [tree, RawFilter.text, RawFilter.allText, text_tree first, allText_trees others, text]
  | .not part => by rw [tree, RawFilter.text, text_tree part, text]
  | .present attr => by
    simp [tree, RawFilter.text, RawItem.text, RawItem.claim, Item.attr, text]
  | .substring attr initial any final => by
    simp [tree, RawFilter.text, RawItem.text, RawItem.claim, RawItem.tail, Item.attr, text, valueText_eq, List.flatMap_map]
  | .simple attr relation value => by
    simp [tree, RawFilter.text, RawItem.text, RawItem.claim, Item.attr, text]

theorem allText_trees : ∀ ds : List Component, RawFilter.allText (trees ds) = texts ds
  | [] => rfl
  | part :: parts => by rw [trees, RawFilter.allText, text_tree part, allText_trees parts, texts]

end

/-- The pieces of a value that may be missing, or of a list of values. -/
theorem piece_of_mem_map {v : Option Value} {w : List Char} (h : w ∈ v.map (·.text)) : Piece w := by
  obtain ⟨v, -, rfl⟩ := Option.map_eq_some_iff.mp h
  exact v.piece

theorem readable_substring {attr : Attr} {initial final : Option Value} {any : List Value}
    (h : ¬(initial = none ∧ any = [] ∧ final = none)) :
    RawItem.Readable (.substrings (.ofList attr.text) (initial.map (·.text)) (any.map (·.text)) (final.map (·.text))) := by
  refine ⟨by simpa [Item.attr] using attr.described, fun w hw => piece_of_mem_map hw, ?_,
    fun w hw => piece_of_mem_map hw, ?_⟩
  · intro w hw
    obtain ⟨v, -, rfl⟩ := List.mem_map.mp hw
    exact v.piece
  · refine Decidable.byContradiction fun hbare => h ?_
    simpa using hbare

mutual

/-- What a resolved derivation shows is read back. -/
theorem readable_resolve : ∀ d : Component, d.resolve.tree.WellFormed RawItem.Readable
  | .and first others => ⟨List.cons_ne_nil _ _, readable_resolve first, allReadable_resolveAll others⟩
  | .or first others => ⟨List.cons_ne_nil _ _, readable_resolve first, allReadable_resolveAll others⟩
  | .not part => readable_resolve part
  | .present attr => ⟨by simpa [Item.attr] using attr.described, trivial⟩
  | .substring attr initial any final => by
    rw [resolve]
    split
    · exact ⟨by simpa [Item.attr] using attr.described, trivial⟩
    · next hbare => exact readable_substring fun h => hbare (bare_iff.mpr h)
  | .simple attr relation value => ⟨by simpa [Item.attr] using attr.described, word_valueText value⟩

theorem allReadable_resolveAll : ∀ ds : List Component, FilterTree.AllWellFormed RawItem.Readable (trees (resolveAll ds))
  | [] => trivial
  | part :: parts => ⟨readable_resolve part, allReadable_resolveAll parts⟩

end

theorem exists_map_text {w : Option (List Char)} (h : ∀ p ∈ w, Piece p) : ∃ v : Option Value, v.map (·.text) = w := by
  cases w with
  | none => exact ⟨none, rfl⟩
  | some w =>
    obtain ⟨v, rfl⟩ := Value.exists_text (h w rfl)
    exact ⟨some v, rfl⟩

theorem exists_maps_text {ws : List (List Char)} (h : ∀ p ∈ ws, Piece p) : ∃ vs : List Value, vs.map (·.text) = ws := by
  induction ws with
  | nil => exact ⟨[], rfl⟩
  | cons w ws ih =>
    obtain ⟨hw, hws⟩ := List.forall_mem_cons.mp h
    obtain ⟨v, rfl⟩ := Value.exists_text hw
    obtain ⟨vs, rfl⟩ := ih hws
    exact ⟨v :: vs, rfl⟩

theorem exists_attr {attr : String} (h : Attribute attr.toList) : ∃ a : Attr, String.ofList a.text = attr := by
  obtain ⟨a, ha⟩ := Attr.exists_text h
  exact ⟨a, by rw [ha, String.ofList_toList]⟩

mutual

/-- A filter that is read back is shown by some derivation. -/
theorem exists_tree : ∀ {t : RawFilter}, t.WellFormed RawItem.Readable → ∃ d : Component, d.tree = t
  | .and (part :: parts), ⟨_, hpart, hparts⟩ => by
    obtain ⟨d, rfl⟩ := exists_tree hpart
    obtain ⟨ds, rfl⟩ := exists_trees hparts
    exact ⟨.and d ds, rfl⟩
  | .or (part :: parts), ⟨_, hpart, hparts⟩ => by
    obtain ⟨d, rfl⟩ := exists_tree hpart
    obtain ⟨ds, rfl⟩ := exists_trees hparts
    exact ⟨.or d ds, rfl⟩
  | .and [], ⟨hne, _⟩ => absurd rfl hne
  | .or [], ⟨hne, _⟩ => absurd rfl hne
  | .not part, hpart => by
    obtain ⟨d, rfl⟩ := exists_tree (t := part) hpart
    exact ⟨.not d, rfl⟩
  | .present attr, ⟨ha, _⟩ => by
    obtain ⟨a, rfl⟩ := exists_attr ha
    exact ⟨.present a, rfl⟩
  | .substrings attr initial any final, ⟨ha, hinitial, hany, hfinal, _⟩ => by
    obtain ⟨a, rfl⟩ := exists_attr ha
    obtain ⟨initial, rfl⟩ := exists_map_text hinitial
    obtain ⟨any, rfl⟩ := exists_maps_text hany
    obtain ⟨final, rfl⟩ := exists_map_text hfinal
    exact ⟨.substring a initial any final, rfl⟩
  | .compare relation attr word, ⟨ha, hword⟩ => by
    obtain ⟨a, rfl⟩ := exists_attr ha
    obtain ⟨value, rfl⟩ := exists_valueText hword
    exact ⟨.simple a relation value, rfl⟩

theorem exists_trees : ∀ {ts : List RawFilter}, FilterTree.AllWellFormed RawItem.Readable ts →
    ∃ ds : List Component, trees ds = ts
  | [], _ => ⟨[], rfl⟩
  | _ :: _, ⟨ht, hts⟩ => by
    obtain ⟨d, rfl⟩ := exists_tree ht
    obtain ⟨ds, rfl⟩ := exists_trees hts
    exact ⟨d :: ds, rfl⟩

end

theorem attr_inj {a a' : Attr} (h : String.ofList a.text = String.ofList a'.text) : a = a' :=
  Attr.text_inj (String.ofList_injective h)

mutual

/-- A derivation is told by the filter that it shows. -/
theorem tree_inj : ∀ (d : Component) {d' : Component}, d.tree = d'.tree → d = d'
  | .and first others, d', h => by
    cases d' <;> simp only [tree, FilterTree.and.injEq, List.cons.injEq, reduceCtorEq] at h
    rw [tree_inj first h.1, trees_inj others h.2]
  | .or first others, d', h => by
    cases d' <;> simp only [tree, FilterTree.or.injEq, List.cons.injEq, reduceCtorEq] at h
    rw [tree_inj first h.1, trees_inj others h.2]
  | .not part, d', h => by
    cases d' <;> simp only [tree, FilterTree.not.injEq, reduceCtorEq] at h
    rw [tree_inj part h]
  | .present attr, d', h => by
    cases d' <;> simp only [tree, FilterTree.present.injEq, reduceCtorEq] at h
    rw [attr_inj h]
  | .substring attr initial any final, d', h => by
    cases d' <;> simp only [tree, FilterTree.substrings.injEq, reduceCtorEq] at h
    obtain ⟨hattr, hinitial, hany, hfinal⟩ := h
    rw [attr_inj hattr, Option.map_inj_right (fun _ _ => Value.text_inj) |>.mp hinitial,
      List.map_inj_right (fun _ _ => Value.text_inj) |>.mp hany,
      Option.map_inj_right (fun _ _ => Value.text_inj) |>.mp hfinal]
  | .simple attr relation value, d', h => by
    cases d' <;> simp only [tree, FilterTree.compare.injEq, reduceCtorEq] at h
    obtain ⟨hrelation, hattr, hvalue⟩ := h
    rw [hrelation, attr_inj hattr, valueText_inj hvalue]

theorem trees_inj : ∀ (ds : List Component) {ds' : List Component}, trees ds = trees ds' → ds = ds'
  | [], ds', h => by
    cases ds' <;> simp only [trees, reduceCtorEq] at h
    rfl
  | d :: ds, ds', h => by
    cases ds' <;> simp only [trees, List.cons.injEq, reduceCtorEq] at h
    rw [tree_inj d h.1, trees_inj ds h.2]

end

/-! ### The language of the grammar -/

/-- Two derivations derive one text exactly when they differ in substring items without pieces only. -/
theorem text_eq_iff {d d' : Component} : d.text = d'.text ↔ d.resolve = d'.resolve := by
  constructor
  · intro h
    refine tree_inj _ ((Reader.text_inj (readable_resolve d) (readable_resolve d')).mp ?_)
    rw [text_tree, text_tree, text_resolve, text_resolve, h]
  · intro h
    rw [← text_resolve d, h, text_resolve]

/-- Whatever has a derivation is read, as the resolved one shows it. -/
theorem filter_eq (d : Component) : Reader.filter d.text = .ok d.resolve.tree :=
  Reader.filter_eq_ok_iff.mpr ⟨by rw [text_tree, text_resolve], readable_resolve d⟩

theorem exists_text_of_filter {s : List Char} {t : RawFilter} (h : Reader.filter s = .ok t) : ∃ d : Component, d.text = s := by
  obtain ⟨rfl, hread⟩ := Reader.filter_eq_ok_iff.mp h
  obtain ⟨d, rfl⟩ := exists_tree hread
  exact ⟨d, (text_tree d).symm⟩

end Component

end DirectorySearch.Grammar
