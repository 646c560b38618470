import DirectorySearch.Filter.Token

/-! Attribute descriptions, as the grammar of filters derives them: a name or a numeric identifier, and
    then options. The reader takes the longest start of a text that it can, so a description is read
    whole where the character after it cannot continue one, and any other text is left at a character
    of its own. -/

namespace DirectorySearch.Token

/-! ### The grammar -/

/-- Items of at least one character each, all behind a separator. -/
inductive Items (separator : Char) (p : Char → Bool) : List Char → Prop where
  | nil : Items separator p []
  | cons {c : Char} {w r : List Char} (hc : p c = true) (hw : ∀ d ∈ w, p d = true) (hr : Items separator p r) :
    Items separator p (separator :: c :: (w ++ r))

/-- A name: a letter, and then letters, digits and hyphens. -/
def Name (s : List Char) : Prop :=
  ∃ c w, s = c :: w ∧ c.isAlpha = true ∧ ∀ d ∈ w, isKeyChar d = true

/-- A numeric identifier: at least two numbers, with dots between them. -/
def NumericId (s : List Char) : Prop :=
  ∃ c w dotted, s = c :: (w ++ dotted) ∧ c.isDigit = true ∧ (∀ d ∈ w, d.isDigit = true) ∧
    Items '.' Char.isDigit dotted ∧ dotted ≠ []

/-- An attribute description. -/
def Attribute (s : List Char) : Prop :=
  ∃ base options, s = base ++ options ∧ (Name base ∨ NumericId base) ∧ Items ';' isKeyChar options

/-- A text of the characters that attribute descriptions have. -/
def AttributeChars (s : List Char) : Prop :=
  ∀ c ∈ s, isKeyChar c = true ∨ c = '.' ∨ c = ';'

theorem isKeyChar_of_isDigit {c : Char} (h : c.isDigit = true) : isKeyChar c = true := by
  simp [isKeyChar, Char.isAlphanum, h]

theorem isKeyChar_of_isAlpha {c : Char} (h : c.isAlpha = true) : isKeyChar c = true := by
  simp [isKeyChar, Char.isAlphanum, h]

theorem Items.mem {separator : Char} {p : Char → Bool} {s : List Char} (h : Items separator p s) {c : Char}
    (hc : c ∈ s) : p c = true ∨ c = separator := by
  induction h with
  | nil => cases hc
  | cons hp hw _ ih =>
    rcases List.mem_cons.mp hc with rfl | hc
    · exact Or.inr rfl
    rcases List.mem_cons.mp hc with rfl | hc
    · exact Or.inl hp
    rcases List.mem_append.mp hc with hc | hc
    · exact Or.inl (hw c hc)
    · exact ih hc

theorem Attribute.chars {s : List Char} (h : Attribute s) : AttributeChars s := by
  obtain ⟨base, opts, rfl, hbase, hopts⟩ := h
  intro d hd
  rcases List.mem_append.mp hd with hd | hd
  · rcases hbase with ⟨c, w, rfl, hc, hw⟩ | ⟨c, w, dotted, rfl, hc, hw, hdotted, -⟩
    · rcases List.mem_cons.mp hd with rfl | hd
      · exact Or.inl (isKeyChar_of_isAlpha hc)
      · exact Or.inl (hw d hd)
    · rcases List.mem_cons.mp hd with rfl | hd
      · exact Or.inl (isKeyChar_of_isDigit hc)
      rcases List.mem_append.mp hd with hd | hd
      · exact Or.inl (isKeyChar_of_isDigit (hw d hd))
      · rcases hdotted.mem hd with hd | hd
        · exact Or.inl (isKeyChar_of_isDigit hd)
        · exact Or.inr (Or.inl hd)
  · rcases hopts.mem hd with hd | hd
    · exact Or.inl hd
    · exact Or.inr (Or.inr hd)

/-! ### Runs -/

section Runs
variable {separator : Char} {p : Char → Bool}

/-- A text that neither goes on with a run nor starts a new one. -/
def RunEnds (separator : Char) (p : Char → Bool) (rest : List Char) : Prop :=
  ∀ c ∈ rest.head?, p c = false ∧ c ≠ separator

theorem runs_append_eq (s : List Char) : (runs separator p s).1 ++ (runs separator p s).2 = s := by
  fun_induction runs separator p s <;> simp_all

theorem runs_of_ends {rest : List Char} (h : RunEnds separator p rest) : runs separator p rest = ([], rest) := by
  match rest with
  | [] => rfl
  | [a] =>
    obtain ⟨ha, -⟩ := h a rfl
    simp [runs, ha]
  | a :: b :: r =>
    obtain ⟨ha, hs⟩ := h a rfl
    simp [runs, ha, hs]

/-- What follows a text that it cannot continue is left as it is. -/
theorem runs_append {rest : List Char} (h : RunEnds separator p rest) (s : List Char) :
    runs separator p (s ++ rest) = ((runs separator p s).1, (runs separator p s).2 ++ rest) := by
  fun_induction runs separator p s with
  | case1 a b r hab word rest' hr ih => simp_all [runs]
  | case2 a b r hab ha word rest' hr ih => simp_all [runs]
  | case3 a b r hab ha => simp_all [runs]
  | case4 a ha =>
    have hrest := runs_of_ends h
    cases rest with
    | nil => simp [runs, ha]
    | cons b r =>
      obtain ⟨hb, -⟩ := h b rfl
      simp [runs, ha, hb, hrest]
  | case5 a ha =>
    cases rest with
    | nil => simp [runs, ha]
    | cons b r =>
      obtain ⟨hb, -⟩ := h b rfl
      simp [runs, ha, hb]
  | case6 => simp [runs_of_ends h]

theorem runs_all_append (hsep : p separator = false) {w : List Char} (hw : ∀ d ∈ w, p d = true) (r : List Char) :
    runs separator p (w ++ r) = (w ++ (runs separator p r).1, (runs separator p r).2) := by
  induction w with
  | nil => rfl
  | cons a w ih =>
    have ha : p a = true := hw a List.mem_cons_self
    have hne : a ≠ separator := by
      rintro rfl
      rw [ha] at hsep
      cases hsep
    have ih := ih fun d hd => hw d (List.mem_cons_of_mem _ hd)
    rw [List.cons_append]
    cases hr : w ++ r with
    | nil =>
      rw [hr] at ih
      obtain ⟨rfl, rfl⟩ := List.append_eq_nil_iff.mp hr
      simp [runs, ha]
    | cons b t =>
      rw [hr] at ih
      simp [runs, ha, hne, ih]

theorem Items.runs_eq (hsep : p separator = false) {s : List Char} (h : Items separator p s) :
    runs separator p s = (s, []) := by
  induction h with
  | nil => rfl
  | cons hc hw _ ih => simp [runs, hc, runs_all_append hsep hw, ih]

/-- A run is the end of an item that was begun before, and then items. -/
theorem runs_fst (separator : Char) (p : Char → Bool) (s : List Char) :
    ∃ w items, (runs separator p s).1 = w ++ items ∧ (∀ d ∈ w, p d = true) ∧ Items separator p items := by
  fun_induction runs separator p s with
  | case1 a b r hab word rest hr ih =>
    obtain ⟨w, items, hword, hw, hitems⟩ := ih
    simp only [Bool.and_eq_true, beq_iff_eq] at hab
    obtain ⟨rfl, hb⟩ := hab
    rw [hr] at hword
    refine ⟨[], a :: b :: (w ++ items), ?_, by simp, .cons hb hw hitems⟩
    simp only at hword
    simp [hword]
  | case2 a b r hab ha word rest hr ih =>
    obtain ⟨w, items, hword, hw, hitems⟩ := ih
    rw [hr] at hword
    simp only at hword
    refine ⟨a :: w, items, by simp [hword], ?_, hitems⟩
    intro d hd
    rcases List.mem_cons.mp hd with rfl | hd
    · exact ha
    · exact hw d hd
  | case3 => exact ⟨[], [], rfl, by simp, .nil⟩
  | case4 a ha => exact ⟨[a], [], rfl, by simpa using ha, .nil⟩
  | case5 => exact ⟨[], [], rfl, by simp, .nil⟩
  | case6 => exact ⟨[], [], rfl, by simp, .nil⟩

end Runs

/-! ### Options -/

theorem options_append_eq (s : List Char) : (options s).1 ++ (options s).2 = s := by
  unfold options
  split
  · split
    · simp [runs_append_eq]
    · rfl
  · rfl

/-- A text that cannot continue an attribute description. -/
def AttributeEnds (rest : List Char) : Prop :=
  ∀ c ∈ rest.head?, isKeyChar c = false ∧ c ≠ '.' ∧ c ≠ ';'

theorem not_isAlpha_of_isDigit {c : Char} (h : c.isDigit = true) : c.isAlpha = false := by
  simp only [Char.isDigit, Bool.and_eq_true, decide_eq_true_eq, ge_iff_le, UInt32.le_iff_toNat_le] at h
  obtain ⟨-, h⟩ := h
  have h : c.val.toNat ≤ 57 := h
  have hu : c.isUpper = false := by
    refine decide_eq_false fun ⟨h', _⟩ => ?_
    have h' : 65 ≤ c.val.toNat := UInt32.le_iff_toNat_le.mp h'
    omega
  have hl : c.isLower = false := by
    refine Bool.and_eq_false_imp.mpr fun h' => ?_
    have h' : 97 ≤ c.val.toNat := UInt32.le_iff_toNat_le.mp (of_decide_eq_true h')
    omega
  exact Bool.or_eq_false_iff.mpr ⟨hu, hl⟩

namespace AttributeEnds
variable {rest : List Char}

theorem keys (h : AttributeEnds rest) : RunEnds ';' isKeyChar rest := fun c hc => ⟨(h c hc).1, (h c hc).2.2⟩

theorem numbers (h : AttributeEnds rest) : RunEnds '.' Char.isDigit rest := fun c hc => by
  obtain ⟨hk, hdot, -⟩ := h c hc
  refine ⟨?_, hdot⟩
  cases hd : c.isDigit with
  | false => rfl
  | true =>
    rw [isKeyChar_of_isDigit hd] at hk
    cases hk

theorem options_eq (h : AttributeEnds rest) : options rest = ([], rest) := by
  unfold options
  split
  · obtain ⟨-, -, hne⟩ := h ';' rfl
    exact absurd rfl hne
  · rfl

theorem attribute?_eq (h : AttributeEnds rest) : attribute? rest = none := by
  cases rest with
  | nil => rfl
  | cons c r =>
    obtain ⟨hk, -, -⟩ := h c rfl
    have ha : c.isAlpha = false := by
      cases ha : c.isAlpha with
      | false => rfl
      | true =>
        rw [isKeyChar_of_isAlpha ha] at hk
        cases hk
    have hd : c.isDigit = false := (h.numbers c rfl).1
    simp [attribute?, ha, hd]

end AttributeEnds

theorem options_append {rest : List Char} (h : AttributeEnds rest) (s : List Char) :
    options (s ++ rest) = ((options s).1, (options s).2 ++ rest) := by
  match s with
  | [] => rw [List.nil_append, h.options_eq]; rfl
  | [a] =>
    by_cases ha : a = ';'
    · subst ha
      cases rest with
      | nil => rfl
      | cons c r =>
        obtain ⟨hk, -, -⟩ := h c rfl
        simp [options, hk]
    · simp [options, ha]
  | a :: c :: r =>
    by_cases ha : a = ';'
    · subst ha
      by_cases hc : isKeyChar c = true
      · simp [options, hc, runs_append h.keys]
      · simp [options, hc]
    · simp [options, ha]

theorem Items.options_eq {s : List Char} (h : Items ';' isKeyChar s) : options s = (s, []) := by
  cases h with
  | nil => rfl
  | cons hc hw hr =>
    have hsep : isKeyChar ';' = false := by decide
    simp [options, hc, runs_all_append hsep hw, hr.runs_eq hsep]

theorem options_fst (s : List Char) : Items ';' isKeyChar (options s).1 := by
  unfold options
  split
  · next c r =>
    split
    · next hc =>
      obtain ⟨w, items, hword, hw, hitems⟩ := runs_fst ';' isKeyChar r
      simp only [hword]
      exact .cons hc hw hitems
    · exact .nil
  · exact .nil

/-! ### Descriptions -/

theorem attribute?_append_eq {s word rest : List Char} (h : attribute? s = some (word, rest)) : word ++ rest = s := by
  cases s with
  | nil => cases h
  | cons c r =>
    simp only [attribute?] at h
    split at h
    · cases h
      simp [runs_append_eq]
    · split at h
      · split at h
        · cases h
          simp [options_append_eq, runs_append_eq]
        · cases h
      · cases h

/-- What follows a text that it cannot continue is left as it is, whether the text is a description
    or not. -/
theorem attribute?_append {rest : List Char} (h : AttributeEnds rest) (s : List Char) :
    attribute? (s ++ rest) = (attribute? s).map fun split => (split.1, split.2 ++ rest) := by
  cases s with
  | nil => rw [List.nil_append, h.attribute?_eq]; rfl
  | cons c r =>
    simp only [List.cons_append, attribute?, runs_append h.keys, runs_append h.numbers, options_append h]
    split
    · rfl
    · split
      · split <;> rfl
      · rfl

theorem items_contains {s : List Char} (h : Items '.' Char.isDigit s) : s.contains '.' = true ↔ s ≠ [] := by
  cases h <;> simp

theorem digits_not_contains {w : List Char} (h : ∀ d ∈ w, d.isDigit = true) : '.' ∉ w := fun hdot => by
  have := h '.' hdot
  exact absurd this (by decide)

theorem attribute?_eq_of_attribute {s : List Char} (h : Attribute s) : attribute? s = some (s, []) := by
  have hsep : isKeyChar ';' = false := by decide
  obtain ⟨base, opts, rfl, hbase, hopts⟩ := h
  rcases hbase with ⟨c, w, rfl, hc, hw⟩ | ⟨c, w, dotted, rfl, hc, hw, hdotted, hne⟩
  · simp [attribute?, hc, runs_all_append hsep hw, hopts.runs_eq hsep]
  · -- The numbers end where the options begin.
    have hends : RunEnds '.' Char.isDigit opts := by
      cases hopts with
      | nil => intro d hd; cases hd
      | cons => intro d hd; cases hd; decide
    have hnumbers : runs '.' Char.isDigit (w ++ dotted) = (w ++ dotted, []) := by
      rw [runs_all_append (by decide) hw, hdotted.runs_eq (by decide)]
    have hdot : (w ++ dotted).contains '.' = true := by
      have := (items_contains hdotted).mpr hne
      simp only [List.contains_iff_mem] at this ⊢
      exact List.mem_append_right _ this
    simp only [List.cons_append, attribute?, not_isAlpha_of_isDigit hc, hc, runs_append hends, hnumbers, hdot,
      hopts.options_eq, List.nil_append, ↓reduceIte, Bool.false_eq_true]

/-- What a reader takes is a description. -/
theorem attribute_of_attribute? {s word rest : List Char} (h : attribute? s = some (word, rest)) : Attribute word := by
  cases s with
  | nil => cases h
  | cons c r =>
    simp only [attribute?] at h
    split at h
    · next hc =>
      obtain ⟨w, items, hword, hw, hitems⟩ := runs_fst ';' isKeyChar r
      simp only [Option.some.injEq, Prod.mk.injEq] at h
      refine ⟨c :: w, items, ?_, Or.inl ⟨c, w, rfl, hc, hw⟩, hitems⟩
      rw [← h.1, List.cons_append, ← hword]
    · split at h
      · next hc =>
        split at h
        · next hdot =>
          obtain ⟨w, items, hword, hw, hitems⟩ := runs_fst '.' Char.isDigit r
          simp only [Option.some.injEq, Prod.mk.injEq] at h
          refine ⟨c :: (w ++ items), (options (runs '.' Char.isDigit r).2).1, ?_,
            Or.inr ⟨c, w, items, rfl, hc, hw, hitems, ?_⟩, options_fst _⟩
          · rw [← h.1, ← hword]
          · rintro rfl
            rw [hword, List.append_nil, List.contains_iff_mem] at hdot
            exact digits_not_contains hw hdot
        · cases h
      · cases h

theorem isAttribute_iff {s : List Char} : isAttribute s = true ↔ Attribute s := by
  constructor
  · intro h
    unfold isAttribute at h
    split at h
    · next word hs =>
      have hword := attribute?_append_eq hs
      rw [List.append_nil] at hword
      subst hword
      exact attribute_of_attribute? hs
    · cases h
  · intro h
    simp [isAttribute, attribute?_eq_of_attribute h]

instance (s : List Char) : Decidable (Attribute s) :=
  decidable_of_iff _ isAttribute_iff

/-- A reader takes a description whole. -/
theorem Attribute.attribute?_append {s rest : List Char} (hs : Attribute s) (h : AttributeEnds rest) :
    attribute? (s ++ rest) = some (s, rest) := by
  rw [Token.attribute?_append h, attribute?_eq_of_attribute hs, Option.map_some, List.nil_append]

/-- Where a text is no description, what a reader leaves of it is not empty. -/
theorem attribute?_leaves {s rest word left : List Char} (hs : ¬Attribute s) (h : AttributeEnds rest)
    (hread : attribute? (s ++ rest) = some (word, left)) : ∃ c r, c ∈ s ∧ left = c :: r := by
  rw [Token.attribute?_append h] at hread
  obtain ⟨⟨word', left'⟩, hread', heq⟩ := Option.map_eq_some_iff.mp hread
  simp only [Prod.mk.injEq] at heq
  obtain ⟨rfl, rfl⟩ := heq
  have hsplit := attribute?_append_eq hread'
  cases left' with
  | nil =>
    rw [List.append_nil] at hsplit
    subst hsplit
    exact absurd (attribute_of_attribute? hread') hs
  | cons c r =>
    refine ⟨c, r ++ rest, ?_, rfl⟩
    rw [← hsplit]
    exact List.mem_append_right _ List.mem_cons_self

end DirectorySearch.Token
