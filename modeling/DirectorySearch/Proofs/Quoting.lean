import DirectorySearch.Proofs.Like
import DirectorySearch.Search.Selection

/-! LIKE patterns for given texts. A text in which every wildcard and every escape character is escaped stands for
    itself, so a pattern of this kind asks for what an equality asks for. With wildcards between several such texts,
    the body is the texts with stars between them. -/

namespace DirectorySearch.Like

/-- A text as a pattern for itself: an escape character before each wildcard and before itself. -/
def quoteChars (e : Char) (x : List Char) : List Char :=
  x.flatMap fun c => if c = '%' ∨ c = '_' ∨ c = e then [e, c] else [c]

def quote (e : Char) (x : String) : String := .ofList (quoteChars e x.toList)

/-- Of texts with wildcards between them, those behind a wildcard that show in the body: the last, and before it
    those that are not empty. -/
def shown (others : List String) : List String :=
  others.dropLast.filter (· ≠ "") ++ others.getLast?.toList

theorem body_escaped {e d : Char} (hd : d = '%' ∨ d = '_' ∨ d = e) (starred : Bool) (r : List Char) :
    body (some e) starred (e :: d :: r) = do return Escape.escapeChar d ++ (← body (some e) false r) := by
  rw [body, if_pos rfl, if_pos (by simpa using hd)]

/-- Quoted text stands for itself, and ends a row of wildcards unless it is empty. -/
theorem body_quoteChars_append (e : Char) (starred : Bool) (x r : List Char) :
    body (some e) starred (quoteChars e x ++ r) = do
      return Escape.escapeChars x ++ (← body (some e) (starred && x.isEmpty) r) := by
  induction x generalizing starred with
  | nil => simp [quoteChars, Escape.escapeChars]
  | cons c x ih =>
    have hstep : body (some e) starred (quoteChars e (c :: x) ++ r) = do
        return Escape.escapeChar c ++ (← body (some e) false (quoteChars e x ++ r)) := by
      rw [quoteChars, List.flatMap_cons, List.append_assoc]
      by_cases hc : c = '%' ∨ c = '_' ∨ c = e
      · rw [if_pos hc]
        exact body_escaped hc starred _
      · rw [if_neg hc]
        obtain ⟨hp, hu, he⟩ : c ≠ '%' ∧ c ≠ '_' ∧ c ≠ e := by simpa using hc
        exact body_plain (by simpa using he) hp hu starred _
    rw [hstep, ih]
    simp [Escape.escapeChars]

theorem body_quoteChars (e : Char) (starred : Bool) (x : List Char) :
    body (some e) starred (quoteChars e x) = .ok (Escape.escapeChars x) := by
  have hbody := body_quoteChars_append e starred x []
  rw [List.append_nil, body] at hbody
  rw [hbody]
  exact congrArg Except.ok (List.append_nil _)

/-- Quoted texts with wildcards between them. -/
theorem body_intercalate {e : Char} (he : e ≠ '%') (starred : Bool) (first : List Char) (others : List (List Char)) :
    body (some e) starred (['%'].intercalate ((first :: others).map (quoteChars e))) =
      .ok (joined starred first others) := by
  induction others generalizing starred first with
  | nil => simpa [joined] using body_quoteChars e starred first
  | cons next others ih =>
    have hpattern : ['%'].intercalate ((first :: next :: others).map (quoteChars e)) =
        quoteChars e first ++ '%' :: ['%'].intercalate ((next :: others).map (quoteChars e)) := by
      simp [List.intercalate_cons_cons]
    have hpercent : some '%' ≠ some e := by simpa using he.symm
    rw [hpattern, body_quoteChars_append, body_percent hpercent, ih]
    cases hfirst : starred && first.isEmpty <;> simp [joined, hfirst]

theorem shown_ne_nil (next : String) (others : List String) : shown (next :: others) ≠ [] := by
  simp [shown]

theorem shown_cons_cons (first next : String) (others : List String) :
    shown (first :: next :: others) = if first = "" then shown (next :: others) else first :: shown (next :: others) := by
  by_cases hfirst : first = "" <;> simp [shown, hfirst]

/-- Behind a star, every text that shows has a star after it but the last. -/
theorem joined_true_eq (first : String) (others : List String) :
    joined true first.toList (others.map String.toList) =
      ['*'].intercalate ((shown (first :: others)).map fun x => Escape.escapeChars x.toList) := by
  induction others generalizing first with
  | nil => simp [joined, shown]
  | cons next others ih =>
    rw [List.map_cons, joined, ih, shown_cons_cons]
    by_cases hfirst : first = ""
    · simp [hfirst, Escape.escapeChars]
    · have hne : ((shown (next :: others)).map fun x => Escape.escapeChars x.toList) ≠ [] := by
        simpa using shown_ne_nil next others
      simp [hfirst, List.intercalate_cons_of_ne_nil hne]

theorem joined_false_eq (first : String) (others : List String) :
    joined false first.toList (others.map String.toList) =
      ['*'].intercalate ((first :: shown others).map fun x => Escape.escapeChars x.toList) := by
  cases others with
  | nil => simp [joined, shown]
  | cons next others =>
    have hne : ((shown (next :: others)).map fun x => Escape.escapeChars x.toList) ≠ [] := by
      simpa using shown_ne_nil next others
    rw [List.map_cons, joined, joined_true_eq, List.map_cons, List.intercalate_cons_of_ne_nil hne]
    simp

/-! ### Items -/

theorem itemBody_intercalate {e : Char} (he : e ≠ '%') (first : String) (others : List String) :
    itemBody ("%".intercalate ((first :: others).map (quote e))) (some e) =
      .ok ("*".intercalate ((first :: shown others).map Escape.escape)) := by
  have hpattern : ("%".intercalate ((first :: others).map (quote e))).toList =
      ['%'].intercalate ((first.toList :: others.map String.toList).map (quoteChars e)) := by
    simp [quote, Function.comp_def]
  have hstars : "*".intercalate ((first :: shown others).map Escape.escape) =
      .ofList (['*'].intercalate ((first :: shown others).map fun x => Escape.escapeChars x.toList)) := by
    rw [← String.toList_inj]
    simp [Escape.escape, Function.comp_def]
  rw [itemBody, hpattern, body_intercalate he, joined_false_eq, hstars]
  rfl

/-- Where a column may be compared and matched, a quoted pattern and an equality have one filter. -/
theorem like_quote {policy : UnsearchablePolicy} {column : Column} (hcomparison : column.checkUsage policy .comparison = .ok ())
    (hlike : column.checkUsage policy .like = .ok ()) (e : Char) (x : String) (negated : Bool) :
    Selection.like policy column (quote e x) (some e) negated =
      Selection.comparison policy (if negated then .ne else .eq) column (.string x) := by
  rw [Selection.like, Selection.comparison, hcomparison, hlike, quote, String.toList_ofList, body_quoteChars]
  cases column.attr with
  | error problem => rfl
  | ok attr => cases negated <;> rfl

/-- Quoted text is literal: it has the body of its own written form, and the filter of an equality wherever both may
    be asked for. Quoted texts with wildcards between them have the body with stars between them, where an empty text
    shows only at the beginning and at the end. -/
theorem quoted_text_is_literal :
    (∀ (e : Char) (x : String), itemBody (quote e x) (some e) = .ok (Escape.escape x)) ∧
      (∀ (policy : UnsearchablePolicy) (column : Column), column.checkUsage policy .comparison = .ok () →
        column.checkUsage policy .like = .ok () → ∀ (e : Char) (x : String) (negated : Bool),
          Selection.compile policy (some (.like column (quote e x) (some e) negated)) =
            Selection.compile policy (some (.comparison (if negated then .ne else .eq) column (.string x)))) ∧
      ∀ e : Char, e ≠ '%' → ∀ (first : String) (others : List String),
        itemBody ("%".intercalate ((first :: others).map (quote e))) (some e) =
          .ok ("*".intercalate ((first :: shown others).map Escape.escape)) := by
  refine ⟨fun e x => ?_, fun policy column hcomparison hlike e x negated => ?_, fun e he first others => ?_⟩
  · rw [itemBody, quote, String.toList_ofList, body_quoteChars]
    rfl
  · have hitems := like_quote hcomparison hlike e x negated
    cases negated <;> exact hitems
  · exact itemBody_intercalate he first others

/-- With an underscore as the escape character: a text with both wildcards, and empty texts in a row. -/
theorem quoted_text_is_literal_underscore :
    let cn : Column := ⟨"cn", none, .searchable⟩
    cn.checkUsage .reject .comparison = .ok () ∧ cn.checkUsage .reject .like = .ok () ∧
      Selection.compile .reject (some (.like cn "50_%__" (some '_') true)) =
        Selection.compile .reject (some (.comparison .ne cn (.string "50%_"))) ∧
      itemBody "_%%%%a*" (some '_') = .ok "%*a\\2a" := by
  intro cn
  obtain ⟨-, hitems, hbodies⟩ := quoted_text_is_literal
  have hcomparison : cn.checkUsage .reject .comparison = .ok () := rfl
  have hlike : cn.checkUsage .reject .like = .ok () := rfl
  have hquote : quote '_' "50%_" = "50_%__" := by decide
  have hpattern : "%".intercalate (["%", "", "", "a*"].map (quote '_')) = "_%%%%a*" := by decide
  have hstars : "*".intercalate (("%" :: shown ["", "", "a*"]).map Escape.escape) = "%*a\\2a" := by decide
  refine ⟨hcomparison, hlike, ?_, ?_⟩
  · rw [← hquote]
    exact hitems .reject cn hcomparison hlike '_' "50%_" true
  · rw [← hpattern, ← hstars]
    exact hbodies '_' (by decide) "%" ["", "", "a*"]

end DirectorySearch.Like
