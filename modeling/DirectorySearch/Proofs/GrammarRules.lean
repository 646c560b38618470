import Mathlib.Data.List.TakeWhile
import DirectorySearch.Proofs.ParsingExpression
import DirectorySearch.Proofs.SyntaxTree

/-! The grammar of filters as parsing expressions, and how its words are run: an attribute, a value and a relation are
    what the readers of words take. -/

namespace DirectorySearch

open Token

/-! ### Words -/

namespace Peg

variable {R : Type} {g : R → Peg R} {p : Char → Bool} {pos : Nat} {s : List Char}

theorem Runs.chars (pos : Nat) (s : List Char) :
    Runs g (.many (.char p)) pos s (some (s.takeWhile p, s.dropWhile p)) [] := by
  induction s generalizing pos with
  | nil => exact .stop (.char_fails (by simp))
  | cons c s ih =>
    cases hc : p c with
    | true =>
      rw [List.takeWhile_cons_of_pos hc, List.dropWhile_cons_of_pos hc]
      exact .more (.char hc) (ih _)
    | false =>
      have hnot : ¬p c = true := by simp [hc]
      rw [List.takeWhile_cons_of_neg hnot, List.dropWhile_cons_of_neg hnot]
      exact .stop (.char_fails (by simp [hc]))

theorem Runs.chars1 {c : Char} (hc : p c = true) :
    Runs g (.many1 (.char p)) pos (c :: s) (some (c :: s.takeWhile p, s.dropWhile p)) [] :=
  .seq (.char hc) (.chars _ s)

/-- A character and what fails behind it. -/
theorem Runs.behind_fails {e : Peg R} {a : Char} (h : ∀ r, s = a :: r → Runs g e (pos + 1) r none []) :
    Runs g (.seq (.literal [a]) e) pos s none [] := by
  by_cases ha : [a] <+: s
  · obtain ⟨r, rfl⟩ := ha
    exact .seq_fails_after (.literal rfl) (h r rfl)
  · exact .seq_fails (.literal_fails ha)

/-- One more match before a repetition and what stands behind it. -/
theorem Runs.more_seq {e f : Peg R} {w r v t : List Char} {q : Nat} {log log' : List Nat}
    (he : Runs g e pos s (some (w, r)) log) (hq : q = pos + w.length)
    (h : Runs g (.seq (.many e) f) q r (some (v, t)) log') :
    Runs g (.seq (.many e) f) pos s (some (w ++ v, t)) (log ++ log') := by
  subst hq
  cases h with
  | seq hmany hf =>
    rw [Nat.add_assoc, ← List.length_append] at hf
    rw [← List.append_assoc, ← List.append_assoc]
    exact .seq (.more he hmany) hf

/-- A separator and a word behind it. -/
def item (separator : Char) (p : Char → Bool) : Peg R := .seq (.literal [separator]) (.many1 (.char p))

variable {separator : Char}

theorem Runs.item {c : Char} (hc : p c = true) :
    Runs g (item separator p) pos (separator :: c :: s) (some (separator :: c :: s.takeWhile p, s.dropWhile p)) [] :=
  .seq (.literal rfl) (.chars1 hc)

theorem Runs.item_fails (h : ∀ c r, s = separator :: c :: r → p c = false) : Runs g (Peg.item separator p) pos s none [] := by
  refine .behind_fails fun r hr => .seq_fails (.char_fails fun c hc => ?_)
  obtain ⟨t, rfl⟩ := List.head?_eq_some_iff.mp hc
  exact h c t hr

end Peg

namespace Token

variable {separator : Char} {p : Char → Bool}

/-- An item stands at the start of a text, or none does. -/
theorem item_or_none (separator : Char) (p : Char → Bool) (s : List Char) :
    (∃ c r, s = separator :: c :: r ∧ p c = true) ∨ ∀ c r, s = separator :: c :: r → p c = false := by
  by_cases hitem : ∃ c r, s = separator :: c :: r ∧ p c = true
  · exact .inl hitem
  · refine .inr fun c r heq => Bool.eq_false_iff.mpr fun hc => hitem ⟨c, r, heq, hc⟩

theorem runs_item {c : Char} (hc : p c = true) (r : List Char) :
    runs separator p (separator :: c :: r) = (separator :: c :: (runs separator p r).1, (runs separator p r).2) := by
  simp [runs, hc]

/-- Nothing is taken where neither a run nor an item starts. -/
theorem runs_eq_nil {s : List Char} (hs : ∀ c ∈ s.head?, p c = false)
    (h : ∀ c r, s = separator :: c :: r → p c = false) : runs separator p s = ([], s) := by
  match s with
  | [] => rfl
  | [a] => simp [runs, hs a rfl]
  | a :: b :: r =>
    have hitem : ¬(a = separator ∧ p b = true) := by
      rintro ⟨rfl, hb⟩
      rw [h b r rfl] at hb
      cases hb
    simp [runs, hs a rfl, hitem]

/-- A run is a word of its characters, and then items. -/
theorem runs_takeWhile (hsep : p separator = false) (s : List Char) :
    runs separator p s = (s.takeWhile p ++ (runs separator p (s.dropWhile p)).1, (runs separator p (s.dropWhile p)).2) := by
  have hall : ∀ c ∈ s.takeWhile p, p c = true := fun c hc => List.mem_takeWhile_imp hc
  rw [← runs_all_append hsep hall, List.takeWhile_append_dropWhile]

theorem head_dropWhile (s : List Char) : ∀ c ∈ (s.dropWhile p).head?, p c = false := by
  intro c hc
  have hnot := List.head?_dropWhile_not p s
  rw [hc] at hnot
  simpa using hnot

end Token

namespace Peg

variable {R : Type} {g : R → Peg R} {p : Char → Bool} {separator : Char}

/-- An item, and the items after it. -/
theorem Runs.items_cons (hsep : p separator = false) {c : Char} (hc : p c = true) {pos : Nat} {r : List Char}
    (h : ∀ pos, Runs g (.many (Peg.item separator p)) pos (r.dropWhile p) (some (runs separator p (r.dropWhile p))) []) :
    Runs g (.many (Peg.item separator p)) pos (separator :: c :: r)
      (some (separator :: c :: (runs separator p r).1, (runs separator p r).2)) [] := by
  have hrun : Runs g (.many (Peg.item separator p)) pos (separator :: c :: r) _ _ := .more (.item hc) (h _)
  rw [runs_takeWhile hsep r]
  exact hrun

/-- Behind a word, a run goes on with items. -/
theorem Runs.items (hsep : p separator = false) {s : List Char} (hs : ∀ c ∈ s.head?, p c = false) (pos : Nat) :
    Runs g (.many (Peg.item separator p)) pos s (some (runs separator p s)) [] := by
  induction hlength : s.length using Nat.strong_induction_on generalizing s pos with
  | _ n ih =>
    rcases item_or_none separator p s with ⟨c, r, rfl, hc⟩ | hnone
    · have hshorter : (r.dropWhile p).length < n := by
        have hle := (List.dropWhile_suffix p (l := r)).length_le
        simp only [List.length_cons] at hlength
        omega
      rw [runs_item hc]
      exact items_cons hsep hc fun pos => ih _ hshorter (head_dropWhile r) pos rfl
    · rw [runs_eq_nil hs hnone]
      exact .stop (.item_fails hnone)

end Peg

/-! ### Rules -/

namespace Grammar

/-- A name. -/
def descr : Peg Rule := .seq (.char Char.isAlpha) (.many (.char isKeyChar))

/-- Two numbers or more, with dots between them. -/
def numericOid : Peg Rule := .seq (.many1 (.char Char.isDigit)) (.many1 (.item '.' Char.isDigit))

def escaped : Peg Rule := .seq (.literal ['\\']) (.seq (.char isHexDigit) (.char isHexDigit))

def valueChar : Peg Rule := .choice escaped (.char isPlain)

/-- What follows the first star of a substring item. -/
def tail : Peg Rule := .seq (.many (.seq (.rule .value) (.rule .star))) (.optional (.rule .value))

def anyItem : Peg Rule := .choice (.rule .present) (.choice (.rule .substring) (.rule .simple))

/-- What may stand between parentheses. -/
def inner : Peg Rule := .choice (.rule .and) (.choice (.rule .or) (.choice (.rule .not) anyItem))

/-- The rules with names. The others stand within them. -/
def rules : Rule → Peg Rule
  | .filter => .seq (.rule .component) (.rule .stop)
  | .component => .seq (.literal ['(']) (.seq inner (.literal [')']))
  | .and => .seq (.literal ['&']) (.many1 (.rule .component))
  | .or => .seq (.literal ['|']) (.many1 (.rule .component))
  | .not => .seq (.literal ['!']) (.rule .component)
  | .present => .seq (.rule .attr) (.seq (.literal ['=']) (.seq (.literal ['*']) (.ahead [')'])))
  | .substring =>
    .seq (.rule .attr) (.seq (.literal ['=']) (.seq (.optional (.rule .value)) (.seq (.rule .star) tail)))
  | .simple => .seq (.rule .attr) (.seq (.rule .relation) (.optional (.rule .value)))
  | .relation => .choice (.literal ['~', '=']) (.choice (.literal ['>', '=']) (.choice (.literal ['<', '=']) (.literal ['='])))
  | .star => .literal ['*']
  | .attr => .seq (.choice descr numericOid) (.many (.item ';' isKeyChar))
  | .value => .many1 valueChar
  | .stop => .ending

open Peg

variable {pos : Nat} {s : List Char}

/-! ### Attributes -/

theorem runs_descr {c : Char} (hc : c.isAlpha = true) :
    Runs rules descr pos (c :: s) (some (c :: s.takeWhile isKeyChar, s.dropWhile isKeyChar)) [] :=
  .seq (.char hc) (.chars _ s)

theorem runs_descr_fails (h : ∀ c ∈ s.head?, c.isAlpha = false) : Runs rules descr pos s none [] :=
  .seq_fails (.char_fails h)

theorem runs_options (pos : Nat) (s : List Char) :
    Runs rules (.many (.item ';' isKeyChar)) pos s (some (options s)) [] := by
  rcases item_or_none ';' isKeyChar s with ⟨c, r, rfl, hc⟩ | hnone
  · have hrun : Runs rules (.many (.item ';' isKeyChar)) pos (';' :: c :: r) _ [] :=
      .items_cons (by decide) hc fun pos => .items (by decide) (head_dropWhile r) pos
    simpa [options, hc] using hrun
  · have hoptions : options s = ([], s) := by
      unfold options
      split
      · next c r => simp [hnone c r rfl]
      · rfl
    rw [hoptions]
    exact .stop (.item_fails hnone)

/-- Numbers are a numeric identifier exactly when a dot is among them. -/
theorem runs_numericOid {c : Char} (hc : c.isDigit = true) (pos : Nat) (s : List Char) : Runs rules numericOid pos (c :: s)
    (if (runs '.' Char.isDigit s).1.contains '.' then
      some (c :: (runs '.' Char.isDigit s).1, (runs '.' Char.isDigit s).2) else none) [] := by
  have hdigits : ∀ d ∈ s.takeWhile Char.isDigit, d.isDigit = true := fun d hd => List.mem_takeWhile_imp hd
  rw [runs_takeWhile (by decide) s]
  rcases item_or_none '.' Char.isDigit (s.dropWhile Char.isDigit) with ⟨d, r, hrest, hd⟩ | hnone
  · have hnumbers : Runs rules (.many1 (.item '.' Char.isDigit)) (pos + (c :: s.takeWhile Char.isDigit).length)
        ('.' :: d :: r) _ [] := .seq (.item hd) (.items (by decide) (head_dropWhile r) _)
    have hrun : Runs rules numericOid pos (c :: s) _ [] := .seq (.chars1 hc) (hrest ▸ hnumbers)
    rw [hrest, runs_item hd, runs_takeWhile (by decide) r, if_pos (by simp)]
    exact hrun
  · have hdot : '.' ∉ s.takeWhile Char.isDigit := digits_not_contains hdigits
    rw [runs_eq_nil (head_dropWhile s) hnone, List.append_nil, if_neg (by simpa using hdot)]
    exact .seq_fails_after (.chars1 hc) (.seq_fails (.item_fails hnone))

theorem runs_numericOid_fails (h : ∀ c ∈ s.head?, c.isDigit = false) : Runs rules numericOid pos s none [] :=
  .seq_fails (.seq_fails (.char_fails h))

theorem runs_attr_body (pos : Nat) (s : List Char) : Runs rules (rules .attr) pos s (attribute? s) [] := by
  cases s with
  | nil =>
    have hdescr : Runs rules descr pos [] none [] := runs_descr_fails (by simp)
    have hoid : Runs rules numericOid pos [] none [] := runs_numericOid_fails (by simp)
    exact .seq_fails (.second hdescr hoid)
  | cons c r =>
    rw [attribute?]
    by_cases halpha : c.isAlpha = true
    · have hrun : Runs rules (rules .attr) pos (c :: r) _ [] :=
        .seq (.first (runs_descr halpha)) (.items (by decide) (head_dropWhile r) _)
      rw [if_pos halpha, runs_takeWhile (by decide) r]
      exact hrun
    · have hdescr : Runs rules descr pos (c :: r) none [] := runs_descr_fails (by simpa using halpha)
      rw [if_neg halpha]
      by_cases hdigit : c.isDigit = true
      · have hoid := runs_numericOid hdigit pos r
        rw [if_pos hdigit]
        rcases hnumbers : runs '.' Char.isDigit r with ⟨numbers, rest⟩
        rw [hnumbers] at hoid
        by_cases hdot : numbers.contains '.' = true
        · simp only [if_pos hdot] at hoid ⊢
          exact .seq (.second hdescr hoid) (runs_options _ rest)
        · simp only [if_neg hdot] at hoid ⊢
          exact .seq_fails (.second hdescr hoid)
      · rw [if_neg hdigit]
        have hoid : Runs rules numericOid pos (c :: r) none [] := runs_numericOid_fails (by simpa using hdigit)
        exact .seq_fails (.second hdescr hoid)

theorem runs_attr {found : List Char × List Char} (h : attribute? s = some found) :
    Runs rules (.rule .attr) pos s (some found) [] :=
  .rule (h ▸ runs_attr_body pos s)

theorem runs_attr_fails (h : attribute? s = none) : Runs rules (.rule .attr) pos s none [pos] :=
  .rule_fails (h ▸ runs_attr_body pos s)

/-! ### Values -/

theorem runs_escaped {a b : Char} (h : (Escape.octet? a b).isSome = true) :
    Runs rules escaped pos ('\\' :: a :: b :: s) (some (['\\', a, b], s)) [] := by
  obtain ⟨ha, hb⟩ := octet?_isSome.mp h
  exact .seq (.literal rfl) (.seq (.char ha) (.char hb))

theorem runs_escaped_fails (h : ∀ a b r, s = '\\' :: a :: b :: r → (Escape.octet? a b).isSome = false) :
    Runs rules escaped pos s none [] := by
  refine .behind_fails fun r hr => ?_
  by_cases hfirst : ∀ a ∈ r.head?, isHexDigit a = false
  · exact .seq_fails (.char_fails hfirst)
  · simp only [not_forall, Bool.not_eq_false] at hfirst
    obtain ⟨a, hmem, ha⟩ := hfirst
    obtain ⟨t, rfl⟩ := List.head?_eq_some_iff.mp hmem
    refine .seq_fails_after (.char ha) (.char_fails fun b hb => ?_)
    obtain ⟨u, rfl⟩ := List.head?_eq_some_iff.mp hb
    by_contra hhex
    have hoctet := h a b u hr
    rw [octet?_isSome.mpr ⟨ha, by simpa using hhex⟩] at hoctet
    cases hoctet

/-- A value starts with one of its characters or not at all, and so does a run. -/
theorem valueChar_cases (s : List Char) :
    (∃ w r, w ≠ [] ∧ s = w ++ r ∧ value s = (w ++ (value r).1, (value r).2) ∧
      ∀ pos, Runs rules valueChar pos s (some (w, r)) []) ∨
    (value s = ([], s) ∧ ∀ pos, Runs rules valueChar pos s none []) := by
  cases s with
  | nil => exact .inr ⟨rfl, fun _ => .second (runs_escaped_fails (by simp)) (.char_fails (by simp))⟩
  | cons c r =>
    cases hplain : isPlain c with
    | true =>
      have hslash := Escape.ne_backslash_of_plain hplain
      exact .inl ⟨[c], r, by simp, rfl, value_plain hplain r,
        fun _ => .second (runs_escaped_fails (by simp [hslash])) (.char hplain)⟩
    | false =>
      by_cases hescape : ∃ a b t, c :: r = '\\' :: a :: b :: t ∧ (Escape.octet? a b).isSome = true
      · obtain ⟨a, b, t, heq, ho⟩ := hescape
        rw [heq]
        exact .inl ⟨['\\', a, b], t, by simp, rfl, value_escape ho t, fun _ => .first (runs_escaped ho)⟩
      · have hnone : ∀ a b t, c :: r = '\\' :: a :: b :: t → (Escape.octet? a b).isSome = false := by
          intro a b t heq
          by_contra ho
          exact hescape ⟨a, b, t, heq, Bool.eq_true_of_not_eq_false ho⟩
        have hvalue : value (c :: r) = ([], c :: r) := by
          unfold value
          split
          · next heq => cases heq
          · next a b t heq => rw [if_neg (by simp [hnone a b t heq]), heq]
          · next d t _ heq =>
            cases heq
            rw [if_neg (by simp [hplain])]
        exact .inr ⟨hvalue, fun _ => .second (runs_escaped_fails hnone) (.char_fails (by simpa using hplain))⟩

theorem runs_valueChars (pos : Nat) (s : List Char) : Runs rules (.many valueChar) pos s (some (value s)) [] := by
  induction hlength : s.length using Nat.strong_induction_on generalizing s pos with
  | _ n ih =>
    rcases valueChar_cases s with ⟨w, r, hne, rfl, hvalue, hrun⟩ | ⟨hvalue, hrun⟩
    · have hshorter : r.length < n := by
        have hpos := List.length_pos_iff.mpr hne
        rw [List.length_append] at hlength
        omega
      rw [hvalue]
      exact .more (hrun pos) (ih _ hshorter _ r rfl)
    · rw [hvalue]
      exact .stop (hrun pos)

theorem runs_value {w rest : List Char} (h : value s = (w, rest)) (hw : w ≠ []) :
    Runs rules (.rule .value) pos s (some (w, rest)) [] := by
  rcases valueChar_cases s with ⟨v, r, -, -, hvalue, hrun⟩ | ⟨hvalue, -⟩
  · have hbody : Runs rules (rules .value) pos s _ _ := .seq (hrun pos) (runs_valueChars _ r)
    rw [← h, hvalue]
    exact .rule hbody
  · rw [hvalue] at h
    cases h
    exact absurd rfl hw

theorem runs_value_fails {rest : List Char} (h : value s = ([], rest)) : Runs rules (.rule .value) pos s none [pos] := by
  rcases valueChar_cases s with ⟨v, r, hv, -, hvalue, -⟩ | ⟨-, hrun⟩
  · rw [hvalue] at h
    exact absurd (List.append_eq_nil_iff.mp (Prod.mk.inj h).1).1 hv
  · exact .rule_fails (.seq_fails (hrun pos))

/-! ### Relations -/

theorem runs_relation_body (pos : Nat) (s : List Char) :
    Runs rules (rules .relation) pos s ((relation? s).map fun found => (found.1.symbol, found.2)) [] := by
  unfold relation?
  split
  · exact .first (.literal rfl)
  · exact .second (.literal_fails (by simp)) (.first (.literal rfl))
  · exact .second (.literal_fails (by simp)) (.second (.literal_fails (by simp)) (.first (.literal rfl)))
  · exact .second (.literal_fails (by simp)) (.second (.literal_fails (by simp))
      (.second (.literal_fails (by simp)) (.literal rfl)))
  · next happrox hgreater hless hequal =>
    refine .second (.literal_fails ?_) (.second (.literal_fails ?_) (.second (.literal_fails ?_) (.literal_fails ?_)))
    · exact fun ⟨r, hr⟩ => happrox r hr.symm
    · exact fun ⟨r, hr⟩ => hgreater r hr.symm
    · exact fun ⟨r, hr⟩ => hless r hr.symm
    · exact fun ⟨r, hr⟩ => hequal r hr.symm

theorem runs_relation {relation : Relation} {rest : List Char} (h : relation? s = some (relation, rest)) :
    Runs rules (.rule .relation) pos s (some (relation.symbol, rest)) [] := by
  have hbody := runs_relation_body pos s
  rw [h] at hbody
  exact .rule hbody

theorem runs_relation_fails (h : relation? s = none) : Runs rules (.rule .relation) pos s none [pos] := by
  have hbody := runs_relation_body pos s
  rw [h] at hbody
  exact .rule_fails hbody

/-! ### Parts of items -/

theorem runs_star {r : List Char} : Runs rules (.rule .star) pos ('*' :: r) (some (['*'], r)) [] :=
  .rule (.literal rfl)

theorem runs_star_fails (h : ∀ r, s ≠ '*' :: r) : Runs rules (.rule .star) pos s none [pos] :=
  .rule_fails (.literal_fails fun ⟨r, hr⟩ => h r hr.symm)

/-- A value may be missing, which leaves its offset. -/
theorem runs_optional_value (pos : Nat) (s : List Char) : ∃ log,
    Runs rules (.optional (.rule .value)) pos s (some (value s)) log ∧
      furthest log = if (value s).1.isEmpty then pos else 0 := by
  rcases hvalue : value s with ⟨w, rest⟩
  cases w with
  | nil =>
    obtain ⟨hs, -⟩ := value_eq hvalue
    exact ⟨_, .second (runs_value_fails hvalue) (.literal hs), by simp⟩
  | cons c w => exact ⟨_, .first (runs_value hvalue (by simp)), by simp⟩

end Grammar

end DirectorySearch
