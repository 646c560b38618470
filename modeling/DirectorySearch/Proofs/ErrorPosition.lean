import Mathlib.Data.Prod.Lex
import DirectorySearch.Proofs.Attempts

/-! Where a text that is no filter is reported. The grammar as parsing expressions derives only what its derivations
    derive, and every part of it derives something. So the rules are tried only where the text can still be completed,
    and a report never lies past the first character that cannot belong to a filter. -/

namespace DirectorySearch

/-! ### Words of expressions -/

namespace Peg

variable {R : Type} {X : R → Language Char} {e f : Peg R} {w : List Char}

theorem mem_lang_seq : w ∈ lang X (.seq e f) ↔ ∃ u ∈ lang X e, ∃ v ∈ lang X f, u ++ v = w :=
  Language.mem_mul

theorem mem_lang_choice : w ∈ lang X (.choice e f) ↔ w ∈ lang X e ∨ w ∈ lang X f :=
  Language.mem_add _ _ _

/-- What a repetition takes is made up of what its parts stand for. -/
theorem exists_flatMap_of_mem_many {α : Type} {text : α → List Char} (h : ∀ w ∈ lang X e, ∃ a, text a = w)
    (hw : w ∈ lang X (.many e)) : ∃ as : List α, as.flatMap text = w := by
  obtain ⟨words, rfl, hwords⟩ := Language.mem_kstar.mp hw
  clear hw
  induction words with
  | nil => exact ⟨[], rfl⟩
  | cons v words ih =>
    obtain ⟨hv, hlater⟩ := List.forall_mem_cons.mp hwords
    obtain ⟨a, rfl⟩ := h v hv
    obtain ⟨as, has⟩ := ih hlater
    exact ⟨a :: as, by rw [List.flatMap_cons, has, List.flatten_cons]⟩

end Peg

/-! ### Words of the grammar -/

namespace Grammar

open Peg Token

/-- The texts that the grammar derives. -/
def filters : Language Char := {w | ∃ d : Component, d.text = w}

/-- What each rule derives. -/
def derived : Rule → Language Char
  | .filter => filters
  | .component => filters
  | .and => {w | ∃ (first : Component) (others : List Component), '&' :: (first.text ++ Component.texts others) = w}
  | .or => {w | ∃ (first : Component) (others : List Component), '|' :: (first.text ++ Component.texts others) = w}
  | .not => {w | ∃ part : Component, '!' :: part.text = w}
  | .present => {w | ∃ attr : Attr, attr.text ++ ['=', '*'] = w}
  | .substring => {w | ∃ (attr : Attr) (initial : Option Value) (any : List Value) (final : Option Value),
      attr.text ++ '=' :: (valueText initial ++ '*' :: (any.flatMap (·.text ++ ['*']) ++ valueText final)) = w}
  | .simple => {w | ∃ (attr : Attr) (relation : Relation) (value : Option Value),
      attr.text ++ (relation.symbol ++ valueText value) = w}
  | .relation => {w | ∃ relation : Relation, relation.symbol = w}
  | .star => {['*']}
  | .attr => {w | ∃ attr : Attr, attr.text = w}
  | .value => {w | ∃ value : Value, value.text = w}
  | .stop => {[]}

variable {p : Char → Bool} {separator : Char} {w : List Char}

theorem exists_char (hw : w ∈ lang derived (.char p)) : ∃ c : CharOf p, [c.val] = w := by
  obtain ⟨c, hc, rfl⟩ := hw
  exact ⟨⟨c, hc⟩, rfl⟩

theorem exists_chars (hw : w ∈ lang derived (.many (.char p))) : ∃ cs : List (CharOf p), cs.map (·.val) = w := by
  obtain ⟨cs, rfl⟩ := exists_flatMap_of_mem_many (fun _ => exists_char) hw
  exact ⟨cs, List.map_eq_flatMap⟩

theorem exists_run (hw : w ∈ lang derived (.many1 (.char p))) : ∃ r : Run p, r.text = w := by
  obtain ⟨_, hfirst, _, hothers, rfl⟩ := mem_lang_seq.mp hw
  obtain ⟨c, rfl⟩ := exists_char hfirst
  obtain ⟨cs, rfl⟩ := exists_chars hothers
  exact ⟨⟨c, cs⟩, rfl⟩

theorem exists_item (hw : w ∈ lang derived (.item separator p)) : ∃ r : Run p, separator :: r.text = w := by
  obtain ⟨_, rfl, _, hrun, rfl⟩ := mem_lang_seq.mp hw
  obtain ⟨r, rfl⟩ := exists_run hrun
  exact ⟨r, rfl⟩

theorem exists_items (hw : w ∈ lang derived (.many (.item separator p))) :
    ∃ runs : List (Run p), separated separator runs = w :=
  exists_flatMap_of_mem_many (fun _ => exists_item) hw

theorem exists_descr (hw : w ∈ lang derived descr) : ∃ d : Descr, (AttrBase.descr d).text = w := by
  obtain ⟨_, hfirst, _, hothers, rfl⟩ := mem_lang_seq.mp hw
  obtain ⟨c, rfl⟩ := exists_char hfirst
  obtain ⟨cs, rfl⟩ := exists_chars hothers
  exact ⟨⟨c, cs⟩, rfl⟩

theorem exists_numericOid (hw : w ∈ lang derived numericOid) : ∃ n : NumericOid, (AttrBase.numericOid n).text = w := by
  obtain ⟨_, hfirst, _, hlater, rfl⟩ := mem_lang_seq.mp hw
  obtain ⟨_, hsecond, _, hothers, rfl⟩ := mem_lang_seq.mp hlater
  obtain ⟨first, rfl⟩ := exists_run hfirst
  obtain ⟨second, rfl⟩ := exists_item hsecond
  obtain ⟨others, rfl⟩ := exists_items hothers
  exact ⟨⟨first, second, others⟩, rfl⟩

theorem exists_attr (hw : w ∈ lang derived (rules .attr)) : ∃ attr : Attr, attr.text = w := by
  obtain ⟨_, hbase, _, hoptions, rfl⟩ := mem_lang_seq.mp hw
  obtain ⟨options, rfl⟩ := exists_items hoptions
  rcases mem_lang_choice.mp hbase with hbase | hbase
  · obtain ⟨d, rfl⟩ := exists_descr hbase
    exact ⟨⟨.descr d, options⟩, rfl⟩
  · obtain ⟨n, rfl⟩ := exists_numericOid hbase
    exact ⟨⟨.numericOid n, options⟩, rfl⟩

theorem exists_valueChar (hw : w ∈ lang derived valueChar) : ∃ c : ValueChar, c.text = w := by
  rcases mem_lang_choice.mp hw with hw | hw
  · obtain ⟨_, rfl, _, hdigits, rfl⟩ := mem_lang_seq.mp hw
    obtain ⟨_, hhigh, _, hlow, rfl⟩ := mem_lang_seq.mp hdigits
    obtain ⟨high, rfl⟩ := exists_char hhigh
    obtain ⟨low, rfl⟩ := exists_char hlow
    exact ⟨.escaped high low, rfl⟩
  · obtain ⟨c, rfl⟩ := exists_char hw
    exact ⟨.plain c, rfl⟩

theorem exists_value (hw : w ∈ lang derived (rules .value)) : ∃ value : Value, value.text = w := by
  obtain ⟨_, hfirst, _, hothers, rfl⟩ := mem_lang_seq.mp hw
  obtain ⟨c, rfl⟩ := exists_valueChar hfirst
  obtain ⟨cs, rfl⟩ := exists_flatMap_of_mem_many (fun _ => exists_valueChar) hothers
  exact ⟨⟨c, cs⟩, rfl⟩

theorem exists_optional_value (hw : w ∈ lang derived (.optional (.rule .value))) : ∃ v : Option Value, valueText v = w := by
  rcases mem_lang_choice.mp hw with ⟨v, rfl⟩ | rfl
  · exact ⟨some v, rfl⟩
  · exact ⟨none, rfl⟩

theorem exists_starred (hw : w ∈ lang derived (.seq (.rule .value) (.rule .star))) :
    ∃ value : Value, value.text ++ ['*'] = w := by
  obtain ⟨_, ⟨value, rfl⟩, _, rfl, rfl⟩ := mem_lang_seq.mp hw
  exact ⟨value, rfl⟩

theorem texts_eq_flatMap (ds : List Component) : Component.texts ds = ds.flatMap (·.text) := by
  induction ds with
  | nil => rfl
  | cons d ds ih => rw [Component.texts, ih, List.flatMap_cons]

theorem exists_components (hw : w ∈ lang derived (.many1 (.rule .component))) :
    ∃ (first : Component) (others : List Component), first.text ++ Component.texts others = w := by
  obtain ⟨_, ⟨first, rfl⟩, _, hothers, rfl⟩ := mem_lang_seq.mp hw
  obtain ⟨others, rfl⟩ := exists_flatMap_of_mem_many (fun _ => id) hothers
  exact ⟨first, others, by rw [texts_eq_flatMap]⟩

/-- What may stand between parentheses makes a component. -/
theorem parenthesized_mem_filters (hw : w ∈ lang derived inner) : '(' :: (w ++ [')']) ∈ filters := by
  rcases mem_lang_choice.mp hw with ⟨first, others, rfl⟩ | hw
  · exact ⟨.and first others, rfl⟩
  rcases mem_lang_choice.mp hw with ⟨first, others, rfl⟩ | hw
  · exact ⟨.or first others, rfl⟩
  rcases mem_lang_choice.mp hw with ⟨part, rfl⟩ | hw
  · exact ⟨.not part, rfl⟩
  rcases mem_lang_choice.mp hw with ⟨attr, rfl⟩ | hw
  · exact ⟨.present attr, by simp [Component.text]⟩
  rcases mem_lang_choice.mp hw with ⟨attr, initial, any, final, rfl⟩ | ⟨attr, relation, value, rfl⟩
  · exact ⟨.substring attr initial any final, by simp [Component.text]⟩
  · exact ⟨.simple attr relation value, by simp [Component.text]⟩

/-- Each rule derives what its expression derives. -/
theorem derived_of_mem_lang : ∀ (r : Rule) (w : List Char), w ∈ lang derived (rules r) → w ∈ derived r
  | .filter, _, hw => by
    obtain ⟨_, ⟨d, rfl⟩, _, rfl, rfl⟩ := mem_lang_seq.mp hw
    exact ⟨d, (List.append_nil _).symm⟩
  | .component, _, hw => by
    obtain ⟨_, rfl, _, hrest, rfl⟩ := mem_lang_seq.mp hw
    obtain ⟨_, hinner, _, rfl, rfl⟩ := mem_lang_seq.mp hrest
    exact parenthesized_mem_filters hinner
  | .and, _, hw => by
    obtain ⟨_, rfl, _, hparts, rfl⟩ := mem_lang_seq.mp hw
    obtain ⟨first, others, rfl⟩ := exists_components hparts
    exact ⟨first, others, rfl⟩
  | .or, _, hw => by
    obtain ⟨_, rfl, _, hparts, rfl⟩ := mem_lang_seq.mp hw
    obtain ⟨first, others, rfl⟩ := exists_components hparts
    exact ⟨first, others, rfl⟩
  | .not, _, hw => by
    obtain ⟨_, rfl, _, ⟨part, rfl⟩, rfl⟩ := mem_lang_seq.mp hw
    exact ⟨part, rfl⟩
  | .present, _, hw => by
    obtain ⟨_, ⟨attr, rfl⟩, _, hclaim, rfl⟩ := mem_lang_seq.mp hw
    obtain ⟨_, rfl, _, hstar, rfl⟩ := mem_lang_seq.mp hclaim
    obtain ⟨_, rfl, _, rfl, rfl⟩ := mem_lang_seq.mp hstar
    exact ⟨attr, rfl⟩
  | .substring, _, hw => by
    obtain ⟨_, ⟨attr, rfl⟩, _, hclaim, rfl⟩ := mem_lang_seq.mp hw
    obtain ⟨_, rfl, _, hpieces, rfl⟩ := mem_lang_seq.mp hclaim
    obtain ⟨_, hinitial, _, hstar, rfl⟩ := mem_lang_seq.mp hpieces
    obtain ⟨_, rfl, _, htail, rfl⟩ := mem_lang_seq.mp hstar
    obtain ⟨_, hany, _, hfinal, rfl⟩ := mem_lang_seq.mp htail
    obtain ⟨initial, rfl⟩ := exists_optional_value hinitial
    obtain ⟨final, rfl⟩ := exists_optional_value hfinal
    obtain ⟨any, rfl⟩ := exists_flatMap_of_mem_many (fun _ => exists_starred) hany
    exact ⟨attr, initial, any, final, rfl⟩
  | .simple, _, hw => by
    obtain ⟨_, ⟨attr, rfl⟩, _, hclaim, rfl⟩ := mem_lang_seq.mp hw
    obtain ⟨_, ⟨relation, rfl⟩, _, hvalue, rfl⟩ := mem_lang_seq.mp hclaim
    obtain ⟨value, rfl⟩ := exists_optional_value hvalue
    exact ⟨attr, relation, value, rfl⟩
  | .relation, _, hw => by
    rcases mem_lang_choice.mp hw with rfl | hw
    · exact ⟨.approx, rfl⟩
    rcases mem_lang_choice.mp hw with rfl | hw
    · exact ⟨.greaterOrEqual, rfl⟩
    rcases mem_lang_choice.mp hw with rfl | rfl
    · exact ⟨.lessOrEqual, rfl⟩
    · exact ⟨.equal, rfl⟩
  | .star, _, hw => hw
  | .attr, _, hw => exists_attr hw
  | .value, _, hw => exists_value hw
  | .stop, _, hw => hw

/-- No rule is left without a text, and an item is enough to see it. -/
theorem exists_derived (r : Rule) : ∃ w, w ∈ derived r := by
  let attr : Attr := ⟨.descr ⟨⟨'a', rfl⟩, []⟩, []⟩
  let value : Value := ⟨.plain ⟨'a', rfl⟩, []⟩
  cases r with
  | filter => exact ⟨_, .present attr, rfl⟩
  | component => exact ⟨_, .present attr, rfl⟩
  | and => exact ⟨_, .present attr, [], rfl⟩
  | or => exact ⟨_, .present attr, [], rfl⟩
  | not => exact ⟨_, .present attr, rfl⟩
  | present => exact ⟨_, attr, rfl⟩
  | substring => exact ⟨_, attr, none, [], none, rfl⟩
  | simple => exact ⟨_, attr, .equal, none, rfl⟩
  | relation => exact ⟨_, .equal, rfl⟩
  | star => exact ⟨_, rfl⟩
  | attr => exact ⟨_, attr, rfl⟩
  | value => exact ⟨_, value, rfl⟩
  | stop => exact ⟨_, rfl⟩

theorem productive_rules (r : Rule) : Productive derived (rules r) := by
  have halpha : ∃ c : Char, c.isAlpha = true := ⟨'a', rfl⟩
  have hdigit : ∃ c : Char, c.isDigit = true := ⟨'0', rfl⟩
  have hkey : ∃ c, isKeyChar c = true := ⟨'a', rfl⟩
  have hhex : ∃ c, isHexDigit c = true := ⟨'0', rfl⟩
  have hplain : ∃ c, isPlain c = true := ⟨'a', rfl⟩
  cases r <;>
    simp only [rules, inner, anyItem, tail, descr, numericOid, escaped, valueChar, Peg.item, Peg.many1, Peg.optional,
      Productive, exists_derived, halpha, hdigit, hkey, hhex, hplain, and_self]

/-- Wherever a run of the whole grammar fails to match a rule, what it has read so far may still become a filter. -/
theorem runs_filter_viable {s : List Char} {o : Option (List Char × List Char)} {log : List Nat}
    (h : Runs rules (.rule .filter) 0 s o log) : AllViable filters s log := by
  have hfollow : MayFollow derived filters (.rule .filter) [] := fun w hw => ⟨[], by rwa [List.append_nil]⟩
  exact h.allViable derived_of_mem_lang productive_rules rfl (exists_derived .filter) hfollow

end Grammar

/-! ### Lines and columns -/

namespace Reader

theorem position_succ {s : List Char} {q : Nat} (h : q < s.length) :
    toLex (position s q) < toLex (position s (q + 1)) := by
  rw [position, position, List.take_succ_eq_append_getElem h, List.foldl_append]
  simp only [List.foldl_cons, List.foldl_nil]
  split
  · exact Prod.Lex.toLex_lt_toLex.mpr (.inl (Nat.lt_succ_self _))
  · exact Prod.Lex.toLex_lt_toLex.mpr (.inr ⟨rfl, Nat.lt_succ_self _⟩)

theorem position_lt {s : List Char} {p q : Nat} (hpq : p < q) (hq : q ≤ s.length) :
    toLex (position s p) < toLex (position s q) := by
  induction q, hpq using Nat.le_induction with
  | base => exact position_succ hq
  | succ q _ ih => exact (ih (Nat.le_of_succ_le hq)).trans (position_succ hq)

/-- Each offset has its own line and column. -/
theorem position_inj {s : List Char} {p q : Nat} (hp : p ≤ s.length) (hq : q ≤ s.length)
    (h : position s p = position s q) : p = q := by
  rcases Nat.lt_trichotomy p q with hlt | heq | hlt
  · exact absurd (position_lt hlt hq) (h ▸ lt_irrefl _)
  · exact heq
  · exact absurd (position_lt hlt hp) (h ▸ lt_irrefl _)

end Reader

/-! ### Reports -/

namespace Grammar

open Peg

/-- A text that no derivation has is reported at the furthest offset at which a rule failed to match. What stands
    before that offset may be continued to a filter, so a character with which no filter can go on is not before it. -/
theorem report_not_past_mistake (s : String) (hs : s.toList ∉ filters) :
    ∃ (p : Nat) (log : List Nat),
      (∀ o log', Runs rules (.rule .filter) 0 s.toList o log' ↔ o = none ∧ log' = log) ∧
      IsGreatest {q | q ∈ log} p ∧
      Filter.parse s = .error (.mismatch (Reader.position s.toList p).1 (Reader.position s.toList p).2) ∧
      (∀ q ≤ s.toList.length, Reader.position s.toList q = Reader.position s.toList p → q = p) ∧
      p ≤ s.toList.length ∧ Viable filters (s.toList.take p) ∧
      ∀ n, ¬Viable filters (s.toList.take (n + 1)) → p ≤ n := by
  cases hfilter : Reader.filter s.toList with
  | ok t => exact absurd (Component.exists_text_of_filter hfilter) hs
  | error p =>
    obtain ⟨log, hrun, rfl⟩ := Reader.runs_filter_of_error hfilter
    have hmem : furthest log ∈ log := by
      cases hrun with
      | rule_fails _ => exact furthest_mem (by simp)
    obtain ⟨hle, hviable⟩ := runs_filter_viable hrun _ hmem
    refine ⟨furthest log, log, fun o log' => ⟨fun h => h.unique hrun, ?_⟩, ⟨hmem, fun q hq => le_furthest hq⟩, ?_,
      fun q hq hpos => Reader.position_inj hq hle hpos, hle, hviable, fun n hn => ?_⟩
    · rintro ⟨rfl, rfl⟩
      exact hrun
    · rw [Filter.parse, hfilter]
    · by_contra hlt
      obtain ⟨between, htake⟩ := List.take_prefix_take_left (l := s.toList) (Nat.lt_of_not_le hlt)
      rw [← htake] at hviable
      exact hn hviable.of_append

/-- The mark of a comparison is missed in the second line, though its first character is there: the mistake is the digit
    behind it, and the report is one character before that. -/
theorem report_not_past_mistake_relation :
    let s := "(|(cn=a\n*)(!(sn>5)))"
    s.toList ∉ filters ∧ Filter.parse s = .error (.mismatch 2 8) ∧ Viable filters (s.toList.take 15) ∧
      ∃ log, Runs rules (.rule .filter) 0 s.toList none log ∧ IsGreatest {q | q ∈ log} 15 := by
  intro s
  have hparse : Filter.parse s = .error (.mismatch 2 8) := error?_eq_some.mp (by decide +kernel)
  have hs : s.toList ∉ filters := by
    rintro ⟨d, hd⟩
    have hread : (Reader.filter s.toList).toOption.isSome = true := by rw [← hd, d.filter_eq]; rfl
    have hrefused : (Reader.filter s.toList).toOption.isSome = false := by decide +kernel
    rw [hread] at hrefused
    cases hrefused
  obtain ⟨p, log, hrun, hgreatest, hreport, hposition, -, hviable, -⟩ := report_not_past_mistake s hs
  rw [hparse, Except.error.injEq, FilterError.mismatch.injEq] at hreport
  have hat : Reader.position s.toList 15 = (2, 8) := by decide +kernel
  have hp : 15 = p := hposition 15 (by decide) (hat.trans (Prod.ext hreport.1 hreport.2))
  subst hp
  exact ⟨hs, hparse, hviable, log, (hrun none log).mpr ⟨rfl, rfl⟩, hgreatest⟩

end Grammar

end DirectorySearch
