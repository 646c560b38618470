import DirectorySearch.Proofs.Canonical
import DirectorySearch.Proofs.Grammar

/-! What a written value stands for, run by run. A value is a row of characters that stand for themselves, with
    runs of escapes between them. A value is gone through octet by octet, and what comes out is read as UTF-8 as a
    whole, but no character that stands for itself shares an octet with what is spelled around it, so every run has
    to be UTF-8 by itself and gives its own part of the text. -/

namespace DirectorySearch.Escape

open Grammar (isHexDigit octet?_isSome)

/-- A backslash and the two digits of an octet. -/
structure Code where
  high : Char
  low : Char
  octet : UInt8
  spelled : octet? high low = some octet

def Code.text (x : Code) : List Char := ['\\', x.high, x.low]

/-- Escapes side by side. -/
def codeText (codes : List Code) : List Char := codes.flatMap Code.text

/-- The octets of escapes side by side are those of a text. -/
def Spell (codes : List Code) (t : List Char) : Prop := Utf8.encode t = codes.map (·.octet)

/-- Every backslash is followed by two hexadecimal digits. -/
def Paired (e : List Char) : Prop :=
  ∀ before after, e = before ++ '\\' :: after →
    ∃ a b r, after = a :: b :: r ∧ isHexDigit a = true ∧ isHexDigit b = true

/-- A place in a text with escapes side by side and no other escape right before or right after them. -/
structure Run (e : List Char) where
  before : List Char
  codes : List Code
  after : List Char
  eq_text : e = before ++ (codeText codes ++ after)
  ne_nil : codes ≠ []
  left : ∀ r (x : Code), before ≠ r ++ x.text
  right : ∀ r (x : Code), after ≠ x.text ++ r

/-- A text and the same text with every run of escapes replaced by what it spells. The escapes before a character
    that stands for itself, or before the end, are a whole run, or none. -/
inductive Replaced : List Char → List Char → Prop where
  | run {codes : List Code} {t : List Char} (h : Spell codes t) : Replaced (codeText codes) t
  | char {codes : List Code} {t e r : List Char} {c : Char} (h : Spell codes t) (hc : c ≠ '\\') (he : Replaced e r) :
      Replaced (codeText codes ++ c :: e) (t ++ c :: r)

/-! ### Octets -/

/-- The octets of a text, escape by escape and character by character. -/
inductive Octets : List Char → List UInt8 → Prop where
  | nil : Octets [] []
  | code {e : List Char} {o : List UInt8} (x : Code) (h : Octets e o) : Octets (x.text ++ e) (x.octet :: o)
  | char {c : Char} {e : List Char} {o : List UInt8} (hc : c ≠ '\\') (h : Octets e o) :
      Octets (c :: e) (Utf8.encodeChar c ++ o)

theorem octets?_eq_some_iff {e : List Char} {o : List UInt8} : octets? e = some o ↔ Octets e o := by
  constructor
  · intro h
    fun_induction octets? e generalizing o with
    | case1 =>
      cases h
      exact .nil
    | case2 a b r ih =>
      obtain ⟨octet, hoctet, h⟩ := Option.bind_eq_some_iff.mp h
      obtain ⟨o, ho, hpure⟩ := Option.bind_eq_some_iff.mp h
      cases hpure
      exact .code ⟨a, b, octet, hoctet⟩ (ih ho)
    | case3 => cases h
    | case4 c r _ hc ih =>
      obtain ⟨o, ho, hpure⟩ := Option.bind_eq_some_iff.mp h
      cases hpure
      exact .char hc (ih ho)
  · intro h
    induction h with
    | nil => rfl
    | @code e o x _ ih =>
      show octets? ('\\' :: x.high :: x.low :: e) = _
      rw [octets?_escape x.spelled, ih, Option.map_some]
    | char hc _ ih => rw [octets?_cons hc, ih, Option.map_some]

theorem Octets.append {s e : List Char} {o p : List UInt8} (hs : Octets s o) (he : Octets e p) :
    Octets (s ++ e) (o ++ p) := by
  induction hs with
  | nil => exact he
  | code x _ ih =>
    rw [List.append_assoc]
    exact .code x ih
  | char hc _ ih =>
    rw [List.append_assoc]
    exact .char hc ih

theorem octets_codeText (codes : List Code) : Octets (codeText codes) (codes.map (·.octet)) := by
  induction codes with
  | nil => exact .nil
  | cons x codes ih => exact .code x ih

theorem Code.digits_ne (x : Code) : x.high ≠ '\\' ∧ x.low ≠ '\\' :=
  ne_backslash_of_octet? (by rw [x.spelled]; rfl)

theorem Code.octet_unique {x y : Code} (hhigh : x.high = y.high) (hlow : x.low = y.low) : x.octet = y.octet := by
  have hx := x.spelled
  rw [hhigh, hlow, y.spelled] at hx
  exact (Option.some.inj hx).symm

theorem Octets.of_code {x : Code} {e : List Char} {o : List UInt8} (h : Octets (x.text ++ e) o) :
    ∃ p, o = x.octet :: p ∧ Octets e p := by
  generalize hs : x.text ++ e = s at h
  cases h with
  | nil => cases hs
  | @code e' o y h =>
    simp only [Code.text, List.cons_append, List.nil_append, List.cons.injEq, true_and] at hs
    obtain ⟨hhigh, hlow, rfl⟩ := hs
    exact ⟨o, by rw [Code.octet_unique hhigh hlow], h⟩
  | char hc _ =>
    cases hs
    exact absurd rfl hc

theorem Octets.of_codeText {codes : List Code} {e : List Char} {o : List UInt8} (h : Octets (codeText codes ++ e) o) :
    ∃ p, o = codes.map (·.octet) ++ p ∧ Octets e p := by
  induction codes generalizing o with
  | nil => exact ⟨o, rfl, h⟩
  | cons x codes ih =>
    rw [codeText, List.flatMap_cons, List.append_assoc] at h
    obtain ⟨p, rfl, hcodes⟩ := h.of_code
    obtain ⟨q, rfl, he⟩ := ih hcodes
    exact ⟨q, rfl, he⟩

/-- An escape is not cut before a backslash, for none of its digits is one. -/
theorem Octets.split {s e : List Char} {o : List UInt8} (h : Octets (s ++ '\\' :: e) o) :
    ∃ p q, o = p ++ q ∧ Octets s p ∧ Octets ('\\' :: e) q := by
  generalize ht : s ++ '\\' :: e = t at h
  induction h generalizing s with
  | nil => simp at ht
  | @code r o x h ih =>
    obtain ⟨hhigh, hlow⟩ := x.digits_ne
    match s, ht with
    | [], ht => exact ⟨[], x.octet :: o, rfl, .nil, by rw [← List.nil_append (_ :: e), ht]; exact .code x h⟩
    | [_], ht =>
      simp only [Code.text, List.cons_append, List.nil_append, List.cons.injEq] at ht
      exact absurd ht.2.1.symm hhigh
    | [_, _], ht =>
      simp only [Code.text, List.cons_append, List.nil_append, List.cons.injEq] at ht
      exact absurd ht.2.2.1.symm hlow
    | _ :: _ :: _ :: s, ht =>
      simp only [Code.text, List.cons_append, List.nil_append, List.cons.injEq] at ht
      obtain ⟨rfl, rfl, rfl, ht⟩ := ht
      obtain ⟨p, q, rfl, hp, hq⟩ := ih ht
      exact ⟨x.octet :: p, q, rfl, .code x hp, hq⟩
  | @char c r o hc h ih =>
    cases s with
    | nil => exact absurd (List.cons.inj ht).1.symm hc
    | cons d s =>
      obtain ⟨rfl, hrest⟩ := List.cons.inj ht
      obtain ⟨p, q, rfl, hp, hq⟩ := ih hrest
      exact ⟨Utf8.encodeChar d ++ p, q, (List.append_assoc ..).symm, .char hc hp, hq⟩

/-- A text that does not end with an escape is empty or ends with a character of its own. -/
theorem Octets.last {s : List Char} {o : List UInt8} (h : Octets s o) (hlast : ∀ r (x : Code), s ≠ r ++ x.text) :
    (s = [] ∧ o = []) ∨ ∃ c p, o = p ++ Utf8.encodeChar c := by
  induction h with
  | nil => exact .inl ⟨rfl, rfl⟩
  | @code e o x h ih =>
    rcases ih fun r y he => hlast (x.text ++ r) y (by rw [he, List.append_assoc]) with ⟨rfl, -⟩ | ⟨c, p, rfl⟩
    · exact absurd (List.append_nil _) (hlast [] x)
    · exact .inr ⟨c, x.octet :: p, rfl⟩
  | @char c e o hc h ih =>
    rcases ih fun r y he => hlast (c :: r) y (by rw [he, List.cons_append]) with ⟨-, rfl⟩ | ⟨d, p, rfl⟩
    · exact .inr ⟨c, [], List.append_nil _⟩
    · exact .inr ⟨d, Utf8.encodeChar c ++ p, (List.append_assoc ..).symm⟩

/-- A text that does not begin with an escape is empty or begins with a character of its own. -/
theorem Octets.first {s : List Char} {o : List UInt8} (h : Octets s o) (hfirst : ∀ r (x : Code), s ≠ x.text ++ r) :
    o = [] ∨ ∃ c p, o = Utf8.encodeChar c ++ p := by
  cases h with
  | nil => exact .inl rfl
  | code x _ => exact absurd rfl (hfirst _ x)
  | @char c _ o => exact .inr ⟨c, o, rfl⟩

/-! ### Pairs -/

theorem Octets.paired {e : List Char} {o : List UInt8} (h : Octets e o) : Paired e := by
  rintro before after rfl
  obtain ⟨-, q, -, -, hq⟩ := h.split
  generalize hs : '\\' :: after = s at hq
  cases hq with
  | nil => cases hs
  | code x _ =>
    obtain ⟨ha, hb⟩ := octet?_isSome.mp (show (octet? x.high x.low).isSome = true by rw [x.spelled]; rfl)
    exact ⟨x.high, x.low, _, (List.cons.inj hs).2, ha, hb⟩
  | char hc _ => exact absurd (List.cons.inj hs).1.symm hc

theorem Paired.of_append {s e : List Char} (h : Paired (s ++ e)) : Paired e := by
  rintro before after rfl
  exact h (s ++ before) after (List.append_assoc ..).symm

theorem Paired.octets {e : List Char} (h : Paired e) : ∃ o, Octets e o := by
  fun_induction octets? e with
  | case1 => exact ⟨[], .nil⟩
  | case2 a b r ih =>
    obtain ⟨_, _, _, heq, ha, hb⟩ := h [] _ rfl
    cases heq
    obtain ⟨octet, hoctet⟩ := Option.isSome_iff_exists.mp (octet?_isSome.mpr ⟨ha, hb⟩)
    obtain ⟨o, ho⟩ := ih (h.of_append (s := ['\\', a, b]))
    exact ⟨octet :: o, .code ⟨a, b, octet, hoctet⟩ ho⟩
  | case3 r hr =>
    obtain ⟨a, b, r, rfl, -⟩ := h [] _ rfl
    exact absurd rfl (hr a b r)
  | case4 c r _ hc ih =>
    obtain ⟨o, ho⟩ := ih (h.of_append (s := [c]))
    exact ⟨_, .char hc ho⟩

/-! ### Runs -/

/-- What stands around a run is told apart from its octets. -/
theorem Run.exists_spell {e : List Char} {o : List UInt8} {t : List Char} (run : Run e) (ho : Octets e o)
    (ht : Utf8.encode t = o) : ∃ t', Spell run.codes t' := by
  obtain ⟨before, codes, after, rfl, hne, hleft, hright⟩ := run
  obtain ⟨p, q, rfl, hbefore, hq⟩ : ∃ p q, o = p ++ q ∧ Octets before p ∧ Octets (codeText codes ++ after) q := by
    obtain ⟨x, codes, rfl⟩ := List.exists_cons_of_ne_nil hne
    exact ho.split
  obtain ⟨a, rfl, hafter⟩ := hq.of_codeText
  obtain ⟨u, hu⟩ : ∃ u, Utf8.encode u = codes.map (·.octet) ++ a := by
    rcases hbefore.last hleft with ⟨-, rfl⟩ | ⟨c, p, rfl⟩
    · exact ⟨t, ht⟩
    · rw [List.append_assoc] at ht
      obtain ⟨-, u, -, -, hu⟩ := Utf8.encode_eq_append_iff.mp ht
      exact ⟨u, hu⟩
  rcases hafter.first hright with rfl | ⟨c, a, rfl⟩
  · exact ⟨u, by rw [List.append_nil] at hu; exact hu⟩
  · obtain ⟨u, -, -, hu, -⟩ := Utf8.encode_eq_append_iff.mp hu
    exact ⟨u, hu⟩

theorem Octets.replaced {e : List Char} {o : List UInt8} (h : Octets e o) {codes : List Code} {r : List Char}
    (hr : Utf8.encode r = codes.map (·.octet) ++ o) : Replaced (codeText codes ++ e) r := by
  induction h generalizing codes r with
  | nil =>
    rw [List.append_nil] at hr ⊢
    exact .run hr
  | @code e o x h ih =>
    have hcodes : codeText codes ++ (x.text ++ e) = codeText (codes ++ [x]) ++ e := by simp [codeText]
    rw [hcodes]
    exact ih (by simpa using hr)
  | @char c e o hc h ih =>
    obtain ⟨t, r, rfl, ht, hr⟩ := Utf8.encode_eq_append_iff.mp hr
    have hrest : Replaced (codeText [] ++ e) r := ih hr
    exact .char ht hc hrest

theorem Replaced.octets {e r : List Char} (h : Replaced e r) : Octets e (Utf8.encode r) := by
  induction h with
  | @run codes t h =>
    rw [h]
    exact octets_codeText codes
  | @char codes t e r c h hc _ ih =>
    rw [Utf8.encode_append, Utf8.encode_cons, h]
    exact (octets_codeText codes).append (.char hc ih)

theorem exists_spell_of_runs {before after : List Char} {codes : List Code}
    (hleft : ∀ r (x : Code), before ≠ r ++ x.text) (hright : ∀ r (x : Code), after ≠ x.text ++ r)
    (hruns : ∀ run : Run (before ++ (codeText codes ++ after)), ∃ t, Spell run.codes t) : ∃ t, Spell codes t := by
  by_cases hne : codes = []
  · subst hne
    exact ⟨[], rfl⟩
  · exact hruns ⟨before, codes, after, rfl, hne, hleft, hright⟩

/-- Where every run spells a text, the runs can be replaced. The induction leaves `before` behind, which ends with
    a character of its own, and has `codes` in hand, the escapes since then. -/
theorem Octets.exists_replaced {e : List Char} {o : List UInt8} (h : Octets e o) {before : List Char}
    {p : List UInt8} {codes : List Code} (hbefore : Octets before p) (hleft : ∀ r (x : Code), before ≠ r ++ x.text)
    (hruns : ∀ run : Run (before ++ (codeText codes ++ e)), ∃ t, Spell run.codes t) :
    ∃ r, Replaced (codeText codes ++ e) r := by
  induction h generalizing before p codes with
  | nil =>
    obtain ⟨t, ht⟩ := exists_spell_of_runs hleft (fun r x h => by cases h) hruns
    exact ⟨t, by rw [List.append_nil]; exact .run ht⟩
  | @code e o x h ih =>
    have hcodes : codeText codes ++ (x.text ++ e) = codeText (codes ++ [x]) ++ e := by simp [codeText]
    rw [hcodes] at hruns ⊢
    exact ih hbefore hleft hruns
  | @char c e o hc h ih =>
    have hright : ∀ r (x : Code), c :: e ≠ x.text ++ r := fun r x h => hc (List.cons.inj h).1
    obtain ⟨t, ht⟩ := exists_spell_of_runs hleft hright hruns
    -- An escape at the end of what is left behind now would take `c` as its second digit.
    have hleft' : ∀ r (x : Code), before ++ codeText codes ++ [c] ≠ r ++ x.text := by
      intro r x heq
      have hcut : r ++ x.text = r ++ ['\\', x.high] ++ [x.low] := by simp [Code.text]
      rw [hcut] at heq
      have hopen := hbefore.append (octets_codeText codes)
      rw [(List.append_inj' heq rfl).1] at hopen
      obtain ⟨a, b, _, heq, -⟩ := hopen.paired r [x.high] rfl
      cases heq
    have hwhole : before ++ (codeText codes ++ c :: e) = before ++ codeText codes ++ [c] ++ (codeText [] ++ e) := by
      simp [codeText]
    rw [hwhole] at hruns
    have hclosed := (hbefore.append (octets_codeText codes)).append (.char hc .nil)
    obtain ⟨r, hr⟩ := ih hclosed hleft' hruns
    exact ⟨t ++ c :: r, .char ht hc hr⟩

/-! ### Decoding -/

theorem unescapeChars?_eq_some_iff {e r : List Char} : unescapeChars? e = some r ↔ Replaced e r := by
  simp only [unescapeChars?_eq, Option.bind_eq_some_iff, octets?_eq_some_iff, Utf8.decode?_eq_some_iff]
  constructor
  · rintro ⟨o, ho, hr⟩
    have hreplaced : Replaced (codeText [] ++ e) r := ho.replaced hr
    exact hreplaced
  · intro h
    exact ⟨_, h.octets, rfl⟩

/-- A text can be unescaped exactly when its backslashes are paired and its runs spell texts. -/
theorem exists_replaced_iff {e : List Char} :
    (∃ r, Replaced e r) ↔ Paired e ∧ ∀ run : Run e, ∃ t, Spell run.codes t := by
  constructor
  · rintro ⟨r, hr⟩
    exact ⟨hr.octets.paired, fun run => run.exists_spell hr.octets rfl⟩
  · rintro ⟨hpaired, hruns⟩
    obtain ⟨o, ho⟩ := hpaired.octets
    have hreplaced : ∃ r, Replaced (codeText [] ++ e) r :=
      ho.exists_replaced .nil (fun r x h => by simp [Code.text] at h) hruns
    exact hreplaced

theorem decode_eq_ok_iff {e : List Char} {r : String} : Reader.decode e = .ok r ↔ Replaced e r.toList := by
  rw [← unescapeChars?_eq_some_iff]
  constructor
  · exact Reader.decode_eq_ok
  · intro h
    rw [Reader.decode, h]
    simp

theorem decode_eq_error_iff {e : List Char} {error : FilterError} :
    Reader.decode e = .error error ↔ error = .invalidEscape (.ofList e) ∧ ¬∃ r, Replaced e r := by
  simp only [← unescapeChars?_eq_some_iff]
  cases h : unescapeChars? e with
  | none => simp [Reader.decode, h, eq_comm]
  | some r => simp [Reader.decode, h]

/-- A text is unescaped exactly when every backslash is followed by two hexadecimal digits and every run of escapes
    spells a text by itself; what comes out has each run replaced by the text it spells. Any other text is refused
    and given back as it is. -/
theorem unescaped_run_by_run (e : String) :
    ((∃ r, Reader.decode e.toList = .ok r) ↔
        Paired e.toList ∧ ∀ run : Run e.toList, ∃ t, Spell run.codes t) ∧
      (∀ r, Reader.decode e.toList = .ok r ↔ Replaced e.toList r.toList) ∧
      (∀ error, Reader.decode e.toList = .error error ↔
        error = .invalidEscape e ∧ ¬(Paired e.toList ∧ ∀ run : Run e.toList, ∃ t, Spell run.codes t)) ∧
      unescape? e = (Reader.decode e.toList).toOption := by
  have hexists : (∃ r, Reader.decode e.toList = .ok r) ↔ ∃ r, Replaced e.toList r := by
    simp only [decode_eq_ok_iff]
    constructor
    · rintro ⟨r, hr⟩
      exact ⟨r.toList, hr⟩
    · rintro ⟨r, hr⟩
      exact ⟨.ofList r, by rwa [String.toList_ofList]⟩
  refine ⟨hexists.trans exists_replaced_iff, fun r => decode_eq_ok_iff, fun error => ?_, ?_⟩
  · rw [decode_eq_error_iff, exists_replaced_iff, String.ofList_toList]
  · rw [unescape?, Reader.decode]
    cases unescapeChars? e.toList <;> rfl

/-! ### Escaping -/

open Token (isPlain Word)

theorem isPlain_of_isHexDigit {c : Char} (h : isHexDigit c = true) : isPlain c = true := by
  by_contra hc
  simp only [isPlain, Bool.not_eq_true, Bool.and_eq_false_iff, bne_eq_false_iff_eq] at hc
  rcases hc with (((rfl | rfl) | rfl) | rfl) | rfl <;> exact absurd h (by decide)

/-- The digits of an escape are plain, so a backslash is all that a word has beside plain characters. -/
theorem isPlain_of_mem_word {w : List Char} (hw : Word w) : ∀ c ∈ w, isPlain c = true ∨ c = '\\' := by
  induction hw with
  | nil => simp
  | plain hc _ ih => exact List.forall_mem_cons.mpr ⟨.inl hc, ih⟩
  | escape ho _ ih =>
    obtain ⟨ha, hb⟩ := octet?_isSome.mp ho
    refine List.forall_mem_cons.mpr ⟨.inr rfl, List.forall_mem_cons.mpr ⟨.inl (isPlain_of_isHexDigit ha), ?_⟩⟩
    exact List.forall_mem_cons.mpr ⟨.inl (isPlain_of_isHexDigit hb), ih⟩

/-- No character of a word ends a value, and none is a wildcard. -/
theorem special_not_mem_word {w : List Char} (hw : Word w) {c : Char} (hc : c ∈ ['*', '(', ')', '\x00']) : c ∉ w := by
  intro hmem
  rcases isPlain_of_mem_word hw c hmem with hplain | rfl
  · simp only [List.mem_cons, List.not_mem_nil, or_false] at hc
    rcases hc with rfl | rfl | rfl | rfl <;> cases hplain
  · exact absurd hc (by decide)

/-- A word is taken whole where a star or the end of its component follows. -/
theorem value_word_stop {w : List Char} (hw : Word w) {stop : Char} (hstop : stop ∈ [')', '*']) (rest : List Char) :
    Token.value (w ++ stop :: rest) = (w, stop :: rest) := by
  simp only [List.mem_cons, List.not_mem_nil, or_false] at hstop
  rcases hstop with rfl | rfl
  · exact Token.value_word_close hw rest
  · exact Token.value_word_star hw rest

/-- Escaping leaves none of the characters that a filter gives a meaning to, but for the backslashes of the five
    escapes that are written. What it gives is empty or a value of the grammar, which a reader takes whole, and
    unescaping it gives the text back. -/
theorem escape_is_safe_and_reversible (raw : String) :
    (∀ c ∈ ['*', '(', ')', '\x00'], c ∉ (escape raw).toList) ∧
      Canonical (escape raw).toList ∧
      (escape raw = "" ∨ ∃ v : Grammar.Value, v.text = (escape raw).toList) ∧
      (∀ stop ∈ [')', '*'], ∀ rest,
        Token.value ((escape raw).toList ++ stop :: rest) = ((escape raw).toList, stop :: rest)) ∧
      unescape? (escape raw) = some raw ∧ Reader.decode (escape raw).toList = .ok raw := by
  have htext : (escape raw).toList = escapeChars raw.toList := by rw [escape, String.toList_ofList]
  have hword : Word (escape raw).toList := htext ▸ Token.word_escapeChars raw.toList
  have hback : unescapeChars? (escape raw).toList = some raw.toList := by rw [htext, unescapeChars?_escapeChars]
  refine ⟨fun c hc => special_not_mem_word hword hc, htext ▸ canonical_escapeChars raw.toList, ?_,
    fun stop hstop rest => value_word_stop hword hstop rest, ?_, ?_⟩
  · obtain ⟨v, hv⟩ := Grammar.exists_valueText hword
    cases v with
    | none => exact .inl (String.toList_eq_nil_iff.mp hv.symm)
    | some v => exact .inr ⟨v, hv⟩
  · rw [unescape?, hback, Option.map_some, String.ofList_toList]
  · rw [htext, Item.decode_escapeChars]

/-- A text that looks escaped already, and a star behind it. -/
theorem escape_is_safe_and_reversible_twice :
    escape "(\\2a*" = "\\28\\5c2a\\2a" ∧ '*' ∉ (escape "(\\2a*").toList ∧
      Token.value ((escape "(\\2a*").toList ++ ['*', 'x']) = ((escape "(\\2a*").toList, ['*', 'x']) ∧
      unescape? (escape "(\\2a*") = some "(\\2a*" := by
  obtain ⟨hspecial, -, -, hvalue, hback, -⟩ := escape_is_safe_and_reversible "(\\2a*"
  exact ⟨by decide, hspecial '*' (by decide), hvalue '*' (by decide) ['x'], hback⟩

end DirectorySearch.Escape
