import Mathlib.Data.Bool.AllAny
import DirectorySearch.Proofs.Except
import DirectorySearch.Proofs.Reading
import DirectorySearch.Proofs.RoundTrip

/-! Rendering what was read. A filter that comes from a text has no empty piece, so it is read back from its
    own text; that text is the one it came from exactly when the escapes there are those that are written. -/

namespace DirectorySearch

open Token

namespace Escape

/-! ### Escapes as they are written -/

/-- The digits of the five escapes that are written. -/
def writtenDigits : List (List Char) :=
  [['2', 'a'], ['2', '8'], ['2', '9'], ['5', 'c'], ['0', '0']]

/-- Every backslash begins an escape that is written. -/
def Canonical (s : List Char) : Prop :=
  ∀ before after, s = before ++ '\\' :: after → ∃ digits ∈ writtenDigits, digits <+: after

theorem canonical_nil : Canonical [] := by
  intro before after h
  simp at h

theorem canonical_cons {c : Char} (hc : c ≠ '\\') (s : List Char) : Canonical (c :: s) ↔ Canonical s := by
  constructor
  · intro h before after hs
    exact h (c :: before) after (by rw [hs, List.cons_append])
  · intro h before after hs
    cases before with
    | nil => exact absurd (List.cons.inj hs).1 hc
    | cons d before => exact h before after (List.cons.inj hs).2

theorem canonical_escape {a b : Char} (ha : a ≠ '\\') (hb : b ≠ '\\') (s : List Char) :
    Canonical ('\\' :: a :: b :: s) ↔ [a, b] ∈ writtenDigits ∧ Canonical s := by
  have htwo : ∀ digits ∈ writtenDigits, ∃ d e, digits = [d, e] := by simp [writtenDigits]
  constructor
  · intro h
    constructor
    · obtain ⟨digits, hmem, hprefix⟩ := h [] (a :: b :: s) rfl
      obtain ⟨d, e, rfl⟩ := htwo digits hmem
      obtain ⟨hd, htail⟩ := List.cons_prefix_cons.mp hprefix
      obtain ⟨he, -⟩ := List.cons_prefix_cons.mp htail
      rwa [← hd, ← he]
    · intro before after hs
      exact h ('\\' :: a :: b :: before) after (by simp [hs])
  · rintro ⟨hmem, h⟩ before after hs
    cases before with
    | nil =>
      obtain ⟨-, rfl⟩ := List.cons.inj hs
      exact ⟨[a, b], hmem, s, rfl⟩
    | cons c before =>
      -- A later backslash is none of the two digits.
      obtain ⟨-, hs⟩ := List.cons.inj hs
      rw [← canonical_cons hb, ← canonical_cons ha] at h
      exact h before after hs

theorem canonical_append {s : List Char} (hs : ∀ c ∈ s, c ≠ '\\') (rest : List Char) :
    Canonical (s ++ rest) ↔ Canonical rest := by
  induction s with
  | nil => exact Iff.rfl
  | cons c s ih =>
    obtain ⟨hc, hs⟩ := List.forall_mem_cons.mp hs
    rw [List.cons_append, canonical_cons hc, ih hs]

theorem ne_backslash_of_octet? {a b : Char} (h : (octet? a b).isSome = true) : a ≠ '\\' ∧ b ≠ '\\' := by
  have hnone : Hex.value? '\\' = none := by decide
  constructor
  · rintro rfl
    simp [octet?, hnone] at h
  · rintro rfl
    simp [octet?, hnone] at h

theorem canonical_word_append {w : List Char} (hw : Word w) (rest : List Char) :
    Canonical (w ++ rest) ↔ Canonical w ∧ Canonical rest := by
  induction hw with
  | nil => simp [canonical_nil]
  | plain hc _ ih =>
    have hb := ne_backslash_of_plain hc
    rw [List.cons_append, canonical_cons hb, canonical_cons hb, ih]
  | escape ho _ ih =>
    obtain ⟨ha, hb⟩ := ne_backslash_of_octet? ho
    simp only [List.cons_append, canonical_escape ha hb, ih, and_assoc]

theorem canonical_escapeChars (s : List Char) : Canonical (escapeChars s) := by
  induction s with
  | nil => exact canonical_nil
  | cons c s ih =>
    rw [escapeChars, List.flatMap_cons, canonical_word_append (word_escapeChar c)]
    refine ⟨?_, ih⟩
    cases hc : isPlain c with
    | true =>
      rw [escapeChar_of_plain hc, canonical_cons (ne_backslash_of_plain hc)]
      exact canonical_nil
    | false =>
      simp only [isPlain, Bool.and_eq_false_iff, bne_eq_false_iff_eq] at hc
      rcases hc with (((rfl | rfl) | rfl) | rfl) | rfl <;>
        exact (canonical_escape (by decide) (by decide) []).mpr ⟨by decide, canonical_nil⟩

/-- A word with written escapes only is the written form of some text. -/
theorem exists_escapeChars {w : List Char} (hw : Word w) (h : Canonical w) : ∃ s, escapeChars s = w := by
  induction hw with
  | nil => exact ⟨[], rfl⟩
  | @plain c r hc _ ih =>
    obtain ⟨s, rfl⟩ := ih ((canonical_cons (ne_backslash_of_plain hc) _).mp h)
    exact ⟨c :: s, by rw [escapeChars, List.flatMap_cons, escapeChar_of_plain hc]; rfl⟩
  | escape ho _ ih =>
    obtain ⟨ha, hb⟩ := ne_backslash_of_octet? ho
    obtain ⟨hmem, h⟩ := (canonical_escape ha hb _).mp h
    obtain ⟨s, rfl⟩ := ih h
    simp only [writtenDigits, List.mem_cons, List.cons.injEq, and_true, List.not_mem_nil, or_false] at hmem
    rcases hmem with ⟨rfl, rfl⟩ | ⟨rfl, rfl⟩ | ⟨rfl, rfl⟩ | ⟨rfl, rfl⟩ | ⟨rfl, rfl⟩
    · exact ⟨'*' :: s, rfl⟩
    · exact ⟨'(' :: s, rfl⟩
    · exact ⟨')' :: s, rfl⟩
    · exact ⟨'\\' :: s, rfl⟩
    · exact ⟨'\x00' :: s, rfl⟩

theorem canonical_iff {w s : List Char} (hw : Word w) (h : unescapeChars? w = some s) :
    Canonical w ↔ escapeChars s = w := by
  constructor
  · intro hcanonical
    obtain ⟨u, rfl⟩ := exists_escapeChars hw hcanonical
    rw [unescapeChars?_escapeChars] at h
    rw [Option.some.inj h]
  · rintro rfl
    exact canonical_escapeChars s

end Escape

/-! ### Decoding -/

namespace Utf8

theorem encodeChar_ne_nil (c : Char) : encodeChar c ≠ [] := by
  intro h
  have hdecode := decode?_encodeChar_append c []
  rw [h] at hdecode
  cases hdecode

theorem decode?_eq_some_nil {bytes : List UInt8} (h : decode? bytes = some []) : bytes = [] := by
  unfold decode? at h
  split at h
  · rfl
  · simp only [Option.bind_eq_bind, Option.pure_def] at h
    repeat' split at h
    all_goals simp [Option.bind_eq_some_iff] at h

end Utf8

namespace Escape

theorem octets?_eq_some_nil {w : List Char} (h : octets? w = some []) : w = [] := by
  unfold octets? at h
  split at h
  · rfl
  · simp [Option.bind_eq_some_iff] at h
  · cases h
  · simp [Option.bind_eq_some_iff, Utf8.encodeChar_ne_nil] at h

/-- Only the empty word stands for the empty text. -/
theorem unescapeChars?_eq_some_nil {w : List Char} (h : unescapeChars? w = some []) : w = [] := by
  rw [unescapeChars?_eq] at h
  obtain ⟨bytes, hbytes, hdecode⟩ := Option.bind_eq_some_iff.mp h
  obtain rfl := Utf8.decode?_eq_some_nil hdecode
  exact octets?_eq_some_nil hbytes

end Escape

namespace Reader

open Escape (Canonical canonical_cons canonical_word_append)

theorem decode_eq_ok {w : List Char} {v : String} (h : decode w = .ok v) : Escape.unescapeChars? w = some v.toList := by
  unfold decode at h
  split at h
  · next text htext =>
    cases h
    rw [htext, String.toList_ofList]
  · cases h

theorem ne_empty_of_decode {w : List Char} {v : String} (hw : Piece w) (h : decode w = .ok v) : v ≠ "" := by
  rintro rfl
  exact hw.2 (Escape.unescapeChars?_eq_some_nil (decode_eq_ok h))

theorem canonical_iff_of_decode {w : List Char} {v : String} (hw : Word w) (h : decode w = .ok v) :
    Canonical w ↔ Escape.escapeChars v.toList = w :=
  Escape.canonical_iff hw (decode_eq_ok h)

/-- What decoding makes of a piece that may be left out. -/
theorem decode_option {w : Option (List Char)} {v : Option String} (hw : ∀ p ∈ w, Piece p)
    (h : w.mapM decode = .ok v) : v.isSome = w.isSome ∧ (∀ p ∈ v, p ≠ "") ∧
      ((∀ p ∈ w, Canonical p) ↔ (v.map fun p => Escape.escapeChars p.toList) = w) := by
  cases w with
  | none =>
    cases pure_eq_ok.mp h
    simp
  | some w =>
    simp only [Option.mapM_some, Functor.map, Except.map] at h
    split at h
    · cases h
    · next text htext =>
      cases h
      obtain ⟨hword, hne⟩ := hw w rfl
      refine ⟨rfl, ?_, ?_⟩
      · rintro p ⟨⟩
        exact ne_empty_of_decode ⟨hword, hne⟩ htext
      · simpa using canonical_iff_of_decode hword htext

/-- What decoding makes of pieces. -/
theorem decode_list {ws : List (List Char)} {vs : List String} (hw : ∀ p ∈ ws, Piece p)
    (h : ws.mapM decode = .ok vs) : vs.length = ws.length ∧ (∀ p ∈ vs, p ≠ "") ∧
      ((∀ p ∈ ws, Canonical p) ↔ (vs.map fun p => Escape.escapeChars p.toList) = ws) := by
  induction ws generalizing vs with
  | nil =>
    cases pure_eq_ok.mp h
    simp
  | cons w ws ih =>
    simp only [List.mapM_cons, bind_eq_ok, pure_eq_ok] at h
    obtain ⟨text, htext, texts, htexts, rfl⟩ := h
    obtain ⟨hpiece, hpieces⟩ := List.forall_mem_cons.mp hw
    obtain ⟨hlength, hne, hcanonical⟩ := ih hpieces htexts
    refine ⟨by simp [hlength], List.forall_mem_cons.mpr ⟨ne_empty_of_decode hpiece htext, hne⟩, ?_⟩
    rw [List.forall_mem_cons, canonical_iff_of_decode hpiece.1 htext, hcanonical, List.map_cons, List.cons.injEq]

end Reader

/-! ### Items -/

namespace RawItem

open Escape

/-- The words of an item, from left to right. -/
def words : RawItem → List (List Char)
  | .compare _ _ word => [word]
  | .present _ => []
  | .substrings _ initial any final => initial.toList ++ any ++ final.toList

/-- The words of an item have written escapes only. -/
def Canonical (i : RawItem) : Prop := ∀ w ∈ i.words, Escape.Canonical w

theorem canonical_getD {w : Option (List Char)} (hw : ∀ p ∈ w, Piece p) (rest : List Char) :
    Escape.Canonical (w.getD [] ++ rest) ↔ (∀ p ∈ w, Escape.Canonical p) ∧ Escape.Canonical rest := by
  cases w with
  | none => simp
  | some w => simpa using canonical_word_append (hw w rfl).1 rest

theorem canonical_tail {any : List (List Char)} {final : Option (List Char)} (hany : ∀ w ∈ any, Piece w)
    (hfinal : ∀ w ∈ final, Piece w) (rest : List Char) :
    Escape.Canonical (tail any final ++ rest) ↔
      (∀ w ∈ any, Escape.Canonical w) ∧ (∀ w ∈ final, Escape.Canonical w) ∧ Escape.Canonical rest := by
  induction any with
  | nil => simpa [tail] using canonical_getD hfinal rest
  | cons w any ih =>
    obtain ⟨hw, hany⟩ := List.forall_mem_cons.mp hany
    have htail : tail (w :: any) final ++ rest = w ++ '*' :: (tail any final ++ rest) := by simp [tail]
    rw [htail, canonical_word_append hw.1, canonical_cons (by decide), ih hany, List.forall_mem_cons, and_assoc]

/-- Outside the words of an item stands no backslash. -/
theorem canonical_text {i : RawItem} (h : i.Readable) (rest : List Char) :
    Escape.Canonical (i.text ++ rest) ↔ i.Canonical ∧ Escape.Canonical rest := by
  obtain ⟨ha, hw⟩ := h
  have hattr : ∀ c ∈ i.attr.toList, c ≠ '\\' := by
    rintro c hc rfl
    exact absurd (ha.chars _ hc) (by decide)
  rw [text, List.append_assoc, canonical_append hattr]
  cases i with
  | compare relation attr word =>
    have hsymbol : ∀ c ∈ relation.symbol, c ≠ '\\' := by
      cases relation <;> exact List.all_iff_forall_prop.mp (by decide)
    rw [claim, List.append_assoc, canonical_append hsymbol, canonical_word_append hw]
    simp [Canonical, words]
  | present attr => simp [claim, canonical_cons, Canonical, words]
  | substrings attr initial any final =>
    obtain ⟨hinitial, hany, hfinal, -⟩ := hw
    simp only [claim, List.cons_append, List.append_assoc]
    rw [canonical_cons (by decide), canonical_getD hinitial, canonical_cons (by decide), canonical_tail hany hfinal]
    simp only [Canonical, words, List.append_assoc, List.forall_mem_append, Option.mem_toList, Option.mem_def, and_assoc]

/-- An item that was read is decoded to one that is read back, and it has written escapes only exactly when it is
    the written form of that one. -/
theorem decoded {i : RawItem} (h : i.Readable) {f : Filter} (hf : i.toFilter.traverse Reader.decode = .ok f) :
    ∃ j : Item String, f = j.toFilter ∧ j.Described ∧ j.Normal ∧ (i.Canonical ↔ j.escaped = i) := by
  obtain ⟨ha, hw⟩ := h
  cases i with
  | compare relation attr word =>
    simp only [Item.toFilter, FilterTree.traverse, bind_eq_ok, pure_eq_ok] at hf
    obtain ⟨value, hvalue, rfl⟩ := hf
    refine ⟨.compare relation attr value, rfl, ha, trivial, ?_⟩
    simpa [Canonical, words, Item.escaped] using Reader.canonical_iff_of_decode hw hvalue
  | present attr =>
    simp only [Item.toFilter, FilterTree.traverse, pure_eq_ok] at hf
    obtain rfl := hf
    exact ⟨.present attr, rfl, ha, trivial, by simp [Canonical, words, Item.escaped]⟩
  | substrings attr initial any final =>
    simp only [Item.toFilter, FilterTree.traverse, bind_eq_ok, pure_eq_ok] at hf
    obtain ⟨initial', hinitial', any', hany', final', hfinal', rfl⟩ := hf
    obtain ⟨hinitial, hany, hfinal, hsome⟩ := hw
    obtain ⟨hi1, hi2, hi3⟩ := Reader.decode_option hinitial hinitial'
    obtain ⟨hn1, hn2, hn3⟩ := Reader.decode_list hany hany'
    obtain ⟨hf1, hf2, hf3⟩ := Reader.decode_option hfinal hfinal'
    have hempty : any' = [] ↔ any = [] := by
      rw [← List.length_eq_zero_iff, hn1, List.length_eq_zero_iff]
    refine ⟨.substrings attr initial' any' final', rfl, ha, ⟨hi2, hn2, hf2, ?_⟩, ?_⟩
    · rwa [hi1, hf1, ne_eq, hempty]
    · simp only [Canonical, words, List.append_assoc, List.forall_mem_append, Option.mem_toList, Item.escaped,
        Item.substrings.injEq, true_and]
      exact and_congr hi3 (and_congr hn3 hf3)

end RawItem

/-! ### Whole filters -/

namespace RawFilter

open Escape (canonical_cons)

theorem canonical_item {i : RawItem} (h : i.Readable) (rest : List Char) :
    Escape.Canonical (text i.toFilter ++ rest) ↔ i.toFilter.WellFormed RawItem.Canonical ∧ Escape.Canonical rest := by
  rw [text_toFilter, FilterTree.wellFormed_toFilter]
  simp only [List.cons_append, List.append_assoc, List.nil_append, canonical_cons (c := '(') (by decide),
    RawItem.canonical_text h, canonical_cons (c := ')') (by decide)]

mutual

/-- A text has written escapes only exactly when all its items do. -/
theorem canonical_text : ∀ {t : RawFilter} (rest : List Char), t.WellFormed RawItem.Readable →
    (Escape.Canonical (text t ++ rest) ↔ t.WellFormed RawItem.Canonical ∧ Escape.Canonical rest)
  | .and parts, rest, ⟨hne, hparts⟩ => by
    simp only [text, List.cons_append, List.append_assoc, List.nil_append, canonical_cons (c := '(') (by decide),
      canonical_cons (c := '&') (by decide), canonical_allText _ hparts, canonical_cons (c := ')') (by decide),
      FilterTree.WellFormed, ne_eq, hne, not_false_eq_true, true_and]
  | .or parts, rest, ⟨hne, hparts⟩ => by
    simp only [text, List.cons_append, List.append_assoc, List.nil_append, canonical_cons (c := '(') (by decide),
      canonical_cons (c := '|') (by decide), canonical_allText _ hparts, canonical_cons (c := ')') (by decide),
      FilterTree.WellFormed, ne_eq, hne, not_false_eq_true, true_and]
  | .not part, rest, hpart => by
    have hpart : part.WellFormed RawItem.Readable := hpart
    simp only [text, List.cons_append, List.append_assoc, List.nil_append, canonical_cons (c := '(') (by decide),
      canonical_cons (c := '!') (by decide), canonical_text _ hpart, canonical_cons (c := ')') (by decide),
      FilterTree.WellFormed]
  | .compare .., rest, h => canonical_item (i := .compare ..) h rest
  | .present _, rest, h => canonical_item (i := .present _) h rest
  | .substrings .., rest, h => canonical_item (i := .substrings ..) h rest

theorem canonical_allText : ∀ {parts : List RawFilter} (rest : List Char),
    FilterTree.AllWellFormed RawItem.Readable parts →
      (Escape.Canonical (allText parts ++ rest) ↔
        FilterTree.AllWellFormed RawItem.Canonical parts ∧ Escape.Canonical rest)
  | [], rest, _ => by simp [allText, FilterTree.AllWellFormed]
  | part :: parts, rest, ⟨hpart, hparts⟩ => by
    rw [allText, List.append_assoc, canonical_text _ hpart, canonical_allText _ hparts, FilterTree.AllWellFormed, and_assoc]

end

theorem decoded_item {i : RawItem} {f : Filter} (h : i.Readable) (hf : i.toFilter.traverse Reader.decode = .ok f) :
    (f.WellFormed fun i => i.Described ∧ i.Normal) ∧
      (i.toFilter.WellFormed RawItem.Canonical ↔ Filter.escaped f = i.toFilter) := by
  obtain ⟨j, rfl, hdescribed, hnormal, hcanonical⟩ := RawItem.decoded h hf
  refine ⟨(FilterTree.wellFormed_toFilter _ _).mpr ⟨hdescribed, hnormal⟩, ?_⟩
  rw [FilterTree.wellFormed_toFilter, hcanonical, Filter.escaped, FilterTree.mapItems_toFilter, Item.toFilter_inj]

mutual

/-- A filter that was read is decoded to one that is read back, and its text has written escapes only exactly when
    it is the written form of that one. -/
theorem decoded : ∀ {t : RawFilter} {f : Filter}, t.WellFormed RawItem.Readable → t.traverse Reader.decode = .ok f →
    (f.WellFormed fun i => i.Described ∧ i.Normal) ∧ (t.WellFormed RawItem.Canonical ↔ Filter.escaped f = t)
  | .and parts, f, ⟨hne, hparts⟩, hf => by
    simp only [FilterTree.traverse, bind_eq_ok, pure_eq_ok] at hf
    obtain ⟨fs, hfs, rfl⟩ := hf
    obtain ⟨hlength, hwell, hcanonical⟩ := allDecoded hparts hfs
    refine ⟨⟨?_, hwell⟩, ?_⟩
    · rwa [ne_eq, ← List.length_eq_zero_iff, hlength, List.length_eq_zero_iff]
    · simp only [FilterTree.WellFormed, ne_eq, hne, not_false_eq_true, true_and, hcanonical, Filter.escaped,
        FilterTree.mapItems, FilterTree.and.injEq]
  | .or parts, f, ⟨hne, hparts⟩, hf => by
    simp only [FilterTree.traverse, bind_eq_ok, pure_eq_ok] at hf
    obtain ⟨fs, hfs, rfl⟩ := hf
    obtain ⟨hlength, hwell, hcanonical⟩ := allDecoded hparts hfs
    refine ⟨⟨?_, hwell⟩, ?_⟩
    · rwa [ne_eq, ← List.length_eq_zero_iff, hlength, List.length_eq_zero_iff]
    · simp only [FilterTree.WellFormed, ne_eq, hne, not_false_eq_true, true_and, hcanonical, Filter.escaped,
        FilterTree.mapItems, FilterTree.or.injEq]
  | .not part, f, hpart, hf => by
    simp only [FilterTree.traverse, bind_eq_ok, pure_eq_ok] at hf
    obtain ⟨g, hg, rfl⟩ := hf
    obtain ⟨hwell, hcanonical⟩ := decoded (t := part) hpart hg
    refine ⟨hwell, ?_⟩
    simp only [FilterTree.WellFormed, hcanonical, Filter.escaped, FilterTree.mapItems, FilterTree.not.injEq]
  | .compare .., f, h, hf => decoded_item (i := .compare ..) h hf
  | .present _, f, h, hf => decoded_item (i := .present _) h hf
  | .substrings .., f, h, hf => decoded_item (i := .substrings ..) h hf

theorem allDecoded : ∀ {parts : List RawFilter} {fs : List Filter},
    FilterTree.AllWellFormed RawItem.Readable parts → FilterTree.traverseAll Reader.decode parts = .ok fs →
      fs.length = parts.length ∧ (FilterTree.AllWellFormed (fun i => i.Described ∧ i.Normal) fs) ∧
        (FilterTree.AllWellFormed RawItem.Canonical parts ↔ FilterTree.mapAllItems Item.escaped fs = parts)
  | [], fs, _, hfs => by
    cases pure_eq_ok.mp hfs
    simp [FilterTree.AllWellFormed, FilterTree.mapAllItems]
  | part :: parts, fs, ⟨hpart, hparts⟩, hfs => by
    simp only [FilterTree.traverseAll, bind_eq_ok, pure_eq_ok] at hfs
    obtain ⟨g, hg, gs, hgs, rfl⟩ := hfs
    obtain ⟨hwell, hcanonical⟩ := decoded hpart hg
    obtain ⟨hlength, hall, hcanonicals⟩ := allDecoded hparts hgs
    refine ⟨by simp [hlength], ⟨hwell, hall⟩, ?_⟩
    rw [FilterTree.AllWellFormed, hcanonical, hcanonicals, FilterTree.mapAllItems, List.cons.injEq, Filter.escaped]

end

end RawFilter

namespace Filter

/-- A text that is read is the text of a filter with its values as written, and these are decoded. -/
theorem parse_eq_ok {s : String} {f : Filter} (h : Filter.parse s = .ok f) :
    ∃ t : RawFilter, s.toList = t.text ∧ t.WellFormed RawItem.Readable ∧ t.traverse Reader.decode = .ok f := by
  unfold Filter.parse at h
  split at h
  · next t ht =>
    obtain ⟨htext, hread⟩ := Reader.filter_eq_ok_iff.mp ht
    exact ⟨t, htext, hread, h⟩
  · cases h

/-- A filter that comes from a text has a text of its own that it is read back from. The two texts are the same
    exactly when every backslash begins an escape that is written. -/
theorem render_parsed (s : String) (f : Filter) (h : Filter.parse s = .ok f) :
    (f.WellFormed fun i => i.Described ∧ i.Normal) ∧ Filter.parse f.render = .ok f ∧
      (f.render = s ↔ Escape.Canonical s.toList) := by
  obtain ⟨t, htext, hread, hdecode⟩ := parse_eq_ok h
  obtain ⟨hwell, hcanonical⟩ := RawFilter.decoded hread hdecode
  have hrender : f.render = .ofList (RawFilter.text f.escaped) := by
    rw [Filter.render, writer_eq_text, normal_eq_self (hwell.imp fun _ hi => hi.2)]
  refine ⟨hwell, by rw [hrender, parse_escaped hwell], ?_⟩
  have hescaped : f.escaped.WellFormed RawItem.Readable := escaped_readable hwell
  calc f.render = s ↔ RawFilter.text f.escaped = RawFilter.text t := by
        rw [hrender, ← htext, ← String.toList_inj, String.toList_ofList]
    _ ↔ f.escaped = t := Reader.text_inj hescaped hread
    _ ↔ t.WellFormed RawItem.Canonical := hcanonical.symm
    _ ↔ Escape.Canonical s.toList := by
        rw [htext, ← List.append_nil t.text, RawFilter.canonical_text [] hread]
        exact (and_iff_left Escape.canonical_nil).symm

theorem render_parsed_mixed :
    let s := "(&(cn=caf\\C3\\a9*\\2A)(!(sn~=\\5c)))"
    ∃ f, Filter.parse s = .ok f ∧ f.render = "(&(cn=café*\\2a)(!(sn~=\\5c)))" ∧ Filter.parse f.render = .ok f ∧
      ¬Escape.Canonical s.toList := by
  intro s
  have hread : (Filter.parse s).toOption.map Filter.render = some "(&(cn=café*\\2a)(!(sn~=\\5c)))" := by
    decide +kernel
  obtain ⟨f, hf, hrender⟩ := Option.map_eq_some_iff.mp hread
  obtain ⟨-, hparse, hiff⟩ := render_parsed s f (toOption_eq_some.mp hf)
  refine ⟨f, toOption_eq_some.mp hf, hrender, hparse, fun hcanonical => ?_⟩
  have hsame := hiff.mpr hcanonical
  rw [hrender] at hsame
  exact absurd hsame (by decide)

end Filter

end DirectorySearch
