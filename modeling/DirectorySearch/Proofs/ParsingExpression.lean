import Mathlib.Computability.Language
import Mathlib.Order.Bounds.Basic

/-! Parsing expressions, and how they are run. A choice that succeeds is final, and a repetition goes on as long as it
    can. A run keeps the offset of every try of a rule that failed, whether or not it went on without that rule.

    Read without an order of choices and without greed, expressions describe languages. Whatever a run takes is in
    the language of its expression; and a rule is tried only where the text so far can be continued to a whole text
    of the language. -/

namespace DirectorySearch

/-- A parsing expression over rules with names in `R`. -/
inductive Peg (R : Type) where
  /-- One character of a class. -/
  | char (p : Char → Bool)
  | literal (w : List Char)
  | seq (e f : Peg R)
  /-- The second is tried where the first fails. -/
  | choice (e f : Peg R)
  /-- As often as it can be matched. -/
  | many (e : Peg R)
  /-- The text goes on in this way, but nothing of it is taken. -/
  | ahead (w : List Char)
  /-- The text is at its end. -/
  | ending
  | rule (r : R)

namespace Peg

variable {R : Type}

def many1 (e : Peg R) : Peg R := .seq e (.many e)

def optional (e : Peg R) : Peg R := .choice e (.literal [])

/-! ### Runs -/

/-- `Runs g e pos s o log`: at offset `pos`, where the text `s` is left, the expression `e` takes a word and leaves the
    rest, or fails; `log` has the offsets at which rules were tried and failed on the way, in that order. -/
inductive Runs (g : R → Peg R) : Peg R → Nat → List Char → Option (List Char × List Char) → List Nat → Prop where
  | char {p : Char → Bool} {pos : Nat} {c : Char} {s : List Char} (h : p c = true) :
    Runs g (.char p) pos (c :: s) (some ([c], s)) []
  | char_fails {p : Char → Bool} {pos : Nat} {s : List Char} (h : ∀ c ∈ s.head?, p c = false) :
    Runs g (.char p) pos s none []
  | literal {w s r : List Char} {pos : Nat} (h : s = w ++ r) : Runs g (.literal w) pos s (some (w, r)) []
  | literal_fails {w s : List Char} {pos : Nat} (h : ¬w <+: s) : Runs g (.literal w) pos s none []
  | seq {e f : Peg R} {pos : Nat} {s w r v t : List Char} {log log' : List Nat} (he : Runs g e pos s (some (w, r)) log)
    (hf : Runs g f (pos + w.length) r (some (v, t)) log') :
    Runs g (.seq e f) pos s (some (w ++ v, t)) (log ++ log')
  | seq_fails {e f : Peg R} {pos : Nat} {s : List Char} {log : List Nat} (he : Runs g e pos s none log) :
    Runs g (.seq e f) pos s none log
  | seq_fails_after {e f : Peg R} {pos : Nat} {s w r : List Char} {log log' : List Nat}
    (he : Runs g e pos s (some (w, r)) log) (hf : Runs g f (pos + w.length) r none log') :
    Runs g (.seq e f) pos s none (log ++ log')
  | first {e f : Peg R} {pos : Nat} {s : List Char} {found : List Char × List Char} {log : List Nat}
    (he : Runs g e pos s (some found) log) : Runs g (.choice e f) pos s (some found) log
  | second {e f : Peg R} {pos : Nat} {s : List Char} {o : Option (List Char × List Char)} {log log' : List Nat}
    (he : Runs g e pos s none log) (hf : Runs g f pos s o log') : Runs g (.choice e f) pos s o (log ++ log')
  | stop {e : Peg R} {pos : Nat} {s : List Char} {log : List Nat} (he : Runs g e pos s none log) :
    Runs g (.many e) pos s (some ([], s)) log
  | more {e : Peg R} {pos : Nat} {s w r v t : List Char} {log log' : List Nat} (he : Runs g e pos s (some (w, r)) log)
    (hmore : Runs g (.many e) (pos + w.length) r (some (v, t)) log') :
    Runs g (.many e) pos s (some (w ++ v, t)) (log ++ log')
  | ahead {w s : List Char} {pos : Nat} (h : w <+: s) : Runs g (.ahead w) pos s (some ([], s)) []
  | ahead_fails {w s : List Char} {pos : Nat} (h : ¬w <+: s) : Runs g (.ahead w) pos s none []
  | ending {pos : Nat} : Runs g .ending pos [] (some ([], [])) []
  | ending_fails {pos : Nat} {c : Char} {s : List Char} : Runs g .ending pos (c :: s) none []
  | rule {r : R} {pos : Nat} {s : List Char} {found : List Char × List Char} {log : List Nat}
    (h : Runs g (g r) pos s (some found) log) : Runs g (.rule r) pos s (some found) log
  /-- A rule that fails leaves the offset at which it was tried. -/
  | rule_fails {r : R} {pos : Nat} {s : List Char} {log : List Nat} (h : Runs g (g r) pos s none log) :
    Runs g (.rule r) pos s none (pos :: log)

variable {g : R → Peg R}

/-- An expression runs in one way only. -/
theorem Runs.unique {e : Peg R} {pos : Nat} {s : List Char} {o o' : Option (List Char × List Char)} {log log' : List Nat}
    (h : Runs g e pos s o log) (h' : Runs g e pos s o' log') : o = o' ∧ log = log' := by
  induction h generalizing o' log' with
  | char hc =>
    cases h' with
    | char _ => exact ⟨rfl, rfl⟩
    | char_fails hnone => simp [hnone _ rfl] at hc
  | char_fails hnone =>
    cases h' with
    | char hc => simp [hnone _ rfl] at hc
    | char_fails _ => exact ⟨rfl, rfl⟩
  | literal hs =>
    cases h' with
    | literal hs' => exact ⟨by rw [List.append_cancel_left (hs.symm.trans hs')], rfl⟩
    | literal_fails hnone => exact absurd ⟨_, hs.symm⟩ hnone
  | literal_fails hnone =>
    cases h' with
    | literal hs => exact absurd ⟨_, hs.symm⟩ hnone
    | literal_fails _ => exact ⟨rfl, rfl⟩
  | seq _ _ ihe ihf =>
    cases h' with
    | seq he hf =>
      obtain ⟨hfound, rfl⟩ := ihe he
      cases hfound
      obtain ⟨hfound, rfl⟩ := ihf hf
      cases hfound
      exact ⟨rfl, rfl⟩
    | seq_fails he => cases (ihe he).1
    | seq_fails_after he hf =>
      obtain ⟨hfound, -⟩ := ihe he
      cases hfound
      cases (ihf hf).1
  | seq_fails _ ihe =>
    cases h' with
    | seq he _ => cases (ihe he).1
    | seq_fails he => exact ⟨rfl, (ihe he).2⟩
    | seq_fails_after he _ => cases (ihe he).1
  | seq_fails_after _ _ ihe ihf =>
    cases h' with
    | seq he hf =>
      obtain ⟨hfound, -⟩ := ihe he
      cases hfound
      cases (ihf hf).1
    | seq_fails he => cases (ihe he).1
    | seq_fails_after he hf =>
      obtain ⟨hfound, rfl⟩ := ihe he
      cases hfound
      exact ⟨rfl, by rw [(ihf hf).2]⟩
  | first _ ihe =>
    cases h' with
    | first he => exact ihe he
    | second he _ => cases (ihe he).1
  | second _ _ ihe ihf =>
    cases h' with
    | first he => cases (ihe he).1
    | second he hf =>
      obtain ⟨-, rfl⟩ := ihe he
      obtain ⟨ho, rfl⟩ := ihf hf
      exact ⟨ho, rfl⟩
  | stop _ ihe =>
    cases h' with
    | stop he => exact ⟨rfl, (ihe he).2⟩
    | more he _ => cases (ihe he).1
  | more _ _ ihe ihmore =>
    cases h' with
    | stop he => cases (ihe he).1
    | more he hmore =>
      obtain ⟨hfound, rfl⟩ := ihe he
      cases hfound
      obtain ⟨hfound, rfl⟩ := ihmore hmore
      cases hfound
      exact ⟨rfl, rfl⟩
  | ahead hw =>
    cases h' with
    | ahead _ => exact ⟨rfl, rfl⟩
    | ahead_fails hnone => exact absurd hw hnone
  | ahead_fails hnone =>
    cases h' with
    | ahead hw => exact absurd hw hnone
    | ahead_fails _ => exact ⟨rfl, rfl⟩
  | ending =>
    cases h'
    exact ⟨rfl, rfl⟩
  | ending_fails =>
    cases h'
    exact ⟨rfl, rfl⟩
  | rule _ ih =>
    cases h' with
    | rule hr => exact ih hr
    | rule_fails hr => cases (ih hr).1
  | rule_fails _ ih =>
    cases h' with
    | rule hr => cases (ih hr).1
    | rule_fails hr => exact ⟨rfl, by rw [(ih hr).2]⟩

/-! ### Languages -/

/-- The language of an expression, where each rule `r` stands for the texts in `X r`. -/
def lang (X : R → Language Char) : Peg R → Language Char
  | .char p => {w | ∃ c, p c = true ∧ w = [c]}
  | .literal w => {w}
  | .seq e f => lang X e * lang X f
  | .choice e f => lang X e + lang X f
  | .many e => KStar.kstar (lang X e)
  | .ahead _ => 1
  | .ending => 1
  | .rule r => X r

/-- No part of the expression stands for nothing at all. -/
def Productive (X : R → Language Char) : Peg R → Prop
  | .char p => ∃ c, p c = true
  | .seq e f => Productive X e ∧ Productive X f
  | .choice e f => Productive X e ∧ Productive X f
  | .many e => Productive X e
  | .rule r => ∃ w, w ∈ X r
  | .literal _ | .ahead _ | .ending => True

variable {X : R → Language Char}

theorem Productive.exists_mem {e : Peg R} (h : Productive X e) : ∃ w, w ∈ lang X e := by
  induction e with
  | char p =>
    obtain ⟨c, hc⟩ := h
    exact ⟨[c], c, hc, rfl⟩
  | literal w => exact ⟨w, rfl⟩
  | seq e f ihe ihf =>
    obtain ⟨w, hw⟩ := ihe h.1
    obtain ⟨v, hv⟩ := ihf h.2
    exact ⟨w ++ v, Language.append_mem_mul hw hv⟩
  | choice e f ihe _ =>
    obtain ⟨w, hw⟩ := ihe h.1
    exact ⟨w, .inl hw⟩
  | many e _ => exact ⟨[], Language.nil_mem_kstar _⟩
  | ahead _ => exact ⟨[], rfl⟩
  | ending => exact ⟨[], rfl⟩
  | rule r => exact h

/-- One more word may stand before words of a repetition. -/
theorem append_mem_many {e : Peg R} {w v : List Char} (hw : w ∈ lang X e) (hv : v ∈ lang X (.many e)) :
    w ++ v ∈ lang X (.many e) :=
  Set.mem_of_mem_of_subset (Language.append_mem_mul hw hv) (mul_kstar_le_kstar (a := lang X e))

/-- What a run takes is a word of the language, and the text is made up of it and of what is left. -/
theorem Runs.mem_lang (hX : ∀ r w, w ∈ lang X (g r) → w ∈ X r) {e : Peg R} {pos : Nat} {s : List Char}
    {o : Option (List Char × List Char)} {log : List Nat} (h : Runs g e pos s o log) :
    ∀ found ∈ o, s = found.1 ++ found.2 ∧ found.1 ∈ lang X e := by
  induction h with
  | char hc =>
    rintro _ ⟨⟩
    exact ⟨rfl, _, hc, rfl⟩
  | literal hs =>
    rintro _ ⟨⟩
    exact ⟨hs, rfl⟩
  | seq _ _ ihe ihf =>
    rintro _ ⟨⟩
    obtain ⟨rfl, hw⟩ := ihe _ rfl
    obtain ⟨hr, hv⟩ := ihf _ rfl
    simp only at hr
    exact ⟨by simp [hr], Language.append_mem_mul hw hv⟩
  | first _ ih =>
    rintro _ ⟨⟩
    obtain ⟨hs, hw⟩ := ih _ rfl
    exact ⟨hs, .inl hw⟩
  | second _ _ _ ih =>
    intro found hfound
    obtain ⟨hs, hw⟩ := ih found hfound
    exact ⟨hs, .inr hw⟩
  | stop =>
    rintro _ ⟨⟩
    exact ⟨rfl, Language.nil_mem_kstar _⟩
  | more _ _ ihe ihmore =>
    rintro _ ⟨⟩
    obtain ⟨rfl, hw⟩ := ihe _ rfl
    obtain ⟨hr, hv⟩ := ihmore _ rfl
    simp only at hr
    exact ⟨by simp [hr], append_mem_many hw hv⟩
  | ahead =>
    rintro _ ⟨⟩
    exact ⟨rfl, rfl⟩
  | ending =>
    rintro _ ⟨⟩
    exact ⟨rfl, rfl⟩
  | @rule r _ _ _ _ _ ih =>
    rintro _ ⟨⟩
    obtain ⟨hs, hw⟩ := ih _ rfl
    exact ⟨hs, hX r _ hw⟩
  | _ => rintro _ ⟨⟩

theorem Runs.eq_append {e : Peg R} {pos : Nat} {s w r : List Char} {log : List Nat}
    (h : Runs g e pos s (some (w, r)) log) : s = w ++ r :=
  (h.mem_lang (X := fun _ => Set.univ) (fun _ _ _ => trivial) _ rfl).1

/-! ### Where rules are tried -/

/-- A text that can be continued to one of the language. -/
def Viable (L : Language Char) (s : List Char) : Prop := ∃ more, s ++ more ∈ L

theorem Viable.of_append {L : Language Char} {s t : List Char} (h : Viable L (s ++ t)) : Viable L s := by
  obtain ⟨more, hmore⟩ := h
  exact ⟨t ++ more, by rwa [← List.append_assoc]⟩

/-- The expression may stand behind the text so far, whichever of its words it takes. -/
def MayFollow (X : R → Language Char) (L : Language Char) (e : Peg R) (before : List Char) : Prop :=
  ∀ w ∈ lang X e, Viable L (before ++ w)

namespace MayFollow
variable {L : Language Char} {e f : Peg R} {before : List Char}

theorem first (h : MayFollow X L (.seq e f) before) (hf : Productive X f) : MayFollow X L e before := by
  intro w hw
  obtain ⟨v, hv⟩ := hf.exists_mem
  have hboth := h (w ++ v) (Language.append_mem_mul hw hv)
  rw [← List.append_assoc] at hboth
  exact hboth.of_append

theorem second {w : List Char} (h : MayFollow X L (.seq e f) before) (hw : w ∈ lang X e) :
    MayFollow X L f (before ++ w) := by
  intro v hv
  rw [List.append_assoc]
  exact h (w ++ v) (Language.append_mem_mul hw hv)

theorem item (h : MayFollow X L (.many e) before) : MayFollow X L e before := by
  intro w hw
  have hone := append_mem_many hw (Language.nil_mem_kstar _)
  rw [List.append_nil] at hone
  exact h w hone

theorem again {w : List Char} (h : MayFollow X L (.many e) before) (hw : w ∈ lang X e) :
    MayFollow X L (.many e) (before ++ w) := by
  intro v hv
  rw [List.append_assoc]
  exact h (w ++ v) (append_mem_many hw hv)

theorem viable (h : MayFollow X L e before) (he : Productive X e) : Viable L before := by
  obtain ⟨w, hw⟩ := he.exists_mem
  exact (h w hw).of_append

end MayFollow

/-- The offsets lie in the text, and up to each of them it is viable. -/
def AllViable (L : Language Char) (text : List Char) (log : List Nat) : Prop :=
  ∀ q ∈ log, q ≤ text.length ∧ Viable L (text.take q)

theorem AllViable.append {L : Language Char} {text : List Char} {log log' : List Nat} (h : AllViable L text log)
    (h' : AllViable L text log') : AllViable L text (log ++ log') :=
  List.forall_mem_append.mpr ⟨h, h'⟩

/-- Rules are tried at viable texts only. The text before the run is kept in view, since viability is about the whole
    of what was read. -/
theorem Runs.allViable (hX : ∀ r w, w ∈ lang X (g r) → w ∈ X r) (hg : ∀ r, Productive X (g r)) {L : Language Char}
    {e : Peg R} {pos : Nat} {s : List Char} {o : Option (List Char × List Char)} {log : List Nat}
    (h : Runs g e pos s o log) : ∀ {before : List Char}, before.length = pos → Productive X e →
      MayFollow X L e before → AllViable L (before ++ s) log := by
  induction h with
  | seq he _ ihe ihf =>
    rintro before rfl ⟨hprode, hprodf⟩ hfollow
    obtain ⟨rfl, hw⟩ := he.mem_lang hX _ rfl
    have hrest := ihf List.length_append hprodf (hfollow.second hw)
    rw [List.append_assoc] at hrest
    exact (ihe rfl hprode (hfollow.first hprodf)).append hrest
  | seq_fails _ ihe =>
    rintro before rfl ⟨hprode, hprodf⟩ hfollow
    exact ihe rfl hprode (hfollow.first hprodf)
  | seq_fails_after he _ ihe ihf =>
    rintro before rfl ⟨hprode, hprodf⟩ hfollow
    obtain ⟨rfl, hw⟩ := he.mem_lang hX _ rfl
    have hrest := ihf List.length_append hprodf (hfollow.second hw)
    rw [List.append_assoc] at hrest
    exact (ihe rfl hprode (hfollow.first hprodf)).append hrest
  | first _ ihe =>
    rintro before rfl ⟨hprode, -⟩ hfollow
    exact ihe rfl hprode fun w hw => hfollow w (.inl hw)
  | second _ _ ihe ihf =>
    rintro before rfl ⟨hprode, hprodf⟩ hfollow
    exact (ihe rfl hprode fun w hw => hfollow w (.inl hw)).append (ihf rfl hprodf fun w hw => hfollow w (.inr hw))
  | stop _ ihe =>
    intro before hpos hprod hfollow
    exact ihe hpos hprod hfollow.item
  | more he _ ihe ihmore =>
    rintro before rfl hprod hfollow
    obtain ⟨rfl, hw⟩ := he.mem_lang hX _ rfl
    have hrest := ihmore List.length_append hprod (hfollow.again hw)
    rw [List.append_assoc] at hrest
    exact (ihe rfl hprod hfollow.item).append hrest
  | @rule r _ _ _ _ _ ih =>
    intro before hpos _ hfollow
    exact ih hpos (hg r) fun w hw => hfollow w (hX r w hw)
  | @rule_fails r _ _ _ _ ih =>
    rintro before rfl hprod hfollow
    refine List.forall_mem_cons.mpr ⟨⟨by simp, ?_⟩, ih rfl (hg r) fun w hw => hfollow w (hX r w hw)⟩
    rw [List.take_left]
    exact hfollow.viable hprod
  | _ =>
    intro before _ _ _ q hq
    cases hq

/-! ### The furthest of the offsets -/

/-- The furthest of some offsets. -/
def furthest (log : List Nat) : Nat := log.foldr max 0

@[simp] theorem furthest_nil : furthest [] = 0 := rfl

@[simp] theorem furthest_cons (q : Nat) (log : List Nat) : furthest (q :: log) = max q (furthest log) := rfl

@[simp] theorem furthest_append (log log' : List Nat) : furthest (log ++ log') = max (furthest log) (furthest log') := by
  induction log with
  | nil => simp
  | cons q log ih => rw [List.cons_append, furthest_cons, ih, furthest_cons, Nat.max_assoc]

theorem le_furthest {q : Nat} {log : List Nat} (h : q ∈ log) : q ≤ furthest log := by
  induction log with
  | nil => cases h
  | cons q' log ih =>
    rw [furthest_cons]
    rcases List.mem_cons.mp h with rfl | h
    · exact Nat.le_max_left _ _
    · exact (ih h).trans (Nat.le_max_right _ _)

theorem furthest_mem {log : List Nat} (h : log ≠ []) : furthest log ∈ log := by
  induction log with
  | nil => exact absurd rfl h
  | cons q log ih =>
    rw [furthest_cons]
    by_cases hlog : log = []
    · simp [hlog]
    rcases Nat.le_total q (furthest log) with hle | hle
    · rw [Nat.max_eq_right hle]
      exact List.mem_cons_of_mem _ (ih hlog)
    · rw [Nat.max_eq_left hle]
      exact List.mem_cons_self

/-- A rule that failed did so where it was tried, if not later. -/
theorem Runs.le_furthest {r : R} {pos : Nat} {s : List Char} {log : List Nat}
    (h : Runs g (.rule r) pos s none log) : pos ≤ furthest log := by
  cases h with
  | rule_fails _ => exact Nat.le_max_left _ _

end Peg

end DirectorySearch
