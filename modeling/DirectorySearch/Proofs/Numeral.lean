import DirectorySearch.Json.Form
import DirectorySearch.Proofs.Except
import DirectorySearch.Proofs.Scaling
import DirectorySearch.Proofs.Shortest

/-! Numbers in JSON text. A whole number reads back as itself. The text of a finite double always has a point or
    an exponent, and the digits before, after and beside it add up to its shortest decimal, to which the double is
    the nearest. With few digits it is read back. -/

namespace DirectorySearch

/-! ### Decimal digits -/

namespace NumberLayout

theorem isDigit_digitsOf {n : Nat} {c : Char} (h : c ∈ digitsOf n) : c.isDigit = true :=
  Nat.isDigit_of_mem_toDigits (by decide) (by decide) h

theorem digitsOf_ne_nil (n : Nat) : digitsOf n ≠ [] :=
  Nat.toDigits_ne_nil

theorem head?_digitsOf {n : Nat} (hn : n ≠ 0) : (digitsOf n).head? ≠ some '0' := by
  induction n using Nat.strongRecOn with
  | ind n ih =>
    rw [digitsOf, Nat.toDigits_eq_if (by decide)]
    split
    · simpa using hn
    · next hlt =>
      have hdiv := ih (n / 10) (by omega) (by omega)
      obtain ⟨c, r, hc⟩ := List.exists_cons_of_ne_nil (digitsOf_ne_nil (n / 10))
      rw [hc] at hdiv
      rw [← digitsOf, hc]
      exact hdiv

theorem isDigit_zeros {k : Nat} {c : Char} (h : c ∈ zeros k) : c.isDigit = true := by
  rw [List.eq_of_mem_replicate h]
  rfl

end NumberLayout

namespace Json

open NumberLayout

namespace Draft

theorem digitsValue_eq (digits : List Char) : digitsValue digits = Nat.ofDigitChars 10 digits 0 := rfl

@[simp]
theorem digitsValue_digitsOf (n : Nat) : digitsValue (digitsOf n) = n :=
  Nat.ofDigitChars_ten_toDigits

theorem digitsValue_append_zeros (digits : List Char) (k : Nat) :
    digitsValue (digits ++ zeros k) = digitsValue digits * 10 ^ k := by
  rw [digitsValue_eq, Nat.ofDigitChars_append, zeros, Nat.ofDigitChars_replicate_zero, Nat.mul_comm,
    digitsValue_eq]

theorem digitsValue_zeros_append (digits : List Char) (k : Nat) :
    digitsValue (zeros k ++ digits) = digitsValue digits := by
  rw [digitsValue_eq, Nat.ofDigitChars_append, zeros, Nat.ofDigitChars_replicate_zero, Nat.mul_zero,
    digitsValue_eq]

/-! ### The parts of a number -/

/-- A text that goes on with something other than a digit. -/
def NoDigit (rest : List Char) : Prop := ∀ c ∈ rest.head?, c.isDigit = false

/-- A text that does not go on with more of a number. -/
def Ends (rest : List Char) : Prop :=
  ∀ c ∈ rest.head?, c.isDigit = false ∧ c ≠ '.' ∧ c ≠ 'e' ∧ c ≠ 'E'

variable {digits rest s : List Char}

theorem Ends.noDigit (h : Ends rest) : NoDigit rest := fun c hc => (h c hc).1

theorem digits1_append (hdigits : ∀ c ∈ digits, c.isDigit = true) (hne : digits ≠ [])
    (hrest : NoDigit rest) : digits1 (digits ++ rest) = .ok (digits, rest) := by
  have htake : rest.takeWhile Char.isDigit = [] ∧ rest.dropWhile Char.isDigit = rest := by
    cases rest with
    | nil => exact ⟨rfl, rfl⟩
    | cons c rest => simp [hrest c rfl]
  unfold digits1
  rw [List.takeWhile_append_of_pos hdigits, List.dropWhile_append_of_pos hdigits, htake.1, htake.2,
    List.append_nil]
  split
  · exact absurd rfl hne
  · rfl

/-- Digits that may stand before a point: no zero stands before another one. -/
structure IsWhole (digits : List Char) : Prop where
  isDigit : ∀ c ∈ digits, c.isDigit = true
  ne_nil : digits ≠ []
  zero : digits = ['0'] ∨ digits.head? ≠ some '0'

theorem whole_append (h : IsWhole digits) (hrest : NoDigit rest) :
    whole (digits ++ rest) = .ok (digits, rest) := by
  rcases h.zero with rfl | hzero
  · cases rest with
    | nil => rfl
    | cons c rest =>
      show (if c.isDigit then _ else _) = _
      rw [if_neg (by simp [hrest c rfl])]
  · unfold whole
    split
    · next hs =>
      obtain ⟨d, ds, rfl⟩ := List.exists_cons_of_ne_nil h.ne_nil
      rw [List.cons_append, List.cons.injEq] at hs
      simp [hs.1] at hzero
    · exact digits1_append h.isDigit h.ne_nil hrest

theorem isWhole_digitsOf (n : Nat) : IsWhole (digitsOf n) where
  isDigit _ := isDigit_digitsOf
  ne_nil := digitsOf_ne_nil n
  zero := by
    by_cases hn : n = 0
    · subst hn
      exact .inl rfl
    · exact .inr (head?_digitsOf hn)

theorem isWhole_zero : IsWhole ['0'] := isWhole_digitsOf 0

/-- Zeros may follow unless they follow a zero. -/
theorem IsWhole.append_zeros {n k : Nat} (h : n = 0 → k = 0) : IsWhole (digitsOf n ++ zeros k) := by
  by_cases hn : n = 0
  · simpa [h hn, zeros] using isWhole_digitsOf n
  · have hne := digitsOf_ne_nil n
    refine ⟨fun c hc => ?_, by simp [hne], .inr ?_⟩
    · rcases List.mem_append.mp hc with hc | hc
      · exact isDigit_digitsOf hc
      · exact isDigit_zeros hc
    · obtain ⟨c, r, hc⟩ := List.exists_cons_of_ne_nil hne
      have := head?_digitsOf hn
      rw [hc] at this ⊢
      exact this

/-- The first digits of a number with more than those. -/
theorem IsWhole.take {n k : Nat} (hpos : 0 < k) (hlt : k < (digitsOf n).length) :
    IsWhole ((digitsOf n).take k) := by
  obtain ⟨c, r, hc⟩ := List.exists_cons_of_ne_nil (digitsOf_ne_nil n)
  obtain ⟨k, rfl⟩ := Nat.exists_eq_succ_of_ne_zero (Nat.ne_of_gt hpos)
  have hn : n ≠ 0 := by
    rintro rfl
    simp [digitsOf] at hlt
  refine ⟨fun c hc => isDigit_digitsOf (List.mem_of_mem_take hc), by simp [hc], .inr ?_⟩
  have := head?_digitsOf hn
  rw [hc] at this ⊢
  exact this

theorem fraction_none (h : Ends rest) : fraction rest = .ok ([], rest) := by
  unfold fraction
  split
  · exact absurd rfl (h '.' rfl).2.1
  · rfl

theorem fraction_exponent : fraction ('e' :: rest) = .ok ([], 'e' :: rest) := rfl

theorem fraction_point (hdigits : ∀ c ∈ digits, c.isDigit = true) (hne : digits ≠ [])
    (hrest : NoDigit rest) : fraction ('.' :: (digits ++ rest)) = .ok (digits, rest) :=
  digits1_append hdigits hne hrest

theorem exponent_none (h : Ends rest) : exponent rest = .ok (none, rest) := by
  cases rest with
  | nil => rfl
  | cons c rest => simp [exponent, (h c rfl).2.2, pure, Except.pure]

/-- An exponent with its sign. -/
theorem exponent_int (lead : Int) (hrest : NoDigit rest) :
    exponent ('e' :: ((if 0 ≤ lead then ['+'] else []) ++ intChars lead ++ rest)) =
      .ok (some lead, rest) := by
  have hread (n : Nat) : digits1 (digitsOf n ++ rest) = .ok (digitsOf n, rest) :=
    digits1_append (fun _ => isDigit_digitsOf) (digitsOf_ne_nil n) hrest
  cases lead with
  | ofNat n =>
    rw [if_pos (by simp)]
    simp [exponent, intChars, hread, bind, Except.bind, pure, Except.pure]
  | negSucc n =>
    rw [if_neg (by omega)]
    simp [exponent, intChars, hread, bind, Except.bind, pure, Except.pure]
    omega

theorem numeral_eq {negative : Bool} {before after s₁ s₂ : List Char} {e : Option Int}
    (hwhole : whole s = .ok (before, s₁)) (hfraction : fraction s₁ = .ok (after, s₂))
    (hexponent : exponent s₂ = .ok (e, rest)) :
    numeral negative s = (.number ⟨negative, before, after, e⟩, some rest) := by
  simp [numeral, hwhole, hfraction, hexponent, bind, Except.bind, pure, Except.pure]

/-! ### Doubles -/

/-- A text with a point or an exponent that stands for a decimal, whatever follows it. -/
def Spells (size : List Char) (d : Decimal) : Prop :=
  ∃ (k : Nat) (before after : List Char) (e : Option Int), (e = none → after ≠ []) ∧
    digitsValue (before ++ after) = d.digits * 10 ^ k ∧ e.getD 0 - after.length = d.power - k ∧
    ∀ negative rest, Ends rest →
      numeral negative (size ++ rest) = (.number ⟨negative, before, after, e⟩, some rest)

theorem noDigit_point : NoDigit ('.' :: rest) := by
  rintro c ⟨⟩
  rfl

theorem noDigit_exponent : NoDigit ('e' :: rest) := by
  rintro c ⟨⟩
  rfl

variable {d : Decimal} {before after : List Char}

theorem spells_point {k : Nat} (hbefore : IsWhole before) (hafter : ∀ c ∈ after, c.isDigit = true)
    (hne : after ≠ []) (hvalue : digitsValue (before ++ after) = d.digits * 10 ^ k)
    (hpower : d.power = k - after.length) : Spells (before ++ '.' :: after) d := by
  refine ⟨k, before, after, none, fun _ => hne, hvalue, ?_, fun negative rest hrest => ?_⟩
  · rw [hpower, Option.getD_none]
    omega
  · rw [List.append_assoc, List.cons_append]
    exact numeral_eq (whole_append hbefore noDigit_point) (fraction_point hafter hne hrest.noDigit)
      (exponent_none hrest)

theorem spells_exponent {lead : Int} (hbefore : IsWhole before)
    (hafter : ∀ c ∈ after, c.isDigit = true) (hvalue : digitsValue (before ++ after) = d.digits)
    (hpower : d.power = lead - after.length) :
    Spells (before ++ (if after = [] then [] else '.' :: after) ++
      'e' :: ((if 0 ≤ lead then ['+'] else []) ++ intChars lead)) d := by
  refine ⟨0, before, after, some lead, by simp, by simpa using hvalue, by simp [hpower], fun negative rest hrest => ?_⟩
  have hexponent := exponent_int lead hrest.noDigit
  rw [List.append_assoc, List.append_assoc, List.cons_append]
  by_cases hnil : after = []
  · rw [if_pos hnil, List.nil_append]
    subst hnil
    exact numeral_eq (whole_append hbefore noDigit_exponent) fraction_exponent hexponent
  · rw [if_neg hnil, List.cons_append]
    exact numeral_eq (whole_append hbefore noDigit_point) (fraction_point hafter hnil noDigit_exponent)
      hexponent

theorem spells_byPosition (hzero : d.digits = 0 → d.power = 0) :
    Spells (byPosition true (digitsOf d.digits) ((digitsOf d.digits).length - 1 + d.power)) d := by
  have hlength := List.length_pos_iff.mpr (digitsOf_ne_nil d.digits)
  simp only [byPosition, if_true]
  split
  · next hlead =>
    -- All digits stand after the point, behind zeros.
    show Spells (['0'] ++ '.' :: (zeros _ ++ digitsOf d.digits)) d
    apply spells_point (k := 0) isWhole_zero
    · intro c hc
      rcases List.mem_append.mp hc with hc | hc
      · exact isDigit_zeros hc
      · exact isDigit_digitsOf hc
    · simp [digitsOf_ne_nil]
    · show digitsValue (zeros 1 ++ _) = _
      simp [digitsValue_zeros_append]
    · simp only [List.length_append, zeros, List.length_replicate]
      omega
  · next hlead =>
    split
    · next hle =>
      -- All digits stand before the point, ahead of zeros.
      apply spells_point (k := d.power.toNat + 1)
      · apply IsWhole.append_zeros
        intro h
        rw [h] at hle ⊢
        have := hzero h
        have : (digitsOf 0).length = 1 := rfl
        omega
      · simp
      · simp
      · rw [show ['0'] = zeros 1 from rfl, digitsValue_append_zeros, digitsValue_append_zeros,
          digitsValue_digitsOf, Nat.mul_assoc, ← Nat.pow_add]
        congr 2
        omega
      · simp only [List.length_singleton]
        omega
    · next hlt =>
      -- The point stands among the digits.
      apply spells_point (k := 0)
      · exact IsWhole.take (by omega) (by omega)
      · exact fun c hc => isDigit_digitsOf (List.mem_of_mem_drop hc)
      · simp
        omega
      · simp
      · simp only [List.length_drop]
        omega

theorem spells_byExponent :
    Spells (byExponent true (digitsOf d.digits) ((digitsOf d.digits).length - 1 + d.power)) d := by
  have hlength := List.length_pos_iff.mpr (digitsOf_ne_nil d.digits)
  have hbefore : IsWhole ((digitsOf d.digits).take 1) := by
    by_cases hone : (digitsOf d.digits).length = 1
    · rw [List.take_of_length_le (by omega)]
      exact isWhole_digitsOf _
    · exact IsWhole.take (by decide) (by omega)
  have hafter : ∀ c ∈ (digitsOf d.digits).drop 1, c.isDigit = true := fun c hc =>
    isDigit_digitsOf (List.mem_of_mem_drop hc)
  have hspells : Spells (_ ++ _ ++ 'e' :: (_ ++ intChars ((digitsOf d.digits).length - 1 + d.power))) d :=
    spells_exponent hbefore hafter (by rw [List.take_append_drop, digitsValue_digitsOf])
      (by rw [List.length_drop]; omega)
  simpa only [byExponent, Bool.true_and, decide_eq_true_eq, List.drop_eq_nil_iff, List.append_assoc,
    List.cons_append] using hspells

theorem exists_spells (layout : NumberLayout) (hpoint : layout.keepsPoint = true)
    (hsign : layout.signsExponent = true) (x : FiniteDouble) :
    ∃ size, layout.finite x = (if x.negative then '-' :: size else size) ∧
      Spells size (Decimal.shortest layout.tie x) := by
  have hposition := spells_byPosition (Decimal.power_shortest_of_digits layout.tie x)
  simp only [NumberLayout.finite, hpoint, hsign]
  refine ⟨_, rfl, ?_⟩
  split
  · rwa [if_pos rfl]
  · split
    · exact hposition
    · exact spells_byExponent

end Draft

namespace Numeral

/-- The digits on both sides of the point, as one number. -/
def digits (n : Numeral) : Nat := Draft.digitsValue (n.whole ++ n.fraction)

/-- The power of ten that goes with the digits. -/
def power (n : Numeral) : Int := n.exponent.getD 0 - n.fraction.length

/-- A number with a point or an exponent. -/
def Marked (n : Numeral) : Prop := n.exponent = none → n.fraction ≠ []

/-- The double nearest to a number. -/
def nearest? (n : Numeral) : Option FiniteDouble := FiniteDouble.nearest? n.negative n.digits n.power

theorem le_foldl_addDigit (m : Nat) (ds : List Char) : m ≤ ds.foldl Draft.addDigit m := by
  induction ds generalizing m with
  | nil => exact Nat.le_refl m
  | cons c ds ih =>
    have hstep : m ≤ Draft.addDigit m c := by
      unfold Draft.addDigit
      omega
    exact Nat.le_trans hstep (ih _)

/-- Digits of a number that sixty-four bits hold are all taken. -/
theorem gather_eq {m : Nat} {ds : List Char} (h : ds.foldl Draft.addDigit m < 2 ^ 64) :
    gather m ds = (ds.foldl Draft.addDigit m, 0) := by
  induction ds generalizing m with
  | nil => rfl
  | cons c ds ih =>
    rw [List.foldl_cons] at h ⊢
    rw [gather, Nat.pow_eq, if_pos (Nat.lt_of_le_of_lt (le_foldl_addDigit _ ds) h), ih h]

theorem decimal_eq {n : Numeral} (h : n.digits < 2 ^ 64) : n.decimal = (n.digits, n.power) := by
  unfold digits Draft.digitsValue at h ⊢
  rw [List.foldl_append] at h ⊢
  have hwhole := gather_eq (Nat.lt_of_le_of_lt (le_foldl_addDigit _ n.fraction) h)
  simp only [decimal, hwhole, gather_eq h, power]
  simp

/-- A number with a point or an exponent is a double, and with few digits and a small exponent it is the nearest. -/
theorem finish_of_exact {n : Numeral} {x : FiniteDouble} (hmark : n.Marked) (hnearest : n.nearest? = some x)
    (hdigits : n.digits < 2 ^ 53) (hpower : n.power.natAbs ≤ 22) : n.finish = .ok (.float (.finite x)) := by
  have hdouble : ¬(n.exponent.isNone = true ∧ n.fraction = []) := fun h =>
    hmark (Option.isNone_iff_eq_none.mp h.1) h.2
  simp only [finish]
  rw [if_neg fun h => hdouble ⟨h.1, h.2.1⟩, if_neg fun h => hdouble ⟨h.1, h.2.1⟩,
    decimal_eq (Nat.lt_trans hdigits (by decide)), FiniteDouble.ofDecimal?_eq_nearest? hdigits hpower]
  rw [nearest?] at hnearest
  rw [hnearest]
  rfl

end Numeral

/-- A finite double has a text that is a number, whatever follows it, and the double is the nearest to that number. -/
theorem exists_numeral (x : FiniteDouble) : ∃ size n,
    numberLayout.finite x = (if x.negative then '-' :: size else size) ∧ n.Marked ∧ n.nearest? = some x ∧
      ∀ rest, Draft.Ends rest → Draft.numeral x.negative (size ++ rest) = (.number n, some rest) := by
  obtain ⟨size, hfinite, k, before, after, e, hmark, hdigits, hpower, hread⟩ :=
    Draft.exists_spells numberLayout rfl rfl x
  refine ⟨size, ⟨x.negative, before, after, e⟩, hfinite, hmark, ?_, hread x.negative⟩
  rw [Numeral.nearest?, Numeral.digits, Numeral.power, hdigits, hpower, Decimal.nearest?_shortest]

/-! ### Whole numbers -/

/-- Whole numbers of sixty-four bits, with a sign or without. -/
def InRange (n : Int) : Prop := -2 ^ 63 ≤ n ∧ n < 2 ^ 64

/-- A whole number as it is read from text. -/
def intNumeral (n : Int) : Numeral := ⟨decide (n < 0), digitsOf n.natAbs, [], none⟩

theorem finish_intNumeral {n : Int} (h : InRange n) : (intNumeral n).finish = .ok (.int n) := by
  obtain ⟨hlow, hhigh⟩ := h
  simp only [Numeral.finish, intNumeral, Draft.digitsValue_digitsOf, Option.isNone_none, true_and,
    decide_eq_false_iff_not, decide_eq_true_eq, Nat.pow_eq]
  split
  · next h =>
    rw [Int.natAbs_of_nonneg (by omega)]
    rfl
  · rw [if_pos (by omega), Int.ofNat_natAbs_of_nonpos (by omega), Int.neg_neg]
    rfl

namespace Draft

theorem numeral_digitsOf {negative : Bool} {n : Nat} {rest : List Char} (hrest : Ends rest) :
    numeral negative (digitsOf n ++ rest) = (.number ⟨negative, digitsOf n, [], none⟩, some rest) :=
  numeral_eq (whole_append (isWhole_digitsOf n) hrest.noDigit) (fraction_none hrest) (exponent_none hrest)

/-! ### What a number takes -/

/-- The characters of numbers. -/
def InNumber (c : Char) : Prop := c.isDigit = true ∨ c ∈ ['.', 'e', 'E', '+', '-']

theorem digits1_eq (h : digits1 s = .ok (digits, rest)) :
    s = digits ++ rest ∧ digits ≠ [] ∧ ∀ c ∈ digits, c.isDigit = true := by
  unfold digits1 at h
  split at h
  · cases h
  · next hne =>
    cases h
    exact ⟨List.takeWhile_append_dropWhile.symm, hne, List.all_eq_true.mp List.all_takeWhile⟩

theorem whole_eq (h : whole s = .ok (digits, rest)) :
    s = digits ++ rest ∧ digits ≠ [] ∧ ∀ c ∈ digits, c.isDigit = true := by
  unfold whole at h
  split at h
  · split at h
    · cases h
    · cases h
      simp
  · exact digits1_eq h

theorem fraction_eq (h : fraction s = .ok (digits, rest)) :
    ∃ taken, s = taken ++ rest ∧ ∀ c ∈ taken, InNumber c := by
  unfold fraction at h
  split at h
  · obtain ⟨rfl, -, hdigits⟩ := digits1_eq h
    exact ⟨'.' :: digits, rfl, by simpa [InNumber] using fun c hc => .inl (hdigits c hc)⟩
  · cases h
    exact ⟨[], rfl, by simp⟩

theorem exponent_eq {e : Option Int} (h : exponent s = .ok (e, rest)) :
    ∃ taken, s = taken ++ rest ∧ ∀ c ∈ taken, InNumber c := by
  unfold exponent at h
  split at h
  · next c r =>
    split at h
    · next he =>
      have hc : InNumber c := by rcases he with rfl | rfl <;> simp [InNumber]
      obtain ⟨⟨digits, r'⟩, hread, heq⟩ := bind_eq_ok.mp h
      cases heq
      have htaken (sign : List Char) (hsign : ∀ x ∈ sign, InNumber x)
          (hdigits : ∀ x ∈ digits, x.isDigit = true) : ∀ x ∈ c :: (sign ++ digits), InNumber x := by
        rw [List.forall_mem_cons, List.forall_mem_append]
        exact ⟨hc, hsign, fun x hx => .inl (hdigits x hx)⟩
      split at hread <;> obtain ⟨rfl, -, hdigits⟩ := digits1_eq hread
      · exact ⟨_, rfl, htaken ['+'] (by simp [InNumber]) hdigits⟩
      · exact ⟨_, rfl, htaken ['-'] (by simp [InNumber]) hdigits⟩
      · exact ⟨_, rfl, htaken [] (by simp) hdigits⟩
    · cases h
      exact ⟨[], rfl, by simp⟩
  · cases h
    exact ⟨[], rfl, by simp⟩

/-- A number begins with a digit. -/
theorem numeral_eq_some {negative : Bool} {d : Draft} (h : numeral negative s = (d, some rest)) :
    ∃ c taken, s = c :: taken ++ rest ∧ c.isDigit = true ∧ ∀ x ∈ taken, InNumber x := by
  unfold numeral at h
  dsimp only at h
  split at h
  · next n r hread =>
    cases h
    obtain ⟨⟨before, s₁⟩, hwhole, hread⟩ := bind_eq_ok.mp hread
    obtain ⟨⟨after, s₂⟩, hfraction, hread⟩ := bind_eq_ok.mp hread
    obtain ⟨⟨e, s₃⟩, hexponent, hread⟩ := bind_eq_ok.mp hread
    cases hread
    obtain ⟨rfl, hne, hdigits⟩ := whole_eq hwhole
    obtain ⟨t₁, rfl, h₁⟩ := fraction_eq hfraction
    obtain ⟨t₂, rfl, h₂⟩ := exponent_eq hexponent
    obtain ⟨c, before, rfl⟩ := List.exists_cons_of_ne_nil hne
    rw [List.forall_mem_cons] at hdigits
    refine ⟨c, before ++ t₁ ++ t₂, by simp, hdigits.1, ?_⟩
    simp only [List.mem_append]
    rintro x ((hx | hx) | hx)
    · exact .inl (hdigits.2 x hx)
    · exact h₁ x hx
    · exact h₂ x hx
  · cases h

/-! ### What is no number -/

/-- Where a digit is missing, or another character stands. -/
def Stuck (d : Draft) : Prop := d = .cutNumber ∨ ∃ flaw, d = .broken flaw

theorem stuck_digits1 {d : Draft} (h : digits1 s = .error d) : Stuck d := by
  unfold digits1 at h
  split at h
  · cases h
    split
    · exact .inl rfl
    · exact .inr ⟨_, rfl⟩
  · cases h

theorem stuck_whole {d : Draft} (h : whole s = .error d) : Stuck d := by
  unfold whole at h
  split at h
  · split at h <;> cases h
    exact .inr ⟨_, rfl⟩
  · exact stuck_digits1 h

theorem stuck_fraction {d : Draft} (h : fraction s = .error d) : Stuck d := by
  unfold fraction at h
  split at h
  · exact stuck_digits1 h
  · cases h

theorem stuck_exponent {d : Draft} (h : exponent s = .error d) : Stuck d := by
  unfold exponent at h
  split at h
  · split at h
    · rcases bind_eq_error.mp h with hread | ⟨_, -, hpure⟩
      · exact stuck_digits1 hread
      · cases hpure
    · cases h
  · cases h

theorem numeral_cases (negative : Bool) (s : List Char) :
    (∃ n rest, numeral negative s = (.number n, some rest)) ∨ ∃ d, numeral negative s = (d, none) ∧ Stuck d := by
  unfold numeral
  dsimp only
  split
  · exact .inl ⟨_, _, rfl⟩
  · next d hread =>
    refine .inr ⟨d, rfl, ?_⟩
    rcases bind_eq_error.mp hread with hread | ⟨_, -, hread⟩
    · exact stuck_whole hread
    rcases bind_eq_error.mp hread with hread | ⟨_, -, hread⟩
    · exact stuck_fraction hread
    rcases bind_eq_error.mp hread with hread | ⟨_, -, hread⟩
    · exact stuck_exponent hread
    · cases hread

end Draft

end Json

end DirectorySearch
