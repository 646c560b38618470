import DirectorySearch.Proofs.GrammarRules

/-! The reader of filters runs the rules of the grammar as parsing expressions. What it finds is what the run takes,
    and the offset it reaches is the furthest at which the run failed to match a rule. So the rules take a whole text
    with choices in their order exactly when it has a derivation, where no order counts. -/

namespace DirectorySearch

open Token

/-! ### Attempts as runs -/

namespace Reader

open Peg Grammar

/-- The attempt is what the expression does at this place: it goes on where the run goes on, and it reaches as far as
    the furthest rule that the run failed to match. -/
inductive Performs {α : Type} (a : Attempt α) (e : Peg Rule) (pos : Nat) (s : List Char) : Prop where
  | finds {f : Found α} {w : List Char} {log : List Nat} (hfound : a.found = some f) (hpos : f.pos = pos + w.length)
    (hreach : a.reach = furthest log) (hrun : Runs rules e pos s (some (w, f.rest)) log)
  | fails {log : List Nat} (hfound : a.found = none) (hreach : a.reach = furthest log)
    (hrun : Runs rules e pos s none log)

variable {pos : Nat} {s : List Char}

/-! ### Failures at one place -/

/-- The expression fails, and no rule was missed further on than here. -/
def FailsHere (e : Peg Rule) (pos : Nat) (s : List Char) : Prop :=
  ∃ log, furthest log = pos ∧ Runs rules e pos s none log

theorem FailsHere.performs {α : Type} {e : Peg Rule} (h : FailsHere e pos s) :
    Performs (.failed pos : Attempt α) e pos s := by
  obtain ⟨log, hlog, hrun⟩ := h
  exact .fails rfl hlog.symm hrun

theorem FailsHere.choice {e f : Peg Rule} (he : FailsHere e pos s) (hf : FailsHere f pos s) :
    FailsHere (.choice e f) pos s := by
  obtain ⟨log, hlog, hrun⟩ := he
  obtain ⟨log', hlog', hrun'⟩ := hf
  exact ⟨_, by rw [furthest_append, hlog, hlog', Nat.max_self], .second hrun hrun'⟩

theorem failsHere_of_mark {r : Rule} {mark : Char} {e : Peg Rule} (hr : rules r = .seq (.literal [mark]) e)
    (h : s.head? ≠ some mark) : FailsHere (.rule r) pos s := by
  have hmark : ¬[mark] <+: s := fun ⟨t, ht⟩ => h (by rw [← ht]; rfl)
  exact ⟨[pos], Nat.max_zero _, .rule_fails (hr ▸ .seq_fails (.literal_fails hmark))⟩

theorem failsHere_of_attr {r : Rule} {e : Peg Rule} (hr : rules r = .seq (.rule .attr) e) (h : attribute? s = none) :
    FailsHere (.rule r) pos s :=
  ⟨[pos, pos], by simp, .rule_fails (hr ▸ .seq_fails (runs_attr_fails h))⟩

/-! ### Items -/

theorem attr_runs {attr : String} {p : Nat} {rest : List Char} (h : Reader.attr pos s = some ⟨attr, p, rest⟩) :
    ∃ w, p = pos + w.length ∧ Runs rules (.rule .attr) pos s (some (w, rest)) [] := by
  unfold Reader.attr at h
  split at h
  · next word left hattr =>
    cases h
    exact ⟨word, rfl, runs_attr hattr⟩
  · cases h

theorem attribute?_eq_none (h : Reader.attr pos s = none) : attribute? s = none := by
  unfold Reader.attr at h
  split at h
  · cases h
  · next hattr => exact hattr

theorem performs_present (pos : Nat) (s : List Char) : Performs (present pos s) (.rule .present) pos s := by
  unfold present
  split
  · next attr p rest hattr =>
    obtain ⟨w, rfl, hrun⟩ := attr_runs hattr
    have hbody : Runs rules (rules .present) pos s _ _ :=
      .seq hrun (.seq (.literal rfl) (.seq (.literal rfl) (.ahead (s := ')' :: rest) ⟨rest, rfl⟩)))
    exact .finds rfl (by simp [Nat.add_assoc]) rfl (.rule hbody)
  · next hnone =>
    cases hattr : Reader.attr pos s with
    | none => exact (failsHere_of_attr rfl (attribute?_eq_none hattr)).performs
    | some f =>
      obtain ⟨attr, p, rest⟩ := f
      obtain ⟨w, rfl, hrun⟩ := attr_runs hattr
      have hstar : Runs rules (.seq (.literal ['=']) (.seq (.literal ['*']) (.ahead [')']))) (pos + w.length) rest none [] :=
        .behind_fails fun r hr => .behind_fails fun t ht => .ahead_fails fun ⟨u, hu⟩ =>
          hnone attr (pos + w.length) u (by rw [hattr, hr, ht, ← hu]; rfl)
      exact .fails rfl (by simp [Attempt.failed]) (.rule_fails (.seq_fails_after hrun hstar))

theorem runs_pieces (fuel pos : Nat) (s : List Char) (hfuel : s.length ≤ fuel) : ∃ w log,
    (pieces fuel pos s).pos = pos + w.length ∧ (pieces fuel pos s).reach = furthest log ∧
      Runs rules tail pos s (some (w, (pieces fuel pos s).rest)) log := by
  have hnone {pos : Nat} {s rest : List Char} (hvalue : value s = ([], rest)) :
      Runs rules tail pos s (some ([], s)) [pos, pos] :=
    .seq (.stop (.seq_fails (runs_value_fails hvalue))) (.second (runs_value_fails hvalue) (.literal rfl))
  fun_induction pieces fuel pos s with
  | case1 pos s =>
    obtain rfl := List.length_eq_zero_iff.mp (Nat.le_zero.mp hfuel)
    exact ⟨[], _, rfl, by simp, hnone rfl⟩
  | case2 fuel pos s rest hvalue => exact ⟨[], _, rfl, by simp, hnone hvalue⟩
  | case3 fuel pos s word rest hne hvalue next ih =>
    have hlength : rest.length ≤ fuel := by
      obtain ⟨rfl, -⟩ := value_eq hvalue
      simp only [List.length_append, List.length_cons] at hfuel
      omega
    obtain ⟨w, log, hpos, hreach, hrun⟩ := ih hlength
    have hfirst : Runs rules (.seq (.rule .value) (.rule .star)) pos s _ _ := .seq (runs_value hvalue hne) runs_star
    refine ⟨_, _, ?_, hreach, .more_seq hfirst (by simp [Nat.add_assoc]) hrun⟩
    rw [hpos]
    simp only [List.length_append, List.length_singleton, Nat.add_assoc]
  | case4 fuel pos s word rest hne hstar hvalue =>
    have hmany : Runs rules (.many (.seq (.rule .value) (.rule .star))) pos s _ _ :=
      .stop (.seq_fails_after (runs_value hvalue hne) (runs_star_fails hstar))
    exact ⟨word, _, rfl, by simp, .seq hmany (.first (runs_value hvalue hne))⟩

theorem performs_substrings (pos : Nat) (s : List Char) : Performs (substrings pos s) (.rule .substring) pos s := by
  unfold substrings
  split
  · next attr p rest hattr =>
    obtain ⟨w, rfl, hrun⟩ := attr_runs hattr
    split
    · next rest' hvalue =>
      obtain ⟨v, log, hpos, hreach, htail⟩ := runs_pieces rest'.length (pos + w.length + 2) rest' (Nat.le_refl _)
      obtain ⟨rfl, -⟩ := value_eq hvalue
      have hbody : Runs rules (rules .substring) pos s _ _ :=
        .seq hrun (.seq (.literal rfl) (.seq (.second (runs_value_fails hvalue) (.literal rfl)) (.seq runs_star htail)))
      refine .finds rfl ?_ ?_ (.rule hbody)
      · simp only [hpos, List.length_append, List.length_cons, List.length_nil]
        omega
      · simp [hreach]
    · next left hstar hvalue =>
      obtain ⟨rfl, -⟩ := value_eq hvalue
      refine .fails rfl ?_ (.rule_fails (.seq_fails_after hrun (.seq_fails_after (.literal rfl) (.seq_fails_after
        (.second (runs_value_fails hvalue) (.literal rfl)) (.seq_fails (runs_star_fails hstar))))))
      simp only [Attempt.failed, furthest_cons, furthest_append, furthest_nil, List.length_cons, List.length_nil]
      omega
    · next word rest' hne hvalue =>
      obtain ⟨v, log, hpos, hreach, htail⟩ := runs_pieces rest'.length (pos + w.length + word.length + 2) rest' (Nat.le_refl _)
      have hoffset : pos + w.length + word.length + 2 = pos + w.length + ['='].length + word.length + ['*'].length := by
        simp only [List.length_cons, List.length_nil]
        omega
      generalize pieces rest'.length (pos + w.length + word.length + 2) rest' = next at hpos hreach htail ⊢
      rw [hoffset] at htail
      have hbody : Runs rules (rules .substring) pos s _ _ :=
        .seq hrun (.seq (.literal rfl) (.seq (.first (runs_value hvalue hne)) (.seq runs_star htail)))
      refine .finds rfl ?_ ?_ (.rule hbody)
      · simp only [hpos, List.length_append, List.length_cons, List.length_nil]
        omega
      · simp [hreach]
    · next word left hne hstar hvalue =>
      refine .fails rfl ?_ (.rule_fails (.seq_fails_after hrun (.seq_fails_after (.literal rfl) (.seq_fails_after
        (.first (runs_value hvalue hne)) (.seq_fails (runs_star_fails hstar))))))
      simp only [Attempt.failed, furthest_cons, furthest_append, furthest_nil, List.length_cons, List.length_nil]
      omega
  · next hnone =>
    cases hattr : Reader.attr pos s with
    | none => exact (failsHere_of_attr rfl (attribute?_eq_none hattr)).performs
    | some f =>
      obtain ⟨attr, p, rest⟩ := f
      obtain ⟨w, rfl, hrun⟩ := attr_runs hattr
      have hequals : ¬['='] <+: rest := fun ⟨r, hr⟩ => hnone attr (pos + w.length) r (by rw [hattr, ← hr]; rfl)
      exact .fails rfl (by simp [Attempt.failed]) (.rule_fails (.seq_fails_after hrun (.seq_fails (.literal_fails hequals))))

theorem performs_comparison (pos : Nat) (s : List Char) : Performs (comparison pos s) (.rule .simple) pos s := by
  unfold comparison
  split
  · next attr p rest hattr =>
    obtain ⟨w, rfl, hrun⟩ := attr_runs hattr
    split
    · next relation rest' hrelation =>
      obtain ⟨log, hvalue, hreach⟩ := runs_optional_value (pos + w.length + relation.symbol.length) rest'
      have hbody : Runs rules (rules .simple) pos s _ _ := .seq hrun (.seq (runs_relation hrelation) hvalue)
      refine .finds rfl ?_ ?_ (.rule hbody)
      · simp only [List.length_append]
        omega
      · simp [hreach]
    · next hrelation =>
      refine .fails rfl ?_ (.rule_fails (.seq_fails_after hrun (.seq_fails (runs_relation_fails hrelation))))
      simp [Attempt.failed]
  · next hattr => exact (failsHere_of_attr rfl (attribute?_eq_none hattr)).performs

theorem Performs.orElse {α : Type} {a : Attempt α} {b : Unit → Attempt α} {e f : Peg Rule} (ha : Performs a e pos s)
    (hb : Performs (b ()) f pos s) : Performs (a.orElse b) (.choice e f) pos s := by
  cases ha with
  | finds hfound hpos hreach hrun =>
    have horElse : a.orElse b = a := by simp only [Attempt.orElse, hfound]
    rw [horElse]
    exact .finds hfound hpos hreach (.first hrun)
  | fails hfound hreach hrun =>
    have horElse : a.orElse b = ⟨max a.reach (b ()).reach, (b ()).found⟩ := by simp only [Attempt.orElse, hfound]
    rw [horElse]
    cases hb with
    | finds hfound' hpos' hreach' hrun' => exact .finds hfound' hpos' (by simp [hreach, hreach']) (.second hrun hrun')
    | fails hfound' hreach' hrun' => exact .fails hfound' (by simp [hreach, hreach']) (.second hrun hrun')

theorem performs_item (pos : Nat) (s : List Char) : Performs (item pos s) anyItem pos s :=
  (performs_present pos s).orElse ((performs_substrings pos s).orElse (performs_comparison pos s))

/-! ### Components -/

/-- No attribute starts with the mark of a group or a negation. -/
theorem anyItem_failsHere {mark : Char} (halpha : mark.isAlpha = false) (hdigit : mark.isDigit = false) :
    FailsHere anyItem pos (mark :: s) := by
  have hattr : attribute? (mark :: s) = none := by simp [attribute?, halpha, hdigit]
  exact (failsHere_of_attr rfl hattr).choice ((failsHere_of_attr rfl hattr).choice (failsHere_of_attr rfl hattr))

theorem Attempt.after_after {α : Type} (a : Attempt α) : (a.after pos).after pos = a.after pos := by
  simp [Attempt.after]

section
variable {α : Type} {a : Attempt α} {d e f : Peg Rule}

theorem Performs.first (ha : Performs a e pos s) (hsome : a.found.isSome = true) : Performs a (.choice e f) pos s := by
  cases ha with
  | finds hfound hpos hreach hrun => exact .finds hfound hpos hreach (.first hrun)
  | fails hfound _ _ => simp [hfound] at hsome

theorem Performs.before (ha : Performs a e pos s) (hnone : a.found = none) (hf : FailsHere f pos s) :
    Performs (a.after pos) (.choice e f) pos s := by
  obtain ⟨log', hlog', hrun'⟩ := hf
  cases ha with
  | finds hfound _ _ _ => simp [hfound] at hnone
  | fails hfound hreach hrun =>
    refine .fails hfound ?_ (.second hrun hrun')
    rw [furthest_append, hlog', Nat.max_comm, Attempt.after, hreach]

theorem Performs.after (hd : FailsHere d pos s) (ha : Performs a e pos s) : Performs (a.after pos) (.choice d e) pos s := by
  obtain ⟨log', hlog', hrun'⟩ := hd
  cases ha with
  | finds hfound hpos hreach hrun =>
    refine .finds hfound hpos ?_ (.second hrun' hrun)
    rw [furthest_append, hlog', Attempt.after, hreach]
  | fails hfound hreach hrun =>
    refine .fails hfound ?_ (.second hrun' hrun)
    rw [furthest_append, hlog', Attempt.after, hreach]

/-- All but one of the choices fail here. -/
theorem Performs.only (hd : FailsHere d pos s) (ha : Performs a e pos s) (hf : FailsHere f pos s) :
    Performs (a.after pos) (.choice d (.choice e f)) pos s := by
  cases hfound : a.found with
  | none =>
    rw [← Attempt.after_after]
    exact .after hd (ha.before hfound hf)
  | some found => exact .after hd (ha.first (by rw [hfound]; rfl))

end

theorem Performs.close {a : Attempt RawFilter} (h : Performs a inner (pos + 1) s) :
    Performs (a.close pos) (.rule .component) pos ('(' :: s) := by
  cases h with
  | @finds f w log hfound hpos hreach hrun =>
    by_cases hclose : ∃ r, f.rest = ')' :: r
    · obtain ⟨r, hr⟩ := hclose
      obtain ⟨tree, p, rest⟩ := f
      subst hr
      have heq : a.close pos = ⟨a.reach, some ⟨tree, p + 1, r⟩⟩ := by simp only [Attempt.close, hfound]
      have hbody : Runs rules (rules .component) pos ('(' :: s) _ _ :=
        .seq (.literal rfl) (.seq hrun (.literal rfl))
      rw [heq]
      refine .finds rfl ?_ (by simp [hreach]) (.rule hbody)
      simp only [List.length_append, List.length_cons, List.length_nil] at hpos ⊢
      omega
    · have heq : a.close pos = .failed (max pos a.reach) := by
        unfold Attempt.close
        split
        · next tree p r hfound' =>
          rw [hfound] at hfound'
          cases hfound'
          exact absurd ⟨r, rfl⟩ hclose
        · rfl
      have hparen : ¬[')'] <+: f.rest := by
        rintro ⟨r, hr⟩
        exact hclose ⟨r, hr.symm⟩
      rw [heq]
      exact .fails rfl (by simp [Attempt.failed, hreach])
        (.rule_fails (.seq_fails_after (.literal rfl) (.seq_fails_after hrun (.literal_fails hparen))))
  | fails hfound hreach hrun =>
    have heq : a.close pos = .failed (max pos a.reach) := by simp only [Attempt.close, hfound]
    rw [heq]
    exact .fails rfl (by simp [Attempt.failed, hreach]) (.rule_fails (.seq_fails_after (.literal rfl) (.seq_fails hrun)))

/-- The row is what a repetition of components does. Where the first of them fails there are no parts. -/
inductive Row.Performs (row : Row) (pos : Nat) (s : List Char) : Prop where
  | misses {log : List Nat} (hparts : row.parts = []) (hpos : row.pos = pos) (hrest : row.rest = s)
    (hreach : row.reach = furthest log) (hrun : Runs rules (.rule .component) pos s none log)
  | takes {w : List Char} {log : List Nat} (hparts : row.parts ≠ []) (hpos : row.pos = pos + w.length)
    (hreach : row.reach = furthest log) (hrun : Runs rules (.many1 (.rule .component)) pos s (some (w, row.rest)) log)

theorem Row.Performs.many {row : Row} (h : row.Performs pos s) : ∃ w log, row.pos = pos + w.length ∧
    row.reach = furthest log ∧ Runs rules (.many (.rule .component)) pos s (some (w, row.rest)) log := by
  cases h with
  | misses _ hpos hrest hreach hrun =>
    rw [hrest]
    exact ⟨[], _, hpos, hreach, .stop hrun⟩
  | takes _ hpos hreach hrun =>
    cases hrun with
    | seq hfirst hmore => exact ⟨_, _, hpos, hreach, .more hfirst hmore⟩

theorem Row.Performs.group {row : Row} {r : Rule} {mark : Char} (h : row.Performs (pos + 1) s)
    (hr : rules r = .seq (.literal [mark]) (.many1 (.rule .component))) (make : List RawFilter → RawFilter) :
    Reader.Performs (row.group make) (.rule r) pos (mark :: s) := by
  cases h with
  | @misses log hparts _ _ hreach hrun =>
    have heq : row.group make = .failed row.reach := by simp only [Row.group, hparts]
    have hbody : Runs rules (rules r) pos (mark :: s) none log := by
      rw [hr]
      exact .seq_fails_after (.literal rfl) (.seq_fails hrun)
    have hle := hrun.le_furthest
    rw [heq]
    refine .fails rfl ?_ (.rule_fails hbody)
    rw [Attempt.failed, hreach, furthest_cons, Nat.max_eq_right (by omega)]
  | @takes w log hparts hpos hreach hrun =>
    have hbody : Runs rules (rules r) pos (mark :: s) (some (mark :: w, row.rest)) log := by
      rw [hr]
      exact .seq (.literal rfl) hrun
    have hgroup : (row.group make).reach = row.reach := by
      unfold Row.group
      split <;> rfl
    refine .finds (found_group hparts) ?_ (hgroup.trans hreach) (.rule hbody)
    simp only [hpos, List.length_cons]
    omega

theorem performs_not {a : Attempt RawFilter} (h : Performs a (.rule .component) (pos + 1) s) :
    Performs (α := RawFilter) ⟨a.reach, a.found.map fun f => ⟨.not f.value, f.pos, f.rest⟩⟩ (.rule .not) pos ('!' :: s) := by
  cases h with
  | @finds f _ _ hfound hpos hreach hrun =>
    have hbody : Runs rules (rules .not) pos ('!' :: s) _ _ := .seq (.literal rfl) hrun
    refine .finds (f := ⟨.not f.value, f.pos, f.rest⟩) (by rw [hfound]; rfl) ?_ hreach (.rule hbody)
    simp only [hpos, List.length_append, List.length_singleton, Nat.add_assoc]
  | fails hfound hreach hrun =>
    have hle := hrun.le_furthest
    refine .fails (by rw [hfound]; rfl) ?_ (.rule_fails (.seq_fails_after (.literal rfl) hrun))
    rw [List.nil_append, furthest_cons, hreach, Nat.max_eq_right (by omega)]

theorem performs_unopened (h : s.head? ≠ some '(') (fuel pos : Nat) :
    Performs (component fuel pos s) (.rule .component) pos s := by
  rw [component_of_not_open h]
  exact (failsHere_of_mark rfl h).performs

theorem performs_unmarked (h : Unmarked s) (fuel pos : Nat) :
    Performs (component (fuel + 1) pos ('(' :: s)) (.rule .component) pos ('(' :: s) := by
  have hand : FailsHere (.rule .and) (pos + 1) s := failsHere_of_mark rfl fun hc => (h _ hc).1 rfl
  have hor : FailsHere (.rule .or) (pos + 1) s := failsHere_of_mark rfl fun hc => (h _ hc).2.1 rfl
  have hnot : FailsHere (.rule .not) (pos + 1) s := failsHere_of_mark rfl fun hc => (h _ hc).2.2 rfl
  have hinner : Performs _ inner (pos + 1) s := .after hand (.after hor (.after hnot (performs_item (pos + 1) s)))
  rw [Attempt.after_after, Attempt.after_after] at hinner
  rw [component_of_unmarked h]
  exact hinner.close

theorem performs_and {fuel : Nat} (h : (components fuel (pos + 2) s).Performs (pos + 2) s) :
    Performs (component (fuel + 1) pos ('(' :: '&' :: s)) (.rule .component) pos ('(' :: '&' :: s) := by
  have hgroup := h.group (r := .and) rfl .and
  have hor : FailsHere (.rule .or) (pos + 1) ('&' :: s) := failsHere_of_mark rfl (by simp)
  have hnot : FailsHere (.rule .not) (pos + 1) ('&' :: s) := failsHere_of_mark rfl (by simp)
  have hitem : FailsHere anyItem (pos + 1) ('&' :: s) := anyItem_failsHere (by decide) (by decide)
  rw [component]
  apply Performs.close
  -- A group that is found is the first choice, and no other is tried.
  split
  · next hsome => exact hgroup.first hsome
  · next hnone => exact hgroup.before (by simpa using hnone) (hor.choice (hnot.choice hitem))

theorem performs_or {fuel : Nat} (h : (components fuel (pos + 2) s).Performs (pos + 2) s) :
    Performs (component (fuel + 1) pos ('(' :: '|' :: s)) (.rule .component) pos ('(' :: '|' :: s) := by
  have hgroup := h.group (r := .or) rfl .or
  have hand : FailsHere (.rule .and) (pos + 1) ('|' :: s) := failsHere_of_mark rfl (by simp)
  have hnot : FailsHere (.rule .not) (pos + 1) ('|' :: s) := failsHere_of_mark rfl (by simp)
  have hitem : FailsHere anyItem (pos + 1) ('|' :: s) := anyItem_failsHere (by decide) (by decide)
  rw [component]
  exact (Performs.only hand hgroup (hnot.choice hitem)).close

theorem performs_negation {fuel : Nat} (h : Performs (component fuel (pos + 2) s) (.rule .component) (pos + 2) s) :
    Performs (component (fuel + 1) pos ('(' :: '!' :: s)) (.rule .component) pos ('(' :: '!' :: s) := by
  have hand : FailsHere (.rule .and) (pos + 1) ('!' :: s) := failsHere_of_mark rfl (by simp)
  have hor : FailsHere (.rule .or) (pos + 1) ('!' :: s) := failsHere_of_mark rfl (by simp)
  have hitem : FailsHere anyItem (pos + 1) ('!' :: s) := anyItem_failsHere (by decide) (by decide)
  have hinner : Performs _ inner (pos + 1) ('!' :: s) := .after hand (.only hor (performs_not h) hitem)
  rw [Attempt.after_after] at hinner
  rw [component]
  exact hinner.close

mutual

/-- A component is read as its rule is run. Induction is on the fuel, which never runs out before the text does. -/
theorem performs_component : ∀ (fuel pos : Nat) (s : List Char), s.length ≤ fuel →
    Performs (component fuel pos s) (.rule .component) pos s
  | 0, pos, s, hfuel => by
    obtain rfl := List.length_eq_zero_iff.mp (Nat.le_zero.mp hfuel)
    exact performs_unopened (by simp) 0 pos
  | fuel + 1, pos, s, hfuel => by
    by_cases hopen : s.head? ≠ some '('
    · exact performs_unopened hopen (fuel + 1) pos
    obtain ⟨r, rfl⟩ := List.head?_eq_some_iff.mp (not_not.mp hopen)
    by_cases hmark : Unmarked r
    · exact performs_unmarked hmark fuel pos
    obtain ⟨mark, r, rfl⟩ : ∃ mark r', r = mark :: r' := by
      cases r with
      | nil => exact absurd (fun _ hc => by cases hc) hmark
      | cons mark r => exact ⟨mark, r, rfl⟩
    have hshorter : r.length < fuel := by
      simp only [List.length_cons] at hfuel
      omega
    by_cases hand : mark = '&'
    · subst hand
      exact performs_and (performs_components fuel (pos + 2) r hshorter)
    by_cases hor : mark = '|'
    · subst hor
      exact performs_or (performs_components fuel (pos + 2) r hshorter)
    obtain rfl : mark = '!' := Decidable.byContradiction fun hnot => hmark fun c hc => by
      cases hc
      exact ⟨hand, hor, hnot⟩
    exact performs_negation (performs_component fuel (pos + 2) r (Nat.le_of_lt hshorter))

theorem performs_components : ∀ (fuel pos : Nat) (s : List Char), s.length < fuel →
    (components fuel pos s).Performs pos s
  | 0, _, _, hfuel => absurd hfuel (Nat.not_lt_zero _)
  | fuel + 1, pos, s, hfuel => by
    rw [components]
    cases performs_component fuel pos s (Nat.le_of_lt_succ hfuel) with
    | fails hfound hreach hrun =>
      simp only [hfound]
      exact .misses rfl rfl rfl hreach hrun
    | @finds f w log hfound hpos hreach hrun =>
      have hshorter : f.rest.length < fuel := by
        obtain ⟨htext, -⟩ := component_eq fuel pos s hfound
        obtain ⟨r, hr⟩ := RawFilter.text_eq_cons f.value
        rw [htext, hr] at hfuel
        simp only [List.length_append, List.length_cons] at hfuel
        omega
      obtain ⟨v, log', hpos', hreach', hmany⟩ := (performs_components fuel f.pos f.rest hshorter).many
      simp only [hfound]
      generalize components fuel f.pos f.rest = next at hpos' hreach' hmany ⊢
      rw [hpos] at hmany
      refine .takes (by simp) ?_ ?_ (.seq hrun hmany)
      · rw [List.length_append, hpos', hpos, Nat.add_assoc]
      · rw [furthest_append, hreach, hreach']

end

/-! ### Whole texts -/

/-- The whole grammar is run as a text is read. It takes all of a text that is accepted; and where a text is refused it
    fails, and that is reported at the furthest offset that it leaves. -/
theorem runs_filter (s : List Char) :
    (∃ t log, Reader.filter s = .ok t ∧ Runs rules (.rule .filter) 0 s (some (s, [])) log) ∨
      ∃ log, Reader.filter s = .error (furthest log) ∧ Runs rules (.rule .filter) 0 s none log := by
  unfold Reader.filter
  cases performs_component s.length 0 s (Nat.le_refl _) with
  | @finds f w log hfound hpos hreach hrun =>
    obtain ⟨tree, q, rest⟩ := f
    simp only [hfound]
    cases rest with
    | nil =>
      have hbody : Runs rules (rules .filter) 0 s (some (w ++ [], [])) (log ++ []) := .seq hrun (.rule .ending)
      rw [← hrun.eq_append] at hbody
      exact .inl ⟨tree, _, rfl, .rule hbody⟩
    | cons c rest =>
      have hq : q = 0 + w.length := hpos
      refine .inr ⟨_, ?_, .rule_fails (.seq_fails_after hrun (.rule_fails .ending_fails))⟩
      rw [furthest_cons, furthest_append, furthest_cons, ← hreach, ← hq]
      simp
  | @fails log hfound hreach hrun =>
    simp only [hfound]
    exact .inr ⟨_, by rw [furthest_cons, ← hreach, Nat.zero_max], .rule_fails (.seq_fails hrun)⟩

theorem runs_filter_of_error {s : List Char} {p : Nat} (h : Reader.filter s = .error p) :
    ∃ log, Runs rules (.rule .filter) 0 s none log ∧ furthest log = p := by
  rcases runs_filter s with ⟨t, log, hok, -⟩ | ⟨log, herror, hrun⟩
  · rw [hok] at h
    cases h
  · exact ⟨log, hrun, Except.error.inj (herror.symm.trans h)⟩

/-- The rules take a whole text exactly when it is accepted. -/
theorem runs_filter_iff {s : List Char} :
    (∃ log, Runs rules (.rule .filter) 0 s (some (s, [])) log) ↔ ∃ t, Reader.filter s = .ok t := by
  rcases runs_filter s with ⟨t, log, hok, hrun⟩ | ⟨log, herror, hfails⟩
  · exact iff_of_true ⟨log, hrun⟩ ⟨t, hok⟩
  · constructor
    · rintro ⟨log', hrun⟩
      cases (hrun.unique hfails).1
    · rintro ⟨t, hok⟩
      rw [herror] at hok
      cases hok

end Reader

/-! ### Derivations -/

namespace Grammar

open Peg

/-- A text is accepted exactly when it has a derivation, and the rules take it, with choices in their order and with
    greed, exactly then too. Every derivation of it shows, once resolved, what is read; and its derivations are those
    that are the same once resolved. -/
theorem accepts_iff_derives (s : String) :
    ((∃ t, Reader.filter s.toList = .ok t) ↔ ∃ d : Component, d.text = s.toList) ∧
      ((∃ log, Runs rules (.rule .filter) 0 s.toList (some (s.toList, [])) log) ↔ ∃ d : Component, d.text = s.toList) ∧
      ∀ d : Component, d.text = s.toList →
        Filter.parse s = d.resolve.tree.traverse Reader.decode ∧
          ∀ d' : Component, d'.text = s.toList ↔ d'.resolve = d.resolve := by
  have haccepts : (∃ t, Reader.filter s.toList = .ok t) ↔ ∃ d : Component, d.text = s.toList := by
    constructor
    · rintro ⟨t, ht⟩
      exact Component.exists_text_of_filter ht
    · rintro ⟨d, hd⟩
      exact ⟨d.resolve.tree, hd ▸ d.filter_eq⟩
  refine ⟨haccepts, Reader.runs_filter_iff.trans haccepts, ?_⟩
  intro d hd
  constructor
  · rw [Filter.parse, ← hd, d.filter_eq]
  · intro d'
    rw [← hd, Component.text_eq_iff]

/-- A lone star has two derivations, and is read as a presence. -/
theorem accepts_iff_derives_star :
    let cn : Attr := ⟨.descr ⟨⟨'c', rfl⟩, [⟨'n', rfl⟩]⟩, []⟩
    (Component.present cn).text = "(cn=*)".toList ∧ (Component.substring cn none [] none).text = "(cn=*)".toList ∧
      Filter.parse "(cn=*)" = .ok (.present "cn") ∧
      ∃ log, Runs rules (.rule .filter) 0 "(cn=*)".toList (some ("(cn=*)".toList, [])) log := by
  intro cn
  have hpresent : (Component.present cn).text = "(cn=*)".toList := by decide
  obtain ⟨-, hruns, hderives⟩ := accepts_iff_derives "(cn=*)"
  obtain ⟨hparse, hiff⟩ := hderives (.present cn) hpresent
  refine ⟨hpresent, (hiff (.substring cn none [] none)).mpr rfl, hparse.trans ?_, hruns.mpr ⟨.present cn, hpresent⟩⟩
  have hattr : String.ofList cn.text = "cn" := by decide
  simp only [Component.resolve, Component.tree, hattr, FilterTree.traverse]
  rfl

end Grammar

end DirectorySearch
