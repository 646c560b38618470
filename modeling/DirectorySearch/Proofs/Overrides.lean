import DirectorySearch.Proofs.Except
import DirectorySearch.Settings.Basic

/-! What the variables make of settings. A variable has one setting, and its text spells a value of that setting or
    none. The variables before the first that spells none are followed, and everything else is left as it was; so
    to follow two sets of variables, one after the other, is to follow at once what the second says and else the
    first. -/

namespace DirectorySearch

/-! ### Names of choices -/

/-- Where every choice is listed and no two have one name, the choice with a name is found. -/
theorem find?_name_eq_some_iff {α : Type} {choices : List α} {name : α → String} (hall : ∀ x, x ∈ choices)
    (hname : ∀ x y, name x = name y → x = y) {s : String} {x : α} :
    choices.find? (name · == s) = some x ↔ name x = s := by
  constructor
  · intro h
    exact beq_iff_eq.mp (List.find?_some (p := (name · == s)) h)
  · intro hx
    cases hfound : choices.find? (name · == s) with
    | none => exact absurd (beq_iff_eq.mpr hx) (List.find?_eq_none.mp hfound x (hall x))
    | some y =>
      have hy : name y = s := beq_iff_eq.mp (List.find?_some (p := (name · == s)) hfound)
      rw [hname x y (hx.trans hy.symm)]

theorem LogFormat.parse_eq_ok_iff {text : String} {format : LogFormat} :
    parse text = .ok format ↔ format.name = Text.asciiLower text := by
  have hfound : ofName? (Text.asciiLower text) = some format ↔ _ :=
    find?_name_eq_some_iff (by rintro ⟨⟩ <;> simp [all]) (by rintro ⟨⟩ ⟨⟩ <;> simp [name])
  rw [← hfound, parse]
  cases ofName? (Text.asciiLower text) <;> simp

theorem LogOutput.parse_eq_ok_iff {text : String} {output : LogOutput} :
    parse text = .ok output ↔ output.name = Text.asciiLower text := by
  have hfound : ofName? (Text.asciiLower text) = some output ↔ _ :=
    find?_name_eq_some_iff (by rintro ⟨⟩ <;> simp [all]) (by rintro ⟨⟩ ⟨⟩ <;> simp [name])
  rw [← hfound, parse]
  cases ofName? (Text.asciiLower text) <;> simp

theorem UnsearchablePolicy.parse_eq_ok_iff {text : String} {policy : UnsearchablePolicy} :
    parse text = .ok policy ↔ policy.name = Text.asciiLower text := by
  unfold parse
  split <;> cases policy <;> simp_all [name, eq_comm (b := Text.asciiLower text)]

/-- The names of a scope, in lower case. -/
def SearchScope.spellings : SearchScope → List String
  | .base => ["base", "object"]
  | .oneLevel => ["one_level", "onelevel", "one"]
  | .subtree => ["subtree", "sub"]

theorem SearchScope.parse_eq_ok_iff {text : String} {scope : SearchScope} :
    parse text = .ok scope ↔ Text.asciiLower text ∈ scope.spellings := by
  unfold parse
  split <;> cases scope <;> simp_all [spellings]

namespace Settings

/-- The words for yes and no, in lower case. -/
def flagSpellings : Bool → List String
  | true => ["1", "true", "yes", "on"]
  | false => ["0", "false", "no", "off"]

theorem flag?_eq_some_iff {text : String} {flag : Bool} :
    flag? text = some flag ↔ Text.asciiLower (.ofList (Text.trim text.toList)) ∈ flagSpellings flag := by
  unfold flag?
  split <;> cases flag <;> simp_all [flagSpellings]

/-! ### Settings by their variables -/

/-- What a variable sets. -/
abbrev Variable.Value : Variable → Type
  | .searchScope => SearchScope
  | .unsearchableColumns => UnsearchablePolicy
  | .restrictToObjectClass => Bool
  | .logLevel => String
  | .logFormat => LogFormat
  | .logOutput => LogOutput
  | .logDirectory => String

/-- The value that a text spells for a variable. The names of choices are in any case. -/
def Variable.Spells : (v : Variable) → String → v.Value → Prop
  | .searchScope, text, scope => Text.asciiLower text ∈ SearchScope.spellings scope
  | .unsearchableColumns, text, policy => UnsearchablePolicy.name policy = Text.asciiLower text
  | .restrictToObjectClass, text, flag => Text.asciiLower (.ofList (Text.trim text.toList)) ∈ flagSpellings flag
  | .logLevel, text, level => level = text
  | .logFormat, text, format => LogFormat.name format = Text.asciiLower text
  | .logOutput, text, output => LogOutput.name output = Text.asciiLower text
  | .logDirectory, text, directory => directory = text

instance : (v : Variable) → (text : String) → (x : v.Value) → Decidable (v.Spells text x)
  | .searchScope, _, _ => inferInstanceAs (Decidable (_ ∈ SearchScope.spellings _))
  | .unsearchableColumns, _, _ => inferInstanceAs (Decidable (UnsearchablePolicy.name _ = _))
  | .restrictToObjectClass, _, _ => inferInstanceAs (Decidable (_ ∈ flagSpellings _))
  | .logLevel, text, level => inferInstanceAs (Decidable ((level : String) = text))
  | .logFormat, _, _ => inferInstanceAs (Decidable (LogFormat.name _ = _))
  | .logOutput, _, _ => inferInstanceAs (Decidable (LogOutput.name _ = _))
  | .logDirectory, text, directory => inferInstanceAs (Decidable ((directory : String) = text))

def get (s : Settings) : (v : Variable) → v.Value
  | .searchScope => s.search.scope
  | .unsearchableColumns => s.search.unsearchable
  | .restrictToObjectClass => s.search.restrictToObjectClass
  | .logLevel => s.logging.level
  | .logFormat => s.logging.format
  | .logOutput => s.logging.output
  | .logDirectory => s.logging.directory

def put (s : Settings) : (v : Variable) → v.Value → Settings
  | .searchScope, scope => { s with search.scope := scope }
  | .unsearchableColumns, policy => { s with search.unsearchable := policy }
  | .restrictToObjectClass, flag => { s with search.restrictToObjectClass := flag }
  | .logLevel, level => { s with logging.level := level }
  | .logFormat, format => { s with logging.format := format }
  | .logOutput, output => { s with logging.output := output }
  | .logDirectory, directory => { s with logging.directory := directory }

theorem get_put (s : Settings) (v : Variable) (x : v.Value) : (s.put v x).get v = x := by
  cases v <;> rfl

theorem get_put_of_ne (s : Settings) {v w : Variable} (h : w ≠ v) (x : v.Value) : (s.put v x).get w = s.get w := by
  cases v <;> cases w <;> first | rfl | exact absurd rfl h

/-- Settings have no part that is not some variable's. -/
theorem eq_of_get_eq {s t : Settings} (h : ∀ v, s.get v = t.get v) : s = t := by
  obtain ⟨⟨scope, policy, flag⟩, ⟨level, format, output, directory⟩⟩ := s
  obtain ⟨⟨scope', policy', flag'⟩, ⟨level', format', output', directory'⟩⟩ := t
  have hscope : scope = scope' := h .searchScope
  have hpolicy : policy = policy' := h .unsearchableColumns
  have hflag : flag = flag' := h .restrictToObjectClass
  have hlevel : level = level' := h .logLevel
  have hformat : format = format' := h .logFormat
  have houtput : output = output' := h .logOutput
  have hdirectory : directory = directory' := h .logDirectory
  rw [hscope, hpolicy, hflag, hlevel, hformat, houtput, hdirectory]

/-! ### Setting one variable -/

/-- The value that the text of a variable is read as. -/
def Variable.read? : (v : Variable) → String → Option v.Value
  | .searchScope, text => (SearchScope.parse text).toOption
  | .unsearchableColumns, text => (UnsearchablePolicy.parse text).toOption
  | .restrictToObjectClass, text => flag? text
  | .logLevel, text => some text
  | .logFormat, text => (LogFormat.parse text).toOption
  | .logOutput, text => (LogOutput.parse text).toOption
  | .logDirectory, text => some text

theorem Variable.read?_eq_some_iff {v : Variable} {text : String} {x : v.Value} :
    v.read? text = some x ↔ v.Spells text x := by
  cases v with simp only [Variable.read?, Variable.Spells]
  | searchScope => rw [toOption_eq_some, SearchScope.parse_eq_ok_iff]
  | unsearchableColumns => rw [toOption_eq_some, UnsearchablePolicy.parse_eq_ok_iff]
  | restrictToObjectClass => rw [flag?_eq_some_iff]
  | logLevel => rw [Option.some_inj, eq_comm]
  | logFormat => rw [toOption_eq_some, LogFormat.parse_eq_ok_iff]
  | logOutput => rw [toOption_eq_some, LogOutput.parse_eq_ok_iff]
  | logDirectory => rw [Option.some_inj, eq_comm]

theorem toOption_set (s : Settings) (v : Variable) (text : String) :
    (s.set v text).toOption = (v.read? text).map (s.put v) := by
  cases v with simp only [set, Variable.read?]
  | searchScope => cases SearchScope.parse text <;> rfl
  | unsearchableColumns => cases UnsearchablePolicy.parse text <;> rfl
  | restrictToObjectClass => cases flag? text <;> rfl
  | logLevel => rfl
  | logFormat => cases LogFormat.parse text <;> rfl
  | logOutput => cases LogOutput.parse text <;> rfl
  | logDirectory => rfl

/-- A variable is set exactly to what its text spells. -/
theorem set_eq_ok_iff {s t : Settings} {v : Variable} {text : String} :
    s.set v text = .ok t ↔ ∃ x, v.Spells text x ∧ s.put v x = t := by
  simp only [← toOption_eq_some, toOption_set, Option.map_eq_some_iff, Variable.read?_eq_some_iff]

theorem Variable.Spells.unique {v : Variable} {text : String} {x y : v.Value} (hx : v.Spells text x)
    (hy : v.Spells text y) : x = y := by
  rw [← Variable.read?_eq_some_iff] at hx hy
  exact Option.some.inj (hx.symm.trans hy)

section Lookup

variable {lookup : Variable → Option String}

/-- A variable is valid if it is not set, or spells a value. -/
def Valid (lookup : Variable → Option String) (v : Variable) : Prop :=
  ∀ text, lookup v = some text → ∃ x, v.Spells text x

/-- The setting of a variable is what it spells, if it is set, and else what it was before. -/
def Follows (lookup : Variable → Option String) (before after : Settings) (v : Variable) : Prop :=
  (∀ text, lookup v = some text → v.Spells text (after.get v)) ∧ (lookup v = none → after.get v = before.get v)

theorem Follows.of_get_eq {s s' t : Settings} {v : Variable} (h : Follows lookup s' t v) (hget : s'.get v = s.get v) :
    Follows lookup s t v :=
  ⟨h.1, fun hnone => (h.2 hnone).trans hget⟩

/-! ### Setting variables in turn -/

/-- A valid variable is followed, and everything else is kept. -/
theorem setEach_cons_valid {v : Variable} (hv : Valid lookup v) (vs : List Variable) (s : Settings) :
    ∃ t, setEach lookup (v :: vs) s = setEach lookup vs t ∧ Follows lookup s t v ∧ ∀ w ≠ v, t.get w = s.get w := by
  cases hlookup : lookup v with
  | none =>
    refine ⟨s, by rw [setEach, hlookup], ⟨fun text h => ?_, fun _ => rfl⟩, fun _ _ => rfl⟩
    rw [hlookup] at h
    cases h
  | some text =>
    obtain ⟨x, hx⟩ := hv text hlookup
    have hset : s.set v text = .ok (s.put v x) := set_eq_ok_iff.mpr ⟨x, hx, rfl⟩
    refine ⟨s.put v x, by simp only [setEach, hlookup, hset], ⟨fun text' h => ?_, fun h => ?_⟩, fun w hw => ?_⟩
    · rw [hlookup] at h
      cases h
      rwa [get_put]
    · rw [hlookup] at h
      cases h
    · exact get_put_of_ne s hw x

/-- A variable that is not valid stops everything. -/
theorem setEach_cons_invalid {v : Variable} (hv : ¬Valid lookup v) (vs : List Variable) (s : Settings) :
    ∃ reason, setEach lookup (v :: vs) s = (s, some ⟨v, reason⟩) := by
  obtain ⟨text, hlookup, hnone⟩ : ∃ text, ∃ _ : lookup v = some text, ¬∃ x, v.Spells text x := by
    simpa only [Valid, not_forall] using hv
  cases hset : s.set v text with
  | ok t =>
    obtain ⟨x, hx, -⟩ := set_eq_ok_iff.mp hset
    exact absurd ⟨x, hx⟩ hnone
  | error reason => exact ⟨reason, by simp only [setEach, hlookup, hset]⟩

/-- Valid variables are all followed before the others are looked at. -/
theorem setEach_append_valid {vs : List Variable} (hvs : vs.Nodup) (hvalid : ∀ v ∈ vs, Valid lookup v)
    (others : List Variable) (s : Settings) :
    ∃ t, setEach lookup (vs ++ others) s = setEach lookup others t ∧ (∀ v ∈ vs, Follows lookup s t v) ∧
      ∀ w ∉ vs, t.get w = s.get w := by
  induction vs generalizing s with
  | nil => exact ⟨s, rfl, by simp, fun _ _ => rfl⟩
  | cons v vs ih =>
    obtain ⟨hv, hvs⟩ := List.nodup_cons.mp hvs
    obtain ⟨hfirst, hvalid⟩ := List.forall_mem_cons.mp hvalid
    obtain ⟨t, hstep, hfollows, hkept⟩ := setEach_cons_valid hfirst (vs ++ others) s
    obtain ⟨u, hrun, hfollowed, hkept'⟩ := ih hvs hvalid t
    refine ⟨u, hstep.trans hrun, List.forall_mem_cons.mpr ⟨?_, fun w hw => ?_⟩, fun w hw => ?_⟩
    · -- Its setting is none of the later ones, so it stays.
      have hget := hkept' v hv
      exact ⟨fun text h => hget ▸ hfollows.1 text h, fun h => hget.trans (hfollows.2 h)⟩
    · have hne : w ≠ v := fun h => hv (h ▸ hw)
      exact (hfollowed w hw).of_get_eq (hkept w hne)
    · obtain ⟨hne, hw⟩ := not_or.mp (mt List.mem_cons.mpr hw)
      exact (hkept' w hw).trans (hkept w hne)

theorem valid_of_setEach {vs : List Variable} {s : Settings} (h : (setEach lookup vs s).2 = none) :
    ∀ v ∈ vs, Valid lookup v := by
  induction vs generalizing s with
  | nil => simp
  | cons v vs ih =>
    have hv : Valid lookup v := by
      by_contra hv
      obtain ⟨reason, hstop⟩ := setEach_cons_invalid hv vs s
      rw [hstop] at h
      cases h
    obtain ⟨t, hstep, -⟩ := setEach_cons_valid hv vs s
    rw [hstep] at h
    exact List.forall_mem_cons.mpr ⟨hv, ih h⟩

/-! ### All variables -/

theorem Variable.mem_all (v : Variable) : v ∈ all := by
  cases v <;> simp [all]

theorem override_of_valid (c : Settings) (h : ∀ v, Valid lookup v) :
    (c.override lookup).2 = none ∧ ∀ v, Follows lookup c (c.override lookup).1 v := by
  have hnodup : Variable.all.Nodup := by decide
  obtain ⟨t, hrun, hfollows, -⟩ := setEach_append_valid hnodup (fun v _ => h v) [] c
  rw [override, ← List.append_nil Variable.all, hrun, setEach]
  exact ⟨rfl, fun v => hfollows v v.mem_all⟩

theorem valid_of_override {c : Settings} (h : (c.override lookup).2 = none) (v : Variable) : Valid lookup v :=
  valid_of_setEach h v v.mem_all

/-- Up to the first variable that is not valid, variables are followed. -/
theorem override_of_first_invalid (c : Settings) {before after : List Variable} {v : Variable}
    (hall : Variable.all = before ++ v :: after) (hbefore : ∀ w ∈ before, Valid lookup w) (hv : ¬Valid lookup v) :
    (∃ reason, (c.override lookup).2 = some ⟨v, reason⟩) ∧ (∀ w ∈ before, Follows lookup c (c.override lookup).1 w) ∧
      ∀ w ∈ v :: after, (c.override lookup).1.get w = c.get w := by
  have hnodup : (before ++ v :: after).Nodup := hall ▸ by decide
  obtain ⟨hbefore', -, hdisjoint⟩ := List.nodup_append.mp hnodup
  obtain ⟨t, hrun, hfollows, hkept⟩ := setEach_append_valid hbefore' hbefore (v :: after) c
  obtain ⟨reason, hstop⟩ := setEach_cons_invalid hv after t
  rw [override, hall, hrun, hstop]
  exact ⟨⟨reason, rfl⟩, hfollows, fun w hw => hkept w fun hmem => hdisjoint w hmem w hw rfl⟩

/-! ### One set of variables after another -/

variable {lookup' : Variable → Option String}

theorem Valid.or {v : Variable} (h : Valid lookup v) (h' : Valid lookup' v) :
    Valid (fun v => (lookup' v).or (lookup v)) v := by
  intro text htext
  rcases Option.or_eq_some_iff.mp htext with hset | ⟨-, hset⟩
  · exact h' text hset
  · exact h text hset

theorem Follows.trans {s t u : Settings} {v : Variable} (h : Follows lookup s t v) (h' : Follows lookup' t u v) :
    Follows (fun v => (lookup' v).or (lookup v)) s u v := by
  constructor
  · intro text htext
    rcases Option.or_eq_some_iff.mp htext with hset | ⟨hnone, hset⟩
    · exact h'.1 text hset
    · rw [h'.2 hnone]
      exact h.1 text hset
  · intro hnone
    obtain ⟨hnone', hnone⟩ := Option.or_eq_none_iff.mp hnone
    exact (h'.2 hnone').trans (h.2 hnone)

theorem Follows.get_eq {s t u : Settings} {v : Variable} (ht : Follows lookup s t v) (hu : Follows lookup s u v) :
    t.get v = u.get v := by
  cases hlookup : lookup v with
  | none => exact (ht.2 hlookup).trans (hu.2 hlookup).symm
  | some text => exact (ht.1 text hlookup).unique (hu.1 text hlookup)

theorem override_override {c c' : Settings} (h : (c.override lookup).2 = none) (h' : (c'.override lookup').2 = none) :
    (c.override lookup).1.override lookup' = c.override fun v => (lookup' v).or (lookup v) := by
  have hvalid := valid_of_override h
  have hvalid' := valid_of_override h'
  have hboth : ∀ v, Valid (fun v => (lookup' v).or (lookup v)) v := fun v => (hvalid v).or (hvalid' v)
  obtain ⟨-, hfirst⟩ := override_of_valid c hvalid
  obtain ⟨hnone, hsecond⟩ := override_of_valid (c.override lookup).1 hvalid'
  obtain ⟨hnone', honce⟩ := override_of_valid c hboth
  refine Prod.ext (eq_of_get_eq fun v => ?_) (hnone.trans hnone'.symm)
  exact ((hfirst v).trans (hsecond v)).get_eq (honce v)

end Lookup

/-- The variables are looked at in their order. If all that are set spell a value, each setting is what its variable
    spells, or is kept where that is not set. Otherwise the first that spells none is reported; the settings before it
    have followed their variables, and its own and all later ones are kept. So overriding twice is overriding once,
    with the second variables before the first. -/
theorem override_touches_own_settings (c : Settings) (lookup : Variable → Option String) :
    Variable.all.map Variable.name = ["LDAPSQL_SEARCH_SCOPE", "LDAPSQL_UNSEARCHABLE_COLUMNS",
        "LDAPSQL_RESTRICT_TO_OBJECT_CLASS", "RUST_LOG", "LOG_FORMAT", "LOG_OUTPUT", "LOG_DIR"] ∧
      ((∀ v, Valid lookup v) → (c.override lookup).2 = none ∧ ∀ v, Follows lookup c (c.override lookup).1 v) ∧
      (∀ before v after, Variable.all = before ++ v :: after → (∀ w ∈ before, Valid lookup w) → ¬Valid lookup v →
        (∃ reason, (c.override lookup).2 = some ⟨v, reason⟩) ∧
          (∀ w ∈ before, Follows lookup c (c.override lookup).1 w) ∧
          ∀ w ∈ v :: after, (c.override lookup).1.get w = c.get w) ∧
      ∀ (c' : Settings) (lookup' : Variable → Option String),
        (c.override lookup).2 = none → (c'.override lookup').2 = none →
          (c.override lookup).1.override lookup' = c.override fun v => (lookup' v).or (lookup v) := by
  refine ⟨rfl, override_of_valid c, ?_, ?_⟩
  · intro before v after hall hbefore hv
    exact override_of_first_invalid c hall hbefore hv
  · intro c' lookup' h h'
    exact override_override h h'

/-- A format that does not exist, between a scope and a directory. -/
theorem override_touches_own_settings_xml :
    let lookup := fun v => [(Variable.searchScope, "SUB"), (.logFormat, "xml"), (.logDirectory, "/var/log")].lookup v
    let c : Settings := {}
    (∃ reason, (c.override lookup).2 = some ⟨.logFormat, reason⟩) ∧
      (c.override lookup).1.search.scope = .subtree ∧ (c.override lookup).1.logging.directory = "./logs" := by
  intro lookup c
  have hscope : Variable.Spells .searchScope "SUB" .subtree := by decide
  have hbefore : ∀ w ∈ [Variable.searchScope, .unsearchableColumns, .restrictToObjectClass, .logLevel],
      Valid lookup w := by
    simp only [List.forall_mem_cons, List.not_mem_nil, false_imp_iff, implies_true, and_true]
    refine ⟨fun text h => ?_, fun text h => ?_, fun text h => ?_, fun text h => ?_⟩ <;> cases h
    exact ⟨.subtree, hscope⟩
  have hformat : ¬Valid lookup .logFormat := by
    intro h
    obtain ⟨format, hspells⟩ := h "xml" rfl
    cases format <;> exact absurd hspells (by decide)
  obtain ⟨-, -, hfirst, -⟩ := override_touches_own_settings c lookup
  obtain ⟨hreason, hfollows, hkept⟩ := hfirst _ .logFormat [.logOutput, .logDirectory] rfl hbefore hformat
  have hset := (hfollows .searchScope (by simp)).1 "SUB" rfl
  exact ⟨hreason, hset.unique hscope, hkept .logDirectory (by simp)⟩

end Settings

end DirectorySearch
