import DirectorySearch.Proofs.Rendering
import DirectorySearch.Query.Encoding

/-! What is written in a form is read back from it, from the text of a value as well as from the value
    itself. There is one lemma for each way to build a form. -/

namespace DirectorySearch.Json

open Form

/-- The form reads the data from the value, and from the draft of its text given room for it. -/
structure Form.Reads {α : Type} (form : Form α) (v : Json) (a : α) : Prop where
  buffered : form.buffered v = some a
  direct : ∀ room, v.depth ≤ room → form.direct room v.draft = .ok a

namespace Form

variable {α β τ : Type} {form : Form α} {v : Json} {a : α}

theorem reads_ofBuffered {read : Json → Option α} (hplain : v.Plain Double.ReadsBack) (h : read v = some a) :
    (ofBuffered read).Reads v a where
  buffered := h
  direct room hroom := by
    simp only [ofBuffered, Draft.finish_draft v hplain hroom]
    show orMismatched (read v) = _
    rw [h]
    rfl

theorem Reads.refine {step : α → Option β} {b : β} (h : form.Reads v a) (hstep : step a = some b) :
    (form.refine step).Reads v b where
  buffered := by
    simp only [Form.refine, h.buffered]
    exact hstep
  direct room hroom := by
    simp only [Form.refine, h.direct room hroom]
    show orMismatched (step a) = _
    rw [hstep]
    rfl

theorem reads_string (s : String) : string.Reads (.string s) s where
  buffered := rfl
  direct _ _ := Quoted.spell_ofString s

theorem reads_char (c : Char) : char.Reads (.string (.singleton c)) c := by
  apply (reads_string _).refine
  rw [String.toList_singleton]

theorem reads_bool (b : Bool) : bool.Reads (.bool b) b where
  buffered := rfl
  direct _ _ := rfl

theorem int64?_toInt (n : Int64) : int64? n.toInt = some n := by
  rw [int64?, if_pos ⟨Int64.minValue_le_toInt n, Int64.toInt_le n⟩, Int64.ofInt_toInt]

theorem inRange_toInt (n : Int64) : InRange n.toInt :=
  ⟨n.le_toInt, Int.lt_trans n.toInt_lt (by decide)⟩

theorem reads_int64 (n : Int64) : int64.Reads (.int n.toInt) n where
  buffered := int64?_toInt n
  direct _ _ := by
    simp only [int64, draft, finish_intNumeral (inRange_toInt n)]
    show orMismatched (int64? n.toInt) = _
    rw [int64?_toInt]
    rfl

theorem Reads.optional (h : form.Reads v a) (hnull : v.draft ≠ .null) :
    (optional form).Reads v (some a) where
  buffered := by
    simp only [Form.optional]
    split
    · exact absurd rfl hnull
    · rw [h.buffered]
      rfl
  direct room hroom := by
    simp only [Form.optional, h.direct room hroom]
    rfl

theorem reads_list {enc : α → Json} {as : List α} (h : ∀ a ∈ as, form.Reads (enc a) a) :
    (list form).Reads (.array (as.map enc)) as where
  buffered := by
    show (as.map enc).mapM form.buffered = some as
    induction as with
    | nil => rfl
    | cons a as ih =>
      rw [List.forall_mem_cons] at h
      rw [List.map_cons, List.mapM_cons, h.1.buffered, ih h.2]
      rfl
  direct room hroom := by
    obtain ⟨room, rfl, hparts⟩ := exists_room hroom
    have hitems : (draftItems (as.map enc)).mapM (form.direct room) = .ok as := by
      clear hroom
      induction as with
      | nil => rfl
      | cons a as ih =>
        rw [List.forall_mem_cons] at h
        obtain ⟨ha, has⟩ := Nat.max_le.mp hparts
        rw [List.map_cons, draftItems, List.mapM_cons, h.1.direct room ha, ih h.2 has]
        rfl
    simp only [list, draft, hitems]
    rfl

theorem reads_name {names : Names α} {s : String} (h : names.lookup s = some a) :
    (name names).Reads (.string s) a where
  buffered := h
  direct room _ := by
    simp only [name, draft, Quoted.spell_ofString]
    show orMismatched (names.lookup s) = _
    rw [h]
    rfl

end Form

/-! ### Records -/

namespace Slots

def cons {field : Field} {fields : List Field} (slot : Option field.Value) (slots : Slots fields) :
    Slots (field :: fields) :=
  (slot, slots)

/-- The members of an object that hold the values of fields, in the order of the fields. -/
inductive Written : (fields : List Field) → List (String × Json) → Slots fields → Prop where
  | nil : Written [] [] ()
  | absent {field : Field} {fields : List Field} {members : List (String × Json)} {slots : Slots fields} :
      Written fields members slots → Written (field :: fields) members (cons none slots)
  | present {field : Field} {fields : List Field} {members : List (String × Json)} {slots : Slots fields}
      {v : Json} {a : field.Value} : field.form.Reads v a → Written fields members slots →
      Written (field :: fields) ((field.name, v) :: members) (cons (some a) slots)

variable {field : Field} {fields : List Field} {members : List (String × Json)} {slots : Slots fields}

theorem Written.mem_names (h : Written fields members slots) :
    ∀ m ∈ members, m.1 ∈ fields.map Field.name := by
  induction h with
  | nil => simp
  | absent _ ih => exact fun m hm => List.mem_cons_of_mem _ (ih m hm)
  | present _ _ ih =>
    rw [List.forall_mem_cons]
    exact ⟨List.mem_cons_self, fun m hm => List.mem_cons_of_mem _ (ih m hm)⟩

theorem Written.ne_name (hnames : ((field :: fields).map Field.name).Nodup)
    (h : Written fields members slots) : ∀ m ∈ members, m.1 ≠ field.name := by
  intro m hm heq
  rw [List.map_cons, List.nodup_cons] at hnames
  exact hnames.1 (heq ▸ h.mem_names m hm)

section Put

variable {room : Nat} {name : String} {v : Json} {d : Draft} (slot : Option field.Value)
  (slots : Slots fields)

theorem empty_cons : empty (field :: fields) = cons none (empty fields) := rfl

theorem put?_of_ne (h : name ≠ field.name) :
    put? name v (field :: fields) (cons slot slots) = (put? name v fields slots).map (cons slot) := by
  refine (if_neg h.symm).trans ?_
  cases put? name v fields slots <;> rfl

theorem put_of_ne (h : name ≠ field.name) :
    put room name d (field :: fields) (cons slot slots) = (put room name d fields slots).map (cons slot) := by
  refine (if_neg h.symm).trans ?_
  cases put room name d fields slots <;> rfl

theorem put?_name :
    put? field.name v (field :: fields) (cons none slots) =
      (field.form.buffered v).map fun a => cons (some a) slots := by
  refine (if_pos rfl).trans ?_
  cases field.form.buffered v <;> rfl

theorem put_name :
    put room field.name d (field :: fields) (cons none slots) =
      (field.form.direct room d).map fun a => cons (some a) slots := by
  refine (if_pos rfl).trans ?_
  cases field.form.direct room d <;> rfl

theorem put?_twice {a : field.Value} : put? field.name v (field :: fields) (cons (some a) slots) = none :=
  if_pos rfl

theorem put_twice {a : field.Value} :
    put room field.name d (field :: fields) (cons (some a) slots) = .mismatched :=
  if_pos rfl

theorem putAll?_cons :
    putAll? fields ((name, v) :: members) slots =
      (put? name v fields slots >>= putAll? fields members) := by
  rw [putAll?]

theorem putAll_cons :
    putAll room fields (draftMembers ((name, v) :: members)) slots =
      (put room name v.draft fields slots >>= putAll room fields (draftMembers members)) := by
  rw [draftMembers, putAll, Draft.key, Quoted.spell_ofString]
  rfl

end Put

/-- Members of other names leave a field as it is. -/
theorem putAll?_of_ne (slot : Option field.Value) (slots : Slots fields)
    (h : ∀ m ∈ members, m.1 ≠ field.name) :
    putAll? (field :: fields) members (cons slot slots) = (putAll? fields members slots).map (cons slot) := by
  induction members generalizing slots with
  | nil => rfl
  | cons m members ih =>
    rw [List.forall_mem_cons] at h
    rw [putAll?_cons, put?_of_ne _ _ h.1, putAll?_cons]
    cases put? m.1 m.2 fields slots with
    | none => rfl
    | some slots => exact ih slots h.2

theorem putAll_of_ne {room : Nat} (slot : Option field.Value) (slots : Slots fields)
    (h : ∀ m ∈ members, m.1 ≠ field.name) :
    putAll room (field :: fields) (draftMembers members) (cons slot slots) =
      (putAll room fields (draftMembers members) slots).map (cons slot) := by
  induction members generalizing slots with
  | nil => rfl
  | cons m members ih =>
    rw [List.forall_mem_cons] at h
    rw [putAll_cons, put_of_ne _ _ h.1, putAll_cons]
    cases put room m.1 m.2.draft fields slots with
    | error _ => rfl
    | ok slots => exact ih slots h.2

theorem Written.putAll? (hnames : (fields.map Field.name).Nodup) (h : Written fields members slots) :
    Slots.putAll? fields members (empty fields) = some slots := by
  induction h with
  | nil => rfl
  | absent h ih =>
    rw [empty_cons, putAll?_of_ne _ _ (h.ne_name hnames), ih (List.nodup_cons.mp hnames).2]
    rfl
  | present hread h ih =>
    rw [empty_cons, putAll?_cons, put?_name, hread.buffered, Option.map_some, Option.bind_eq_bind,
      Option.bind_some, putAll?_of_ne _ _ (h.ne_name hnames), ih (List.nodup_cons.mp hnames).2]
    rfl

theorem Written.putAll {room : Nat} (hnames : (fields.map Field.name).Nodup)
    (h : Written fields members slots) (hroom : depthMembers members ≤ room) :
    Slots.putAll room fields (draftMembers members) (empty fields) = .ok slots := by
  induction h with
  | nil => rfl
  | absent h ih =>
    rw [empty_cons, putAll_of_ne _ _ (h.ne_name hnames), ih (List.nodup_cons.mp hnames).2 hroom]
    rfl
  | @present field fields members slots v a hread h ih =>
    obtain ⟨hv, hmembers⟩ := Nat.max_le.mp hroom
    rw [empty_cons, putAll_cons, put_name, hread.direct room hv]
    show Slots.putAll room (field :: fields) (draftMembers members) (cons (some a) (empty fields)) = _
    rw [putAll_of_ne _ _ (h.ne_name hnames), ih (List.nodup_cons.mp hnames).2 hmembers]
    rfl

/-- A member that is left out when it has no value. -/
theorem Written.optional {α : Type} {form : Form α} {name : String} {enc : α → Json} {value : Option α}
    (hread : ∀ a, value = some a → form.Reads (enc a) a ∧ (enc a).draft ≠ .null)
    (h : Written fields members slots) :
    Written (⟨name, Option α, .optional form⟩ :: fields) (member? name (value.map enc) ++ members)
      (cons (value.map some) slots) := by
  cases value with
  | none => exact h.absent
  | some a =>
    obtain ⟨hread, hnull⟩ := hread a rfl
    exact .present (hread.optional hnull) h

end Slots

theorem content_named {α : Type} {fields : List Field} {make : Slots fields → Option α} {slots : Slots fields}
    {members : List (String × Json)} {a : α} (hnames : (fields.map Field.name).Nodup)
    (h : Slots.Written fields members slots) (hmake : make slots = some a) :
    Content.read fields make (.named members) = some a := by
  rw [Content.read, h.putAll? hnames]
  exact hmake

theorem Form.reads_record {α : Type} {fields : List Field} {make : Slots fields → Option α}
    {slots : Slots fields} {members : List (String × Json)} {a : α}
    (hnames : (fields.map Field.name).Nodup) (h : Slots.Written fields members slots)
    (hmake : make slots = some a) : (record fields make).Reads (.object members) a where
  buffered := content_named hnames h hmake
  direct room hroom := by
    obtain ⟨room, rfl, hparts⟩ := exists_room hroom
    simp only [record, draft, h.putAll hnames hparts]
    show orMismatched (make slots) = _
    rw [hmake]
    rfl

/-! ### Kinds -/

namespace Form

variable {α τ : Type} {names : Names τ}

theorem splitTag_draftMembers {room : Nat} {found : Option τ} {members : List (String × Json)}
    (hnames : ∀ m ∈ members, m.1 ≠ "type") (hplain : PlainMembers Double.ReadsBack members)
    (hroom : depthMembers members ≤ room) :
    splitTag names room found (draftMembers members) = .ok (found, members) := by
  induction members with
  | nil => rfl
  | cons m members ih =>
    rw [List.forall_mem_cons] at hnames
    obtain ⟨hm, hmembers⟩ := Nat.max_le.mp hroom
    rw [draftMembers, splitTag, Draft.key, Quoted.spell_ofString]
    show (if m.1 = "type" then _ else _) = _
    rw [if_neg hnames.1, Draft.finish_draft m.2 hplain.1 hm, ih hnames.2 hplain.2 hmembers]
    rfl

theorem splitTag?_members {found : Option τ} {members : List (String × Json)}
    (hnames : ∀ m ∈ members, m.1 ≠ "type") : splitTag? names found members = some (found, members) := by
  induction members with
  | nil => rfl
  | cons m members ih =>
    rw [List.forall_mem_cons] at hnames
    rw [splitTag?, if_neg hnames.1, ih hnames.2]
    rfl

/-- Data of several kinds, with its kind first. -/
theorem reads_tagged {make : τ → Content → Option α} {name : String} {members : List (String × Json)}
    {a : α} (kind : τ) (hname : names.lookup name = some kind) (hnames : ∀ m ∈ members, m.1 ≠ "type")
    (hplain : PlainMembers Double.ReadsBack members) (hmake : make kind (.named members) = some a) :
    (tagged names make).Reads (.object (("type", .string name) :: members)) a where
  buffered := by
    have hsplit : splitTag? names none (("type", .string name) :: members) = some (some kind, members) := by
      show (names.lookup name >>= fun kind => splitTag? names (some kind) members) = _
      rw [hname]
      exact splitTag?_members hnames
    show (splitTag? names none (("type", .string name) :: members) >>= _) = _
    rw [hsplit]
    exact hmake
  direct room hroom := by
    obtain ⟨room, rfl, hparts⟩ := exists_room hroom
    have hmembers := (Nat.max_le.mp hparts).2
    have hsplit : splitTag names room none (draftMembers (("type", .string name) :: members)) =
        .ok (some kind, members) := by
      rw [draftMembers, splitTag, Draft.key, Quoted.spell_ofString]
      show ((tag names).direct room (.text (Quoted.ofString name)) >>= fun kind =>
        splitTag names room (some kind) (draftMembers members)) = _
      simp only [tag, Quoted.spell_ofString]
      show (orMismatched (names.lookup name) >>= _) = _
      rw [hname]
      exact splitTag_draftMembers hnames hplain hmembers
    simp only [tagged, draft, hsplit]
    show orMismatched (make kind (.named members)) = _
    rw [hmake]
    rfl

/-! ### Whole texts -/

/-- What a value holds is read from its text, if the text may nest so deep. -/
theorem Reads.read {form : Form α} {v : Json} {a : α} {spacing : Spacing} (h : form.Reads v a)
    (hdepth : v.depth ≤ maxDepth) : form.read (v.render spacing) = .ok a :=
  (read_padded (padded_render v)).trans (h.direct maxDepth hdepth)

end Form

end DirectorySearch.Json
