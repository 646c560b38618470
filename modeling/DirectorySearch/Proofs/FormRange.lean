import DirectorySearch.Proofs.Forms
import DirectorySearch.Proofs.Nesting

/-! What a form can yield. Data is read from a draft or from a finished value; either way its parts come
    from parts of that, so data that is read is nested no deeper than what it is read from, and no deeper
    than the room that was given. -/

namespace DirectorySearch.Json

/-! ### Values that fit -/

/-- A value with at most `n` containers open at once, whole numbers that can be written, and doubles with a property. -/
def Fits (p : Double → Prop) (n : Nat) (v : Json) : Prop := v.Plain p ∧ v.depth ≤ n

variable {p : Double → Prop} {n : Nat}

theorem Fits.mono {m : Nat} {v : Json} (h : v.Fits p m) (hle : m ≤ n) : v.Fits p n :=
  ⟨h.1, Nat.le_trans h.2 hle⟩

theorem fits_null : Fits p n .null := ⟨trivial, Nat.zero_le n⟩

theorem fits_bool {b : Bool} : Fits p n (.bool b) := ⟨trivial, Nat.zero_le n⟩

theorem fits_string {s : String} : Fits p n (.string s) := ⟨trivial, Nat.zero_le n⟩

theorem fits_int {i : Int} (h : InRange i) : Fits p n (.int i) := ⟨h, Nat.zero_le n⟩

theorem fits_float {x : Double} (h : p x) : Fits p n (.float x) := ⟨h, Nat.zero_le n⟩

theorem plainItems_iff {items : List Json} : PlainItems p items ↔ ∀ v ∈ items, v.Plain p := by
  induction items with
  | nil => simp [PlainItems]
  | cons v items ih => rw [PlainItems, ih, List.forall_mem_cons]

theorem plainMembers_iff {members : List (String × Json)} :
    PlainMembers p members ↔ ∀ m ∈ members, m.2.Plain p := by
  induction members with
  | nil => simp [PlainMembers]
  | cons m members ih => rw [PlainMembers, ih, List.forall_mem_cons]

theorem depthItems_le {items : List Json} : depthItems items ≤ n ↔ ∀ v ∈ items, v.depth ≤ n := by
  induction items with
  | nil => simp [depthItems]
  | cons v items ih => rw [depthItems, Nat.max_le, ih, List.forall_mem_cons]

theorem depthMembers_le {members : List (String × Json)} :
    depthMembers members ≤ n ↔ ∀ m ∈ members, m.2.depth ≤ n := by
  induction members with
  | nil => simp [depthMembers]
  | cons m members ih => rw [depthMembers, Nat.max_le, ih, List.forall_mem_cons]

theorem fits_array {items : List Json} : Fits p (n + 1) (.array items) ↔ ∀ v ∈ items, v.Fits p n := by
  rw [Fits, Plain, depth, Nat.succ_le_succ_iff, plainItems_iff, depthItems_le]
  exact forall₂_and.symm

theorem fits_object {members : List (String × Json)} :
    Fits p (n + 1) (.object members) ↔ ∀ m ∈ members, m.2.Fits p n := by
  rw [Fits, Plain, depth, Nat.succ_le_succ_iff, plainMembers_iff, depthMembers_le]
  exact forall₂_and.symm

theorem Fits.array {items : List Json} (h : Fits p n (.array items)) :
    ∃ m, n = m + 1 ∧ ∀ v ∈ items, v.Fits p m := by
  obtain ⟨m, rfl, -⟩ := exists_room h.2
  exact ⟨m, rfl, fits_array.mp h⟩

theorem Fits.object {members : List (String × Json)} (h : Fits p n (.object members)) :
    ∃ m, n = m + 1 ∧ ∀ member ∈ members, member.2.Fits p m := by
  obtain ⟨m, rfl, -⟩ := exists_room h.2
  exact ⟨m, rfl, fits_object.mp h⟩

theorem forall_mem_member? {α : Type} {name : String} {value : Option α} {enc : α → Json} {P : Json → Prop} :
    (∀ m ∈ member? name (value.map enc), P m.2) ↔ ∀ a, value = some a → P (enc a) := by
  cases value <;> simp [member?]

theorem Fits.mem_array {items : List Json} (h : Fits p n (.array items)) : ∀ v ∈ items, v.Fits p n := by
  obtain ⟨m, rfl, hitems⟩ := h.array
  exact fun v hv => (hitems v hv).mono (Nat.le_succ m)

/-! ### Finished values -/

theorem fits_finish_numeral {m : Numeral} {v : Json} (h : m.finish = .ok v) : v.Fits Double.Finite n := by
  simp only [Numeral.finish, Nat.pow_eq] at h
  split at h
  · cases h
    exact fits_int ⟨by omega, by omega⟩
  · split at h
    · cases h
      exact fits_int ⟨by omega, by omega⟩
    · split at h
      · cases h
        exact fits_float ⟨_, rfl⟩
      · cases h

/-- Containers take room away, and their parts are nested less deep. -/
theorem exists_pred {room depth : Nat} (h : room + 1 ≤ n ∨ depth + 1 ≤ n) :
    ∃ m, n = m + 1 ∧ (room ≤ m ∨ depth ≤ m) :=
  ⟨n - 1, by omega, by omega⟩

namespace Draft

theorem depth_le_depthItems {d : Draft} {ds : List Draft} (h : d ∈ ds) : d.depth ≤ depthItems ds := by
  induction h with
  | head => exact Nat.le_max_left _ _
  | tail _ _ ih => exact Nat.le_trans ih (Nat.le_max_right _ _)

mutual

theorem fits_finish : ∀ {d : Draft} {room n : Nat} {v : Json}, (room ≤ n ∨ d.depth ≤ n) →
    d.finish room = .ok v → v.Fits Double.Finite n
  | .absent, _, _, _, _, h => by cases h
  | .broken _, _, _, _, _, h => by cases h
  | .cutNumber, _, _, _, _, h => by cases h
  | .null, _, _, _, _, h => by
    cases h
    exact fits_null
  | .bool _, _, _, _, _, h => by
    cases h
    exact fits_bool
  | .number _, _, _, _, _, h => fits_finish_numeral h
  | .text q, _, _, _, _, h => by
    obtain ⟨s, -, hpure⟩ := bind_eq_ok.mp h
    cases hpure
    exact fits_string
  | .array items flaw, 0, _, _, _, h => by cases h
  | .array items flaw, room + 1, n, v, hn, h => by
    obtain ⟨m, rfl, hm⟩ := exists_pred hn
    obtain ⟨vs, hvs, h⟩ := bind_eq_ok.mp h
    obtain ⟨_, -, hpure⟩ := bind_eq_ok.mp h
    cases hpure
    exact fits_array.mpr (fits_finishItems hm hvs)
  | .object members flaw, 0, _, _, _, h => by cases h
  | .object members flaw, room + 1, n, v, hn, h => by
    obtain ⟨m, rfl, hm⟩ := exists_pred hn
    obtain ⟨vs, hvs, h⟩ := bind_eq_ok.mp h
    obtain ⟨_, -, hpure⟩ := bind_eq_ok.mp h
    cases hpure
    exact fits_object.mpr (fits_finishMembers hm hvs)

theorem fits_finishItems : ∀ {ds : List Draft} {room n : Nat} {vs : List Json},
    (room ≤ n ∨ depthItems ds ≤ n) → finishItems room ds = .ok vs → ∀ v ∈ vs, v.Fits Double.Finite n
  | [], _, _, _, _, h => by
    cases h
    simp
  | d :: ds, room, n, vs, hn, h => by
    obtain ⟨v, hv, h⟩ := bind_eq_ok.mp h
    obtain ⟨vs, hvs, hpure⟩ := bind_eq_ok.mp h
    cases hpure
    have hparts := hn.imp_right Nat.max_le.mp
    rw [List.forall_mem_cons]
    exact ⟨fits_finish (hparts.imp_right And.left) hv, fits_finishItems (hparts.imp_right And.right) hvs⟩

theorem fits_finishMembers : ∀ {ds : List (Draft × Draft)} {room n : Nat} {ms : List (String × Json)},
    (room ≤ n ∨ depthMembers ds ≤ n) → finishMembers room ds = .ok ms → ∀ m ∈ ms, m.2.Fits Double.Finite n
  | [], _, _, _, _, h => by
    cases h
    simp
  | (key, d) :: ds, room, n, vs, hn, h => by
    obtain ⟨name, -, h⟩ := bind_eq_ok.mp h
    obtain ⟨v, hv, h⟩ := bind_eq_ok.mp h
    obtain ⟨ms, hms, hpure⟩ := bind_eq_ok.mp h
    cases hpure
    have hparts := hn.imp_right Nat.max_le.mp
    rw [List.forall_mem_cons]
    exact ⟨fits_finish (hparts.imp_right And.left) hv, fits_finishMembers (hparts.imp_right And.right) hms⟩

end

end Draft

/-! ### What a form yields -/

/-- Data read from a draft or a value that is nested at most `n` deep, or with room for `n`. -/
inductive Form.Yields {α : Type} (form : Form α) (n : Nat) (a : α) : Prop where
  | direct {room : Nat} {d : Draft} (h : room ≤ n ∨ d.depth ≤ n) (hread : form.direct room d = .ok a)
  | buffered {v : Json} (h : v.Fits Double.Finite n) (hread : form.buffered v = some a)

namespace Form

variable {α β τ : Type} {form : Form α} {a : α}

theorem orMismatched_eq_ok {o : Option α} (h : orMismatched o = .ok a) : o = some a := by
  cases o with
  | none => cases h
  | some b =>
    cases h
    rfl

theorem misplaced_ne_ok {d : Draft} : d.misplaced ≠ .ok a := by
  intro h
  cases d with
  | number m =>
    obtain ⟨_, -, h⟩ := bind_eq_ok.mp h
    cases h
  | text q =>
    obtain ⟨_, -, h⟩ := bind_eq_ok.mp h
    cases h
  | _ => cases h

theorem Yields.ofBuffered {read : Json → Option α} (h : (ofBuffered read).Yields n a) :
    ∃ v, v.Fits Double.Finite n ∧ read v = some a := by
  cases h with
  | direct hn hread =>
    obtain ⟨v, hv, hread⟩ := bind_eq_ok.mp hread
    exact ⟨v, Draft.fits_finish hn hv, orMismatched_eq_ok hread⟩
  | buffered hv hread => exact ⟨_, hv, hread⟩

theorem Yields.optional {o : Option α} (h : (optional form).Yields n o) (ho : o = some a) :
    form.Yields n a := by
  subst ho
  cases h with
  | @direct room d hn hread =>
    simp only [Form.optional] at hread
    split at hread
    · cases hread
    · obtain ⟨b, hb, hpure⟩ := bind_eq_ok.mp hread
      cases hpure
      exact .direct hn hb
  | @buffered v hv hread =>
    simp only [Form.optional] at hread
    split at hread
    · cases hread
    · obtain ⟨b, hb, hpure⟩ := Option.bind_eq_some_iff.mp hread
      cases hpure
      exact .buffered hv hb

theorem Yields.list {as : List α} (h : (list form).Yields n as) :
    ∃ m, n = m + 1 ∧ ∀ a ∈ as, form.Yields m a := by
  cases h with
  | @direct room d hn hread =>
    simp only [Form.list] at hread
    split at hread
    · split at hread
      · cases hread
      · obtain ⟨m, rfl, hm⟩ := exists_pred hn
        obtain ⟨as, has, hread⟩ := bind_eq_ok.mp hread
        obtain ⟨_, -, hpure⟩ := bind_eq_ok.mp hread
        cases hpure
        refine ⟨m, rfl, fun a ha => ?_⟩
        obtain ⟨d, hd, hread⟩ := mem_of_mapM_eq_ok has a ha
        exact .direct (hm.imp_right (Nat.le_trans (Draft.depth_le_depthItems hd))) hread
    · exact absurd hread misplaced_ne_ok
  | @buffered v hv hread =>
    simp only [Form.list] at hread
    split at hread
    · obtain ⟨m, rfl, hitems⟩ := hv.array
      refine ⟨m, rfl, fun a ha => ?_⟩
      obtain ⟨v, hmem, hread⟩ := mem_of_mapM_eq_some hread a ha
      exact .buffered (hitems v hmem) hread
    · cases hread

end Form

/-! ### Records -/

namespace Slots

/-- Every value that stands in a slot is read from something nested at most `n` deep. -/
def Yields (n : Nat) : (fields : List Field) → Slots fields → Prop
  | [], _ => True
  | field :: fields, (slot, slots) => (∀ a, slot = some a → field.form.Yields n a) ∧ Yields n fields slots

variable {field : Field} {fields : List Field} {slots slots' : Slots fields}

theorem yields_empty : ∀ fields : List Field, Yields n fields (empty fields)
  | [] => trivial
  | _ :: fields => ⟨fun _ h => (by cases h), yields_empty fields⟩

theorem yields_cons {slot : Option field.Value} : Yields n (field :: fields) (cons slot slots) ↔
    (∀ a, slot = some a → field.form.Yields n a) ∧ Yields n fields slots := Iff.rfl

theorem yields_put {room : Nat} {name : String} {d : Draft} (hn : room ≤ n ∨ d.depth ≤ n)
    (hslots : Yields n fields slots) (h : put room name d fields slots = .ok slots') :
    Yields n fields slots' := by
  induction fields with
  | nil => trivial
  | cons field fields ih =>
    obtain ⟨slot, slots⟩ := slots
    replace h : put room name d (field :: fields) (cons slot slots) = .ok slots' := h
    obtain ⟨hslot, hrest⟩ := yields_cons.mp hslots
    by_cases hname : name = field.name
    · subst hname
      cases slot with
      | none =>
        rw [put_name] at h
        obtain ⟨a, hread, rfl⟩ := map_eq_ok.mp h
        exact yields_cons.mpr ⟨by rintro _ ⟨⟩; exact .direct hn hread, hrest⟩
      | some a =>
        rw [put_twice] at h
        cases h
    · rw [put_of_ne _ _ hname] at h
      obtain ⟨slots', hput, rfl⟩ := map_eq_ok.mp h
      exact yields_cons.mpr ⟨hslot, ih hrest hput⟩

theorem yields_put? {name : String} {v : Json} (hv : v.Fits Double.Finite n) (hslots : Yields n fields slots)
    (h : put? name v fields slots = some slots') : Yields n fields slots' := by
  induction fields with
  | nil => trivial
  | cons field fields ih =>
    obtain ⟨slot, slots⟩ := slots
    replace h : put? name v (field :: fields) (cons slot slots) = some slots' := h
    obtain ⟨hslot, hrest⟩ := yields_cons.mp hslots
    by_cases hname : name = field.name
    · subst hname
      cases slot with
      | none =>
        rw [put?_name] at h
        obtain ⟨a, hread, rfl⟩ := Option.map_eq_some_iff.mp h
        exact yields_cons.mpr ⟨by rintro _ ⟨⟩; exact .buffered hv hread, hrest⟩
      | some a =>
        rw [put?_twice] at h
        cases h
    · rw [put?_of_ne _ _ hname] at h
      obtain ⟨slots', hput, rfl⟩ := Option.map_eq_some_iff.mp h
      exact yields_cons.mpr ⟨hslot, ih hrest hput⟩

theorem yields_putAll {room : Nat} {ds : List (Draft × Draft)} (hn : room ≤ n ∨ Draft.depthMembers ds ≤ n)
    (hslots : Yields n fields slots) (h : putAll room fields ds slots = .ok slots') :
    Yields n fields slots' := by
  induction ds generalizing slots with
  | nil =>
    cases h
    exact hslots
  | cons m ds ih =>
    have hparts := hn.imp_right Nat.max_le.mp
    obtain ⟨name, -, h⟩ := bind_eq_ok.mp h
    obtain ⟨slots₁, hput, h⟩ := bind_eq_ok.mp h
    exact ih (hparts.imp_right And.right) (yields_put (hparts.imp_right And.left) hslots hput) h

theorem yields_putAll? {members : List (String × Json)} (hmembers : ∀ m ∈ members, m.2.Fits Double.Finite n)
    (hslots : Yields n fields slots) (h : putAll? fields members slots = some slots') :
    Yields n fields slots' := by
  induction members generalizing slots with
  | nil =>
    cases h
    exact hslots
  | cons m members ih =>
    rw [List.forall_mem_cons] at hmembers
    obtain ⟨slots₁, hput, h⟩ := Option.bind_eq_some_iff.mp h
    exact ih hmembers.2 (yields_put? hmembers.1 hslots hput) h

theorem yields_fill {room : Nat} {flaw : Option Flaw} {ds : List Draft}
    (hn : room ≤ n ∨ Draft.depthItems ds ≤ n) (h : fill room flaw fields ds = .ok slots) :
    Yields n fields slots := by
  induction fields generalizing ds with
  | nil => trivial
  | cons field fields ih =>
    cases ds with
    | nil =>
      obtain ⟨_, -, h⟩ := bind_eq_ok.mp h
      cases h
      exact yields_empty _
    | cons d ds =>
      have hparts := hn.imp_right Nat.max_le.mp
      obtain ⟨a, hread, h⟩ := bind_eq_ok.mp h
      obtain ⟨slots, hfill, h⟩ := bind_eq_ok.mp h
      cases h
      exact ⟨by rintro _ ⟨⟩; exact .direct (hparts.imp_right And.left) hread,
        ih (hparts.imp_right And.right) hfill⟩

theorem yields_fill? {items : List Json} (hitems : ∀ v ∈ items, v.Fits Double.Finite n)
    (h : fill? fields items = some slots) : Yields n fields slots := by
  induction fields generalizing items with
  | nil => trivial
  | cons field fields ih =>
    cases items with
    | nil =>
      cases h
      exact yields_empty _
    | cons v items =>
      rw [List.forall_mem_cons] at hitems
      obtain ⟨a, hread, h⟩ := Option.bind_eq_some_iff.mp h
      obtain ⟨slots, hfill, h⟩ := Option.bind_eq_some_iff.mp h
      cases h
      exact ⟨by rintro _ ⟨⟩; exact .buffered hitems.1 hread, ih hitems.2 hfill⟩

end Slots

/-- The parts of a record are values that fit. -/
def Content.Fits (n : Nat) : Content → Prop
  | .named members => ∀ m ∈ members, m.2.Fits Double.Finite n
  | .listed items => ∀ v ∈ items, v.Fits Double.Finite n

section Records

variable {α τ : Type} {fields : List Field} {make : Slots fields → Option α} {a : α}

theorem Content.yields_read (content : Content) (hcontent : content.Fits n)
    (h : content.read fields make = some a) : ∃ slots, Slots.Yields n fields slots ∧ make slots = some a := by
  cases content with
  | named members =>
    obtain ⟨slots, hput, hmake⟩ := Option.bind_eq_some_iff.mp h
    exact ⟨slots, Slots.yields_putAll? hcontent (Slots.yields_empty fields) hput, hmake⟩
  | listed items =>
    obtain ⟨slots, hfill, hmake⟩ := Option.bind_eq_some_iff.mp h
    exact ⟨slots, Slots.yields_fill? hcontent hfill, hmake⟩

theorem Form.Yields.record (h : (record fields make).Yields n a) :
    ∃ m slots, n = m + 1 ∧ Slots.Yields m fields slots ∧ make slots = some a := by
  cases h with
  | @direct room d hn hread =>
    simp only [Form.record] at hread
    split at hread
    · split at hread
      · cases hread
      · obtain ⟨m, rfl, hm⟩ := exists_pred hn
        obtain ⟨slots, hput, hread⟩ := bind_eq_ok.mp hread
        obtain ⟨_, -, hread⟩ := bind_eq_ok.mp hread
        exact ⟨m, slots, rfl, Slots.yields_putAll hm (Slots.yields_empty fields) hput,
          Form.orMismatched_eq_ok hread⟩
    · split at hread
      · cases hread
      · obtain ⟨m, rfl, hm⟩ := exists_pred hn
        obtain ⟨slots, hfill, hread⟩ := bind_eq_ok.mp hread
        exact ⟨m, slots, rfl, Slots.yields_fill hm hfill, Form.orMismatched_eq_ok hread⟩
    · exact absurd hread Form.misplaced_ne_ok
  | @buffered v hv hread =>
    simp only [Form.record] at hread
    split at hread
    · obtain ⟨m, rfl, hmembers⟩ := hv.object
      obtain ⟨slots, hslots, hmake⟩ := Content.yields_read (.named _) hmembers hread
      exact ⟨m, slots, rfl, hslots, hmake⟩
    · obtain ⟨m, rfl, hitems⟩ := hv.array
      obtain ⟨slots, hslots, hmake⟩ := Content.yields_read (.listed _) hitems hread
      exact ⟨m, slots, rfl, hslots, hmake⟩
    · cases hread

/-! ### Kinds -/

theorem Form.fits_splitTag {names : Names τ} {room : Nat} {ds : List (Draft × Draft)}
    {found found' : Option τ} {others : List (String × Json)}
    (hn : room ≤ n ∨ Draft.depthMembers ds ≤ n)
    (h : splitTag names room found ds = .ok (found', others)) : ∀ m ∈ others, m.2.Fits Double.Finite n := by
  induction ds generalizing found others with
  | nil =>
    cases h
    simp
  | cons m ds ih =>
    have hparts := hn.imp_right Nat.max_le.mp
    obtain ⟨name, -, h⟩ := bind_eq_ok.mp h
    split at h
    · split at h
      · cases h
      · obtain ⟨kind, -, h⟩ := bind_eq_ok.mp h
        exact ih (hparts.imp_right And.right) h
    · obtain ⟨v, hv, h⟩ := bind_eq_ok.mp h
      obtain ⟨⟨found₁, others₁⟩, hsplit, hpure⟩ := bind_eq_ok.mp h
      cases hpure
      rw [List.forall_mem_cons]
      exact ⟨Draft.fits_finish (hparts.imp_right And.left) hv, ih (hparts.imp_right And.right) hsplit⟩

theorem Form.mem_of_splitTag? {names : Names τ} {members others : List (String × Json)}
    {found found' : Option τ} (h : splitTag? names found members = some (found', others)) :
    ∀ m ∈ others, m ∈ members := by
  induction members generalizing found others with
  | nil =>
    cases h
    simp
  | cons m members ih =>
    unfold splitTag? at h
    split at h
    · split at h
      · cases h
      · obtain ⟨kind, -, h⟩ := Option.bind_eq_some_iff.mp h
        exact fun m' hm' => List.mem_cons_of_mem m (ih h m' hm')
    · obtain ⟨⟨found₁, others₁⟩, hsplit, hpure⟩ := Option.bind_eq_some_iff.mp h
      cases hpure
      rw [List.forall_mem_cons]
      exact ⟨List.mem_cons_self, fun m' hm' => List.mem_cons_of_mem m (ih hsplit m' hm')⟩

theorem Form.Yields.tagged {names : Names τ} {make : τ → Content → Option α}
    (h : (tagged names make).Yields n a) :
    ∃ m kind content, n = m + 1 ∧ content.Fits m ∧ make kind content = some a := by
  cases h with
  | @direct room d hn hread =>
    simp only [Form.tagged] at hread
    split at hread
    · split at hread
      · cases hread
      · obtain ⟨m, rfl, hm⟩ := exists_pred hn
        obtain ⟨⟨found, others⟩, hsplit, hread⟩ := bind_eq_ok.mp hread
        obtain ⟨_, -, hread⟩ := bind_eq_ok.mp hread
        split at hread
        · cases hread
        · next kind _ =>
          exact ⟨m, kind, .named others, rfl, Form.fits_splitTag hm hsplit, Form.orMismatched_eq_ok hread⟩
    · split at hread
      · cases hread
      · obtain ⟨_, -, hread⟩ := bind_eq_ok.mp hread
        cases hread
      · obtain ⟨m, rfl, hm⟩ := exists_pred hn
        obtain ⟨kind, -, hread⟩ := bind_eq_ok.mp hread
        obtain ⟨others, hothers, hread⟩ := bind_eq_ok.mp hread
        obtain ⟨_, -, hread⟩ := bind_eq_ok.mp hread
        have hrest := hm.imp_right fun h => (Nat.max_le.mp h).2
        exact ⟨m, kind, .listed others, rfl, Draft.fits_finishItems hrest hothers,
          Form.orMismatched_eq_ok hread⟩
    · exact absurd hread Form.misplaced_ne_ok
  | @buffered v hv hread =>
    simp only [Form.tagged] at hread
    split at hread
    · obtain ⟨m, rfl, hmembers⟩ := hv.object
      obtain ⟨⟨found, others⟩, hsplit, hread⟩ := Option.bind_eq_some_iff.mp hread
      obtain ⟨kind, -, hmake⟩ := Option.bind_eq_some_iff.mp hread
      have hothers : ∀ m' ∈ others, m'.2.Fits Double.Finite m := fun m' hm' =>
        hmembers m' (Form.mem_of_splitTag? hsplit m' hm')
      exact ⟨m, kind, .named others, rfl, hothers, hmake⟩
    · obtain ⟨m, rfl, hitems⟩ := hv.array
      obtain ⟨kind, -, hmake⟩ := Option.bind_eq_some_iff.mp hread
      exact ⟨m, kind, .listed _, rfl, (List.forall_mem_cons.mp hitems).2, hmake⟩
    · cases hread

/-! ### Whole texts -/

theorem Form.yields_of_read {form : Form α} {t : String} (h : form.read t = .ok a) :
    form.Yields maxDepth a ∧ form.Yields (nesting t.toList) a := by
  obtain ⟨b, hread, hrest⟩ := bind_eq_ok.mp h
  split at hrest
  · cases hrest
  · cases hrest
    exact ⟨.direct (.inl (Nat.le_refl _)) hread, .direct (.inr (Draft.depth_ofText _)) hread⟩

end Records

end DirectorySearch.Json
