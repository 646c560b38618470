import DirectorySearch.Proofs.Stability

/-! Records of several kinds do not depend on the layout either. The tag that tells the kind may stand anywhere among
    the members, so they are finished before they are read; the kind then says which of them are fields. -/

namespace DirectorySearch.Json.Form

variable {α τ : Type} {T : DataType} {fields : List Field} {fs : DataType.Fields} {room : Nat}
variable {names : Names τ} {kinds : List (String × DataType.Fields)} {make : τ → Content → Option α}

/-! ### Kinds -/

/-- The parts of a record of one kind, read in any layout. -/
structure StableContent (fs : DataType.Fields) (read : Content → Option α) : Prop where
  named : ∀ {ns ns' : List (String × Json)} {a : α}, DataType.RelaidContent (DataType.typeOf? fs) ns ns' →
    read (.named ns) = some a → read (.named ns') = some a
  listed : ∀ {vs vs' : List Json} {a : α}, DataType.RelaidValues (DataType.typeAt fs) vs vs' →
    read (.listed vs) = some a → read (.listed vs') = some a

theorem StableFields.content (h : StableFields fields fs) {make : Slots fields → Option α} :
    StableContent fs (Content.read fields make) :=
  ⟨fun hns hread => h.named hns hread, fun hvs hread => h.listed hvs hread⟩

/-- The same kinds by name and by number, each with stable parts. -/
def StableKinds (names : Names τ) (kinds : List (String × DataType.Fields)) (make : τ → Content → Option α) : Prop :=
  List.Forall₂ (fun n k => n.1 = k.1 ∧ StableContent k.2 (make n.2)) names kinds

/-- A tag tells the fields of the kind that it names. -/
theorem StableKinds.tag (h : StableKinds names kinds make) {v : Json} {kind : τ}
    (hv : (tag names).buffered v = some kind) :
    ∃ fs, DataType.kind? kinds v = some fs ∧ StableContent fs (make kind) := by
  simp only [Form.tag] at hv
  split at hv
  · next name =>
    simp only [DataType.kind?]
    induction h with
    | nil => cases hv
    | @cons n k names kinds hn _ ih =>
      rw [List.lookup_cons] at hv ⊢
      rw [← hn.1]
      split at hv
      · cases hv
        exact ⟨k.2, rfl, hn.2⟩
      · exact ih hv
  · next n =>
    simp only [DataType.kind?]
    induction h generalizing n with
    | nil => cases hv
    | @cons m k names kinds hm _ ih =>
      cases n with
      | zero =>
        cases hv
        exact ⟨k.2, rfl, hm.2⟩
      | succ n => exact ih n hv
  · cases hv

/-- A tag is a text or a number, of which there is one layout only. -/
theorem tag_relaid {v v' : Json} {kind : τ} (h : T.RelaidValue v v') (hv : (tag names).buffered v = some kind) :
    v' = v := by
  rcases h.cases with rfl | ⟨_, _, _, _, -, rfl, -⟩ | ⟨_, _, _, _, -, rfl, -⟩
  · rfl
  · cases hv
  · cases hv

/-! ### Tags among members -/

/-- The values of tags among members. -/
def tags (ns : List (String × Json)) : List Json :=
  (ns.filter (·.1 = "type")).map (·.2)

/-- The members other than tags. -/
def untagged (ns : List (String × Json)) : List (String × Json) :=
  ns.filter (·.1 ≠ "type")

section Tags
variable {n : String × Json} {v : Json} {ns others : List (String × Json)} {kind : τ} {found : Option τ}

theorem tags_type : tags (("type", v) :: ns) = v :: tags ns := rfl

theorem tags_of_ne (h : n.1 ≠ "type") : tags (n :: ns) = tags ns := by
  simp [tags, h]

theorem untagged_type : untagged (("type", v) :: ns) = untagged ns := rfl

theorem untagged_of_ne (h : n.1 ≠ "type") : untagged (n :: ns) = n :: untagged ns := by
  simp [untagged, h]

theorem splitTag?_type :
    splitTag? names none (("type", v) :: ns) =
      (tag names).buffered v >>= fun kind => splitTag? names (some kind) ns := rfl

theorem splitTag?_twice : splitTag? names (some kind) (("type", v) :: ns) = none := rfl

theorem splitTag?_of_ne (h : n.1 ≠ "type") :
    splitTag? names found (n :: ns) = (splitTag? names found ns).map fun read => (read.1, n :: read.2) := by
  rw [splitTag?, if_neg h]
  cases splitTag? names found ns <;> rfl

theorem splitTag?_some :
    splitTag? names (some kind) ns = some (found, others) ↔
      tags ns = [] ∧ found = some kind ∧ others = untagged ns := by
  induction ns generalizing others with
  | nil =>
    constructor
    · rintro ⟨⟩
      exact ⟨rfl, rfl, rfl⟩
    · rintro ⟨-, rfl, rfl⟩
      rfl
  | cons n ns ih =>
    obtain ⟨name, v⟩ := n
    by_cases hname : name = "type"
    · subst hname
      rw [splitTag?_twice, tags_type]
      exact ⟨fun h => (by cases h), fun h => (by cases h.1)⟩
    · rw [splitTag?_of_ne hname, tags_of_ne hname, untagged_of_ne hname, Option.map_eq_some_iff]
      constructor
      · rintro ⟨⟨found, others⟩, hsplit, ⟨⟩⟩
        obtain ⟨htags, hfound, hothers⟩ := ih.mp hsplit
        exact ⟨htags, hfound, congrArg _ hothers⟩
      · rintro ⟨htags, hfound, rfl⟩
        exact ⟨(found, untagged ns), ih.mpr ⟨htags, hfound, rfl⟩, rfl⟩

/-- A tag is found exactly when there is one. -/
theorem splitTag?_none :
    splitTag? names none ns = some (some kind, others) ↔
      ∃ t, tags ns = [t] ∧ (tag names).buffered t = some kind ∧ others = untagged ns := by
  induction ns generalizing others with
  | nil =>
    constructor
    · rintro ⟨⟩
    · rintro ⟨t, ⟨⟩, -⟩
  | cons n ns ih =>
    obtain ⟨name, v⟩ := n
    by_cases hname : name = "type"
    · subst hname
      rw [splitTag?_type, tags_type, untagged_type, Option.bind_eq_bind, Option.bind_eq_some_iff]
      constructor
      · rintro ⟨kind', hkind, hsplit⟩
        obtain ⟨htags, ⟨⟩, hothers⟩ := splitTag?_some.mp hsplit
        exact ⟨v, by rw [htags], hkind, hothers⟩
      · rintro ⟨t, htags, hkind, hothers⟩
        obtain ⟨rfl, hnone⟩ := List.cons.inj htags
        exact ⟨kind, hkind, splitTag?_some.mpr ⟨hnone, rfl, hothers⟩⟩
    · rw [splitTag?_of_ne hname, tags_of_ne hname, untagged_of_ne hname, Option.map_eq_some_iff]
      constructor
      · rintro ⟨⟨found, others⟩, hsplit, ⟨⟩⟩
        obtain ⟨t, htags, hkind, hothers⟩ := ih.mp hsplit
        exact ⟨t, htags, hkind, congrArg _ hothers⟩
      · rintro ⟨t, htags, hkind, rfl⟩
        exact ⟨(some kind, untagged ns), ih.mpr ⟨t, htags, hkind, rfl⟩, rfl⟩

end Tags

/-- The types of the members of a record with a tag. -/
def taggedType? (fs : DataType.Fields) (name : String) : Option DataType :=
  if name = "type" then some .plain else DataType.typeOf? fs name

theorem taggedType?_of_ne {name : String} (h : name ≠ "type") : taggedType? fs name = DataType.typeOf? fs name :=
  if_neg h

theorem ne_type_of_taggedType? {name : String} (h : taggedType? fs name = none) : name ≠ "type" := by
  rintro rfl
  cases h

theorem thinned_tags {ns kept : List (String × Json)}
    (h : Thinned (DataType.MemberRelaid (taggedType? fs)) (fun n => taggedType? fs n.1 = none) ns kept) :
    List.Forall₂ DataType.plain.RelaidValue (tags ns) (tags kept) := by
  induction h with
  | nil => exact .nil
  | @keep n n' ns kept hn _ ih =>
    obtain ⟨name, v⟩ := n
    obtain ⟨name', v'⟩ := n'
    obtain ⟨rfl, hv⟩ := hn
    by_cases hname : name' = "type"
    · subst hname
      exact .cons hv ih
    · rwa [tags_of_ne hname, tags_of_ne hname]
  | drop hfree _ ih => rwa [tags_of_ne (ne_type_of_taggedType? hfree)]

theorem thinned_untagged {ns kept : List (String × Json)}
    (h : Thinned (DataType.MemberRelaid (taggedType? fs)) (fun n => taggedType? fs n.1 = none) ns kept) :
    Thinned (DataType.MemberRelaid (DataType.typeOf? fs)) (fun n => DataType.typeOf? fs n.1 = none) (untagged ns)
      (untagged kept) := by
  induction h with
  | nil => exact .nil
  | @keep n n' ns kept hn _ ih =>
    obtain ⟨name, v⟩ := n
    obtain ⟨name', v'⟩ := n'
    obtain ⟨rfl, hv⟩ := hn
    by_cases hname : name' = "type"
    · subst hname
      exact ih
    · rw [untagged_of_ne hname, untagged_of_ne hname]
      rw [taggedType?_of_ne hname] at hv
      exact .keep ⟨rfl, hv⟩ ih
  | drop hfree _ ih =>
    have hname := ne_type_of_taggedType? hfree
    rw [untagged_of_ne hname]
    exact .drop (taggedType?_of_ne hname ▸ hfree) ih

/-- The kind of an object stays, and its other members are relaid as those of a record of that kind. -/
theorem splitTag?_relaid (hkinds : StableKinds names kinds make) {ns ns' others : List (String × Json)} {kind : τ}
    (hsplit : splitTag? names none ns = some (some kind, others))
    (h : ∀ t fs, tags ns = [t] → DataType.kind? kinds t = some fs → DataType.RelaidContent (taggedType? fs) ns ns') :
    ∃ fs others', StableContent fs (make kind) ∧ splitTag? names none ns' = some (some kind, others') ∧
      DataType.RelaidContent (DataType.typeOf? fs) others others' := by
  obtain ⟨t, htags, hkind, rfl⟩ := splitTag?_none.mp hsplit
  obtain ⟨fs, hfs, hcontent⟩ := hkinds.tag hkind
  obtain ⟨kept, hkept, hperm⟩ := h t fs htags hfs
  have htagsKept := thinned_tags hkept
  rw [htags] at htagsKept
  obtain ⟨t', _, ht, hnil, heq⟩ := List.forall₂_cons_left_iff.mp htagsKept
  cases hnil
  have htags' : tags ns' = [t'] := by
    have hpermTags : (tags kept).Perm (tags ns') := (hperm.filter _).map _
    rw [heq] at hpermTags
    exact (List.singleton_perm.mp hpermTags).symm
  obtain rfl := tag_relaid ht hkind
  exact ⟨fs, untagged ns', hcontent, splitTag?_none.mpr ⟨t', htags', hkind, rfl⟩, untagged kept, thinned_untagged hkept,
    hperm.filter _⟩

/-! ### Types by tag -/

theorem kindOf?_of_finish {d : Draft} {v : Json} (h : d.finish room = .ok v) (hv : DataType.kind? kinds v = some fs) :
    DataType.kindOf? kinds d = some fs := by
  have hfinish : d.finish 0 = .ok v := by
    cases d with
    | array ds flaw =>
      obtain ⟨_, _, -, -, -, rfl⟩ := Draft.finish_array.mp h
      cases hv
    | object ms flaw =>
      obtain ⟨_, _, -, -, -, rfl⟩ := Draft.finish_object.mp h
      cases hv
    | _ => exact h
  rw [DataType.kindOf?, toOption_eq_some.mpr hfinish]
  exact hv

theorem find?_of_tags {ms : List (Draft × Draft)} {ns : List (String × Json)}
    (h : List.Forall₂ (Draft.Finished room) ms ns) {t : Json} {ts : List Json} (ht : tags ns = t :: ts) :
    ∃ m, (ms.find? fun m => DataType.nameOf? m.1 = some "type") = some m ∧ m.2.finish room = .ok t := by
  induction h with
  | nil => cases ht
  | @cons m n ms ns hm _ ih =>
    obtain ⟨name, v⟩ := n
    have hnameOf : DataType.nameOf? m.1 = some name := toOption_eq_some.mpr hm.1
    by_cases hname : name = "type"
    · subst hname
      cases ht
      exact ⟨m, by rw [List.find?_cons_of_pos (by simpa using hnameOf)], hm.2⟩
    · rw [tags_of_ne hname] at ht
      rw [List.find?_cons_of_neg (by simpa [hnameOf] using hname)]
      exact ih ht

theorem members_tagged (hshape : T.shape = .tagged kinds) {ms : List (Draft × Draft)} {ns : List (String × Json)}
    (h : List.Forall₂ (Draft.Finished room) ms ns) {t : Json} (ht : tags ns = [t])
    (hkind : DataType.kind? kinds t = some fs) : T.members ms = taggedType? fs := by
  obtain ⟨m, hfind, hfinish⟩ := find?_of_tags h ht
  funext name
  rw [DataType.members, hshape]
  simp only [hfind, Option.bind_some, kindOf?_of_finish hfinish hkind]
  rfl

theorem items_tagged (hshape : T.shape = .tagged kinds) {d : Draft} {ds : List Draft} {v : Json}
    (h : d.finish room = .ok v) (hkind : DataType.kind? kinds v = some fs) :
    (fun i => T.items (d :: ds) (i + 1)) = DataType.typeAt fs := by
  funext i
  rw [DataType.items, hshape]
  simp only [List.head?_cons, Option.bind_some, kindOf?_of_finish h hkind]

theorem buffered_tagged (hshape : T.shape = .tagged kinds) (hkinds : StableKinds names kinds make) {v v' : Json} {a : α}
    (hv : T.RelaidValue v v') (hread : (tagged names make).buffered v = some a) :
    (tagged names make).buffered v' = some a := by
  rcases hv.cases with rfl | ⟨room, ds, vs, vs', hds, rfl, rfl, hvs⟩ | ⟨room, ms, ns, ns', hms, rfl, rfl, hns⟩
  · exact hread
  · cases hvs with
    | nil => cases hread
    | @cons _ first first' others others' hfirst hothers =>
      obtain ⟨kind, hkind, hmake⟩ := Option.bind_eq_some_iff.mp hread
      obtain ⟨fs, hfs, hcontent⟩ := hkinds.tag hkind
      obtain ⟨d, ds, hd, -, rfl⟩ := List.forall₂_cons_right_iff.mp (Draft.finishItems_eq_ok.mp hds)
      rw [items_tagged hshape hd hfs] at hothers
      obtain rfl := tag_relaid hfirst hkind
      exact Option.bind_eq_some_iff.mpr ⟨kind, hkind, hcontent.listed hothers hmake⟩
  · obtain ⟨⟨found, others⟩, hsplit, hread⟩ := Option.bind_eq_some_iff.mp hread
    obtain ⟨kind, hfound, hmake⟩ := Option.bind_eq_some_iff.mp hread
    cases hfound
    obtain ⟨fs, others', hcontent, hsplit', hothers⟩ := splitTag?_relaid hkinds hsplit fun t fs ht hfs => by
      rw [members_tagged hshape (Draft.finishMembers_eq_ok.mp hms) ht hfs] at hns
      exact hns
    exact Option.bind_eq_some_iff.mpr ⟨(some kind, others'), hsplit', hcontent.named hothers hmake⟩

/-! ### Tags in text

Read directly, a tag is a text; apart from that, data of several kinds is read from its finished value. -/

theorem tag_eq_ok {d : Draft} {kind : τ} :
    (tag names).direct room d = .ok kind ↔
      ∃ q v, d = .text q ∧ d.finish room = .ok v ∧ (tag names).buffered v = some kind := by
  constructor
  · intro h
    simp only [tag] at h
    split at h
    · next q =>
      obtain ⟨s, hs, h⟩ := bind_eq_ok.mp h
      exact ⟨q, .string s, rfl, bind_eq_ok.mpr ⟨s, hs, rfl⟩, orMismatched_eq_ok h⟩
    · exact absurd h misplaced_ne_ok
  · rintro ⟨q, v, rfl, hv, hkind⟩
    obtain ⟨s, hs, ⟨⟩⟩ := bind_eq_ok.mp hv
    refine bind_eq_ok.mpr ⟨s, hs, ?_⟩
    replace hkind : names.lookup s = some kind := hkind
    rw [hkind]
    rfl

/-- The tag of an object or an array is a text. -/
def TextTagged : Draft → Prop
  | .object ms _ => ∀ m ∈ ms, DataType.nameOf? m.1 = some "type" → ∃ q, m.2 = .text q
  | .array ds _ => ∀ d ∈ ds.head?, ∃ q, d = .text q
  | _ => False

section SplitTag
variable {key d : Draft} {name : String} {kind : τ} {found : Option τ} {ms : List (Draft × Draft)}

theorem splitTag_type (hkey : key.key = .ok "type") :
    splitTag names room none ((key, d) :: ms) =
      (tag names).direct room d >>= fun kind => splitTag names room (some kind) ms := by
  rw [splitTag, hkey]
  rfl

theorem splitTag_twice (hkey : key.key = .ok "type") :
    splitTag names room (some kind) ((key, d) :: ms) = .mismatched := by
  rw [splitTag, hkey]
  rfl

theorem splitTag_of_ne (hkey : key.key = .ok name) (hname : name ≠ "type") :
    splitTag names room found ((key, d) :: ms) =
      d.finish room >>= fun v =>
        splitTag names room found ms >>= fun read => pure (read.1, (name, v) :: read.2) := by
  rw [splitTag, hkey]
  exact if_neg hname

/-- Splitting drafts is splitting their values, once the tags are known to be texts. -/
theorem splitTag_eq_ok {read : Option τ × List (String × Json)} :
    splitTag names room found ms = .ok read ↔
      (∀ m ∈ ms, DataType.nameOf? m.1 = some "type" → ∃ q, m.2 = .text q) ∧
        ∃ ns, Draft.finishMembers room ms = .ok ns ∧ splitTag? names found ns = some read := by
  induction ms generalizing found read with
  | nil =>
    constructor
    · rintro ⟨⟩
      exact ⟨fun _ hm => (by cases hm), [], rfl, rfl⟩
    · rintro ⟨-, _, ⟨⟩, ⟨⟩⟩
      rfl
  | cons m ms ih =>
    obtain ⟨key, d⟩ := m
    simp only [List.forall_mem_cons, Draft.finishMembers_eq_ok, List.forall₂_cons_left_iff] at ih ⊢
    constructor
    · intro h
      obtain ⟨name, hkey, -⟩ := bind_eq_ok.mp h
      have hnameOf : DataType.nameOf? key = some name := toOption_eq_some.mpr hkey
      by_cases hname : name = "type"
      · subst hname
        cases found with
        | some kind =>
          rw [splitTag_twice hkey] at h
          cases h
        | none =>
          rw [splitTag_type hkey] at h
          obtain ⟨kind, hkind, hsplit⟩ := bind_eq_ok.mp h
          obtain ⟨q, v, rfl, hv, hkind⟩ := tag_eq_ok.mp hkind
          obtain ⟨htext, ns, hns, hsplit⟩ := ih.mp hsplit
          refine ⟨⟨fun _ => ⟨q, rfl⟩, htext⟩, _, ⟨("type", v), ns, ⟨hkey, hv⟩, hns, rfl⟩, ?_⟩
          rw [splitTag?_type, hkind]
          exact hsplit
      · rw [splitTag_of_ne hkey hname] at h
        obtain ⟨v, hv, h⟩ := bind_eq_ok.mp h
        obtain ⟨read, hsplit, ⟨⟩⟩ := bind_eq_ok.mp h
        obtain ⟨htext, ns, hns, hsplit⟩ := ih.mp hsplit
        refine ⟨⟨fun htype => ?_, htext⟩, _, ⟨(name, v), ns, ⟨hkey, hv⟩, hns, rfl⟩, ?_⟩
        · exact absurd (Option.some.inj (hnameOf.symm.trans htype)) hname
        · rw [splitTag?_of_ne hname, hsplit]
          rfl
    · rintro ⟨⟨hd, htext⟩, _, ⟨⟨name, v⟩, ns, ⟨hkey, hv⟩, hns, rfl⟩, hsplit⟩
      by_cases hname : name = "type"
      · subst hname
        cases found with
        | some kind => cases hsplit
        | none =>
          rw [splitTag?_type] at hsplit
          obtain ⟨kind, hkind, hsplit⟩ := Option.bind_eq_some_iff.mp hsplit
          obtain ⟨q, rfl⟩ := hd (toOption_eq_some.mpr hkey)
          rw [splitTag_type hkey]
          exact bind_eq_ok.mpr ⟨kind, tag_eq_ok.mpr ⟨q, v, rfl, hv, hkind⟩, ih.mpr ⟨htext, ns, hns, hsplit⟩⟩
      · rw [splitTag?_of_ne hname] at hsplit
        obtain ⟨read, hrest, rfl⟩ := Option.map_eq_some_iff.mp hsplit
        rw [splitTag_of_ne hkey hname]
        exact bind_eq_ok.mpr ⟨v, hv, bind_eq_ok.mpr ⟨read, ih.mpr ⟨htext, ns, hns, hrest⟩, rfl⟩⟩

end SplitTag

theorem tagged_object {ms : List (Draft × Draft)} {flaw : Option Flaw} {a : α} :
    (tagged names make).direct (room + 1) (.object ms flaw) = .ok a ↔
      ∃ kind others, splitTag names room none ms = .ok (some kind, others) ∧ flaw = none ∧
        make kind (.named others) = some a := by
  constructor
  · intro h
    obtain ⟨⟨found, others⟩, hsplit, h⟩ := bind_eq_ok.mp h
    obtain ⟨_, hcheck, h⟩ := bind_eq_ok.mp h
    cases found with
    | none => cases h
    | some kind => exact ⟨kind, others, hsplit, Draft.check_eq_ok.mp hcheck, orMismatched_eq_ok h⟩
  · rintro ⟨kind, others, hsplit, rfl, hmake⟩
    refine bind_eq_ok.mpr ⟨(some kind, others), hsplit, bind_eq_ok.mpr ⟨(), rfl, ?_⟩⟩
    show orMismatched (make kind (.named others)) = .ok a
    rw [hmake]
    rfl

theorem tagged_array {d : Draft} {ds : List Draft} {flaw : Option Flaw} {a : α} :
    (tagged names make).direct (room + 1) (.array (d :: ds) flaw) = .ok a ↔
      ∃ kind vs, (tag names).direct room d = .ok kind ∧ Draft.finishItems room ds = .ok vs ∧ flaw = none ∧
        make kind (.listed vs) = some a := by
  constructor
  · intro h
    obtain ⟨kind, hkind, h⟩ := bind_eq_ok.mp h
    obtain ⟨vs, hvs, h⟩ := bind_eq_ok.mp h
    obtain ⟨_, hcheck, h⟩ := bind_eq_ok.mp h
    exact ⟨kind, vs, hkind, hvs, Draft.check_eq_ok.mp hcheck, orMismatched_eq_ok h⟩
  · rintro ⟨kind, vs, hkind, hvs, rfl, hmake⟩
    refine bind_eq_ok.mpr ⟨kind, hkind, bind_eq_ok.mpr ⟨vs, hvs, bind_eq_ok.mpr ⟨(), rfl, ?_⟩⟩⟩
    rw [hmake]
    rfl

theorem tagged_eq_ok {d : Draft} {a : α} :
    (tagged names make).direct room d = .ok a ↔
      TextTagged d ∧ ∃ v, d.finish room = .ok v ∧ (tagged names make).buffered v = some a := by
  constructor
  · intro h
    cases d with
    | object ms flaw =>
      cases room with
      | zero => cases h
      | succ room =>
        obtain ⟨kind, others, hsplit, hflaw, hmake⟩ := tagged_object.mp h
        obtain ⟨htext, ns, hns, hsplit⟩ := splitTag_eq_ok.mp hsplit
        refine ⟨htext, .object ns, Draft.finish_object.mpr ⟨room, ns, rfl, hns, hflaw, rfl⟩, ?_⟩
        exact Option.bind_eq_some_iff.mpr ⟨(some kind, others), hsplit, hmake⟩
    | array ds flaw =>
      cases room with
      | zero => cases h
      | succ room =>
        cases ds with
        | nil =>
          obtain ⟨_, -, h⟩ := bind_eq_ok.mp h
          cases h
        | cons d ds =>
          obtain ⟨kind, vs, hkind, hvs, hflaw, hmake⟩ := tagged_array.mp h
          obtain ⟨q, v, rfl, hv, hkind⟩ := tag_eq_ok.mp hkind
          have hall : Draft.finishItems room (.text q :: ds) = .ok (v :: vs) :=
            Draft.finishItems_eq_ok.mpr (.cons hv (Draft.finishItems_eq_ok.mp hvs))
          refine ⟨?_, .array (v :: vs), Draft.finish_array.mpr ⟨room, v :: vs, rfl, hall, hflaw, rfl⟩, ?_⟩
          · rintro _ ⟨⟩
            exact ⟨q, rfl⟩
          · exact Option.bind_eq_some_iff.mpr ⟨kind, hkind, hmake⟩
    | number n => exact absurd h (misplaced_ne_ok (d := .number n))
    | text q => exact absurd h (misplaced_ne_ok (d := .text q))
    | _ => cases h
  · rintro ⟨htext, v, hv, hread⟩
    cases d with
    | object ms flaw =>
      obtain ⟨room, ns, rfl, hns, rfl, rfl⟩ := Draft.finish_object.mp hv
      obtain ⟨⟨found, others⟩, hsplit, hread⟩ := Option.bind_eq_some_iff.mp hread
      obtain ⟨kind, rfl, hmake⟩ := Option.bind_eq_some_iff.mp hread
      exact tagged_object.mpr ⟨kind, others, splitTag_eq_ok.mpr ⟨htext, ns, hns, hsplit⟩, rfl, hmake⟩
    | array ds flaw =>
      obtain ⟨room, vs, rfl, hvs, rfl, rfl⟩ := Draft.finish_array.mp hv
      cases Draft.finishItems_eq_ok.mp hvs with
      | nil => cases hread
      | @cons d v ds vs hfirst hrest =>
        obtain ⟨q, rfl⟩ := htext d rfl
        obtain ⟨kind, hkind, hmake⟩ := Option.bind_eq_some_iff.mp hread
        exact tagged_array.mpr
          ⟨kind, vs, tag_eq_ok.mpr ⟨q, v, rfl, hfirst, hkind⟩, Draft.finishItems_eq_ok.mpr hrest, rfl, hmake⟩
    | _ => cases htext

theorem eq_of_relaid_text {q : Quoted} {d : Draft} (h : T.Relaid (.text q) d) : d = .text q := by
  cases h
  rfl

theorem textTagged_members : ∀ {declared : String → Option DataType} {ms kept : List (Draft × Draft)},
    DataType.RelaidMembers declared ms kept → TextTagged (.object ms none) → TextTagged (.object kept none)
  | _, _, _, .nil, htext => htext
  | _, _, _, .keep hd hms, htext => by
    obtain ⟨hfirst, hrest⟩ := List.forall_mem_cons.mp htext
    refine List.forall_mem_cons.mpr ⟨fun htype => ?_, textTagged_members hms hrest⟩
    obtain ⟨q, rfl⟩ := hfirst htype
    exact ⟨q, eq_of_relaid_text hd⟩
  | _, _, _, .drop _ _ hms, htext => textTagged_members hms (List.forall_mem_cons.mp htext).2

theorem textTagged_relaid {d d' : Draft} (h : T.Relaid d d') (htext : TextTagged d) : TextTagged d' := by
  cases h with
  | refl => exact htext
  | array h =>
    cases h with
    | nil => exact htext
    | @cons _ d d' ds ds' hd _ =>
      obtain ⟨q, rfl⟩ := htext d rfl
      rintro _ ⟨⟩
      exact ⟨q, eq_of_relaid_text hd⟩
  | object h hperm => exact fun m hm => textTagged_members h htext m (hperm.mem_iff.mpr hm)

/-- A record of one of several kinds does not depend on the place of its tag, on the order of its other members, nor on
    those that are no fields of its kind. -/
theorem stable_tagged (hshape : T.shape = .tagged kinds) (hkinds : StableKinds names kinds make) :
    Stable T (tagged names make) where
  sound h := by
    obtain ⟨-, v, hv, -⟩ := tagged_eq_ok.mp h
    exact Draft.sound_of_finish hv
  direct hd hread := by
    obtain ⟨htext, v, hv, hread⟩ := tagged_eq_ok.mp hread
    obtain ⟨v', hv'⟩ := hd.finish hv
    exact tagged_eq_ok.mpr
      ⟨textTagged_relaid hd htext, v', hv', buffered_tagged hshape hkinds ⟨_, _, _, hd, hv, hv'⟩ hread⟩
  buffered := buffered_tagged hshape hkinds

end DirectorySearch.Json.Form
