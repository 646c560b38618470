import DirectorySearch.Command.Run
import DirectorySearch.Proofs.QueryText
import DirectorySearch.Proofs.Tags

/-! A query does not depend on how its text is laid out: every form of a part of a query is stable, from the columns up
    to conditions in each other. -/

namespace DirectorySearch

open Json Form

theorem Literal.stable {T : DataType} : Stable T Literal.form := by
  refine stable_ofBuffered fun hv hread => ?_
  rcases hv.cases with rfl | ⟨_, _, _, _, -, rfl, -⟩ | ⟨_, _, _, _, -, rfl, -⟩
  · exact hread
  · cases hread
  · cases hread

theorem Table.stable : Stable .table Table.form :=
  stable_record rfl ⟨.cons ⟨rfl, simple_string.stable⟩ (.cons ⟨rfl, simple_string.stable.optional⟩
    (.cons ⟨rfl, simple_string.stable.optional⟩ .nil)), by decide⟩

theorem Column.stable : Stable .column Column.form :=
  stable_record rfl ⟨.cons ⟨rfl, simple_string.stable⟩ (.cons ⟨rfl, simple_string.stable.optional⟩
    (.cons ⟨rfl, stable_name⟩ .nil)), by decide⟩

theorem Expr.stable : Stable .expr Expr.form := by
  refine stable_tagged rfl (.cons ⟨rfl, ?_⟩ (.cons ⟨rfl, ?_⟩ .nil))
  · exact StableFields.content ⟨.cons ⟨rfl, Column.stable⟩ .nil, by decide⟩
  · exact StableFields.content ⟨.cons ⟨rfl, Literal.stable⟩ .nil, by decide⟩

theorem SortItem.stable : Stable .sortItem SortItem.form :=
  stable_record rfl ⟨.cons ⟨rfl, Expr.stable⟩ (.cons ⟨rfl, simple_bool.stable⟩ .nil), by decide⟩

namespace Condition

/-- One level of conditions. -/
theorem stable_level {inner : Form Condition} (h : Stable .condition inner) :
    Stable .condition (.tagged kinds (make inner)) := by
  refine stable_tagged rfl (.cons ⟨rfl, ?comparison⟩ (.cons ⟨rfl, ?not⟩ (.cons ⟨rfl, ?and⟩ (.cons ⟨rfl, ?or⟩
    (.cons ⟨rfl, ?like⟩ (.cons ⟨rfl, ?inList⟩ (.cons ⟨rfl, ?isNull⟩ .nil)))))))
  case comparison =>
    exact StableFields.content ⟨.cons ⟨rfl, stable_name⟩ (.cons ⟨rfl, Column.stable⟩
      (.cons ⟨rfl, Literal.stable⟩ .nil)), by decide⟩
  case not => exact StableFields.content ⟨.cons ⟨rfl, h⟩ .nil, by decide⟩
  case and => exact StableFields.content ⟨.cons ⟨rfl, h.list⟩ .nil, by decide⟩
  case or => exact StableFields.content ⟨.cons ⟨rfl, h.list⟩ .nil, by decide⟩
  case like =>
    exact StableFields.content ⟨.cons ⟨rfl, Column.stable⟩ (.cons ⟨rfl, simple_string.stable⟩
      (.cons ⟨rfl, stable_char.optional⟩ (.cons ⟨rfl, simple_bool.stable⟩ .nil))), by decide⟩
  case inList =>
    exact StableFields.content ⟨.cons ⟨rfl, Column.stable⟩ (.cons ⟨rfl, Literal.stable.list⟩
      (.cons ⟨rfl, simple_bool.stable⟩ .nil)), by decide⟩
  case isNull =>
    exact StableFields.content ⟨.cons ⟨rfl, Column.stable⟩ (.cons ⟨rfl, simple_bool.stable⟩ .nil), by decide⟩

theorem stable_formWithin (depth : Nat) : Stable .condition (formWithin depth) := by
  induction depth with
  | zero => exact stable_ofBuffered fun _ hread => by cases hread
  | succ depth ih => exact stable_level ih

end Condition

namespace Query

theorem stable : Stable .query Query.form :=
  stable_record rfl ⟨.cons ⟨rfl, Table.stable.list⟩ (.cons ⟨rfl, Expr.stable.list⟩
    (.cons ⟨rfl, (Condition.stable_formWithin _).optional⟩ (.cons ⟨rfl, SortItem.stable.list.optional⟩
      (.cons ⟨rfl, simple_int64.stable.optional⟩ .nil)))), by decide⟩

/-- One text of a query laid out as another: the drafts of the two differ in the order of members and in members that
    are not declared, and the blanks between the parts are any. -/
def RelaidText (s s' : String) : Prop :=
  ∃ d d', Padded d s.toList ∧ DataType.query.Relaid d d' ∧ Padded d' s'.toList

/-- A text that a query is read from is JSON in full, and however it is laid out the same query is read from it, with
    the same fingerprint, and the same search is built. -/
theorem reading_ignores_layout (s : String) (q : Query) (h : parse s = .ok q) :
    (∃ d, Padded d s.toList) ∧
    ∀ s', RelaidText s s' →
      parse s' = .ok q ∧ (parse s').map fingerprint = .ok q.fingerprint ∧
        ∀ settings spacing, Command.search settings s' spacing = Command.search settings s spacing := by
  refine ⟨padded_of_read stable.sound h, ?_⟩
  rintro s' ⟨d, d', hd, hrelaid, hd'⟩
  have hread : form.direct maxDepth d = .ok q := (read_padded hd).symm.trans h
  have hparse : parse s' = .ok q := (read_padded hd').trans (stable.direct hrelaid hread)
  refine ⟨hparse, ?_, fun settings spacing => ?_⟩
  · rw [hparse]
    rfl
  · simp only [Command.search, hparse, h]

/-- Members change places, also in a member that is passed over; a tag comes first that came last; a member of a column
    that is not declared goes, and every part gets a line of its own. -/
theorem reading_ignores_layout_tag_last :
    ∃ v v' : Json,
      v = .object [("more", .array [.object [("b", .int 2), ("a", .int 1)]]),
        ("from", .array [.object [("name", .string "people")]]),
        ("selection", .object [("column", .object [("x", .null), ("name", .string "cn")]),
          ("type", .string "IsNull")])] ∧
      v' = .object [("selection", .object [("type", .string "IsNull"), ("column", .object [("name", .string "cn")])]),
        ("more", .array [.object [("a", .int 1), ("b", .int 2)]]),
        ("from", .array [.object [("name", .string "people")]])] ∧
      RelaidText (v.render .compact) (v'.render .pretty) ∧
      ∃ q, q = ⟨[⟨"people", none, none⟩], [], some (.isNull ⟨"cn", none, .searchable⟩ false), none, none⟩ ∧
        parse (v.render .compact) = .ok q ∧ parse (v'.render .pretty) = .ok q := by
  have hfollow (v v' : Json) (q : Query) (hparse : parse (v.render .compact) = .ok q)
      (hrelaid : DataType.query.Relaid v.draft v'.draft) : RelaidText (v.render .compact) (v'.render .pretty) ∧
        ∃ r, r = q ∧ parse (v.render .compact) = .ok r ∧ parse (v'.render .pretty) = .ok r := by
    have htext : RelaidText (v.render .compact) (v'.render .pretty) :=
      ⟨v.draft, v'.draft, padded_render v, hrelaid, padded_render v'⟩
    exact ⟨htext, q, rfl, hparse, ((reading_ignores_layout _ q hparse).2 _ htext).1⟩
  refine ⟨_, _, rfl, rfl, hfollow _ _ _ (parse_eq_of_render (by decide +kernel) (by decide) (by decide))
    (.object (.keep ?more (.keep .refl (.keep ?selection .nil))) (List.perm_append_singleton _ [_, _]))⟩
  case more => exact .array (.cons (.object (.keep .refl (.keep .refl .nil)) (.swap _ _ _)) .nil)
  case selection =>
    exact .object (.keep (.object (.drop rfl rfl (.keep .refl .nil)) (.refl _)) (.keep .refl .nil)) (.swap _ _ _)

end Query

end DirectorySearch
