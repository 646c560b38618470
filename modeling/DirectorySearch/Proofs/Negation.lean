import DirectorySearch.Proofs.Logic
import DirectorySearch.Proofs.Selection

/-! Moving negations to the leaves keeps the value of a filter, in every logic that has De Morgan's laws. -/

namespace DirectorySearch

universe u

section Leaf
variable {α : Type u} (L : Logic α)

theorem FilterTree.eval_negatedIf {β : Type} (assign : Item β → α) (negated : Bool) (f : FilterTree β) :
    (f.negatedIf negated).eval L assign = L.notIf negated (f.eval L assign) := by
  cases negated <;> rfl

variable (assign : Item String → α)

/-- A comparison and its complement have the same item, one of them negated. -/
theorem Comparator.eval_complement (op : Comparator) (attr value : String) :
    (op.complement.filter attr value).eval L assign = L.not ((op.filter attr value).eval L assign) := by
  cases op
  case eq => rfl
  case le => rfl
  case ge => rfl
  all_goals exact (L.not_not _).symm

end Leaf

namespace Condition

section Eval
variable {α : Type u} (L : Logic α) (assign : Item String → α)

mutual

/-- A condition stands for a filter where its normal form does, of the same or of the opposite value. -/
theorem eval_normal : ∀ (c : Condition) (negate : Bool) {g : Filter}, (c.normal negate).tree? = some g →
    ∃ f, c.tree? = some f ∧ g.eval L assign = L.notIf negate (f.eval L assign)
  | .comparison op column value, negate, g, h => by
    obtain ⟨text, htext, rfl⟩ := Option.map_eq_some_iff.mp h
    refine ⟨_, by rw [tree?, htext, Option.map_some], ?_⟩
    cases negate with
    | false => rfl
    | true => exact op.eval_complement L assign column.sourceName text
  | .not condition, negate, g, h => by
    obtain ⟨f, hf, heval⟩ := eval_normal condition (!negate) h
    exact ⟨.not f, by rw [tree?, hf, Option.map_some], by rw [heval, FilterTree.eval, L.notIf_not]⟩
  | .and conditions, negate, g, h => by
    cases negate with
    | false =>
      obtain ⟨gs, hgs, rfl⟩ := Option.map_eq_some_iff.mp h
      obtain ⟨fs, hfs, heval⟩ := evalAll_normalAll conditions false hgs
      refine ⟨.and fs, by rw [tree?, hfs, Option.map_some], ?_⟩
      rw [FilterTree.eval, FilterTree.eval, heval, L.map_notIf_false, L.notIf_false]
    | true =>
      obtain ⟨gs, hgs, rfl⟩ := Option.map_eq_some_iff.mp h
      obtain ⟨fs, hfs, heval⟩ := evalAll_normalAll conditions true hgs
      refine ⟨.and fs, by rw [tree?, hfs, Option.map_some], ?_⟩
      rw [FilterTree.eval, FilterTree.eval, heval, L.map_notIf_true, L.notIf_true, L.not_all]
  | .or conditions, negate, g, h => by
    cases negate with
    | false =>
      obtain ⟨gs, hgs, rfl⟩ := Option.map_eq_some_iff.mp h
      obtain ⟨fs, hfs, heval⟩ := evalAll_normalAll conditions false hgs
      refine ⟨.or fs, by rw [tree?, hfs, Option.map_some], ?_⟩
      rw [FilterTree.eval, FilterTree.eval, heval, L.map_notIf_false, L.notIf_false]
    | true =>
      obtain ⟨gs, hgs, rfl⟩ := Option.map_eq_some_iff.mp h
      obtain ⟨fs, hfs, heval⟩ := evalAll_normalAll conditions true hgs
      refine ⟨.or fs, by rw [tree?, hfs, Option.map_some], ?_⟩
      rw [FilterTree.eval, FilterTree.eval, heval, L.map_notIf_true, L.notIf_true, L.not_any]
  | .like column pattern escape negated, negate, g, h => by
    obtain ⟨runs, hruns, rfl⟩ := Option.map_eq_some_iff.mp h
    refine ⟨_, by rw [tree?, hruns, Option.map_some], ?_⟩
    rw [FilterTree.eval_negatedIf, FilterTree.eval_negatedIf, L.notIf_notIf]
  | .inList column values negated, negate, g, h => by
    obtain ⟨texts, htexts, rfl⟩ := Option.map_eq_some_iff.mp h
    refine ⟨_, by rw [tree?, htexts, Option.map_some], ?_⟩
    rw [FilterTree.eval_negatedIf, FilterTree.eval_negatedIf, L.notIf_notIf]
  | .isNull column negated, negate, g, h => by
    cases h
    refine ⟨_, rfl, ?_⟩
    rw [FilterTree.eval_negatedIf, FilterTree.eval_negatedIf, L.notIf_notIf, Bool.not_xor]

theorem evalAll_normalAll : ∀ (conditions : List Condition) (negate : Bool) {gs : List Filter},
    trees? (normalAll negate conditions) = some gs →
      ∃ fs, trees? conditions = some fs ∧
        FilterTree.evalAll L assign gs = (FilterTree.evalAll L assign fs).map (L.notIf negate)
  | [], negate, gs, h => by
    cases h
    exact ⟨[], rfl, rfl⟩
  | condition :: conditions, negate, gs, h => by
    obtain ⟨g, hg, h⟩ := Option.bind_eq_some_iff.mp h
    obtain ⟨gs, hgs, rfl⟩ := Option.map_eq_some_iff.mp h
    obtain ⟨f, hf, heval⟩ := eval_normal condition negate hg
    obtain ⟨fs, hfs, hevals⟩ := evalAll_normalAll conditions negate hgs
    refine ⟨f :: fs, by rw [trees?, hf, hfs, Option.bind_some, Option.map_some], ?_⟩
    rw [FilterTree.evalAll, FilterTree.evalAll, heval, hevals, List.map_cons]

end

end Eval

end Condition

namespace Selection

open Token

/-- A condition as it stands and with its negations at the leaves gives filters that no logic tells apart. -/
theorem compile_equivalent (policy : UnsearchablePolicy) (c : Condition) (direct pushed : List Char)
    (hattrs : ∀ column ∈ c.columns, Attribute column.sourceName.toList) (hdirect : fragment policy c = .ok direct)
    (hpushed : compile policy (some c) = .ok pushed) :
    ∃ f g, Filter.parse (.ofList direct) = .ok f ∧ Filter.parse (.ofList pushed) = .ok g ∧
      ∀ (α : Type u) (L : Logic α) (assign : Item String → α), f.eval L assign = g.eval L assign := by
  have hnames : ∀ a ∈ c.columns.map Column.sourceName, Attribute a.toList := List.forall_mem_map.mpr hattrs
  obtain ⟨f, hf, hfwrites⟩ := fragment_writes c hdirect
  obtain ⟨g, hg, hgwrites⟩ := compile_writes hpushed
  refine ⟨f, g, hfwrites.parse_eq hnames, hgwrites.parse_eq hnames, fun α L assign => ?_⟩
  obtain ⟨f', hf', heval⟩ := Condition.eval_normal L assign c false hg
  cases hf.symm.trans hf'
  rw [heval, L.notIf_false]

theorem compile_equivalent_nested :
    let age : Column := { name := "age" }
    let c : Condition := .not (.and [.not (.or [.comparison .lt age (.string "9"), .missing age]),
      .among age [.string "3", .string "4"]])
    let direct := "(!(&(!(|(!(age>=9))(!(age=*))))(|(age=3)(age=4))))"
    let pushed := "(|(|(!(age>=9))(!(age=*)))(!(|(age=3)(age=4))))"
    fragment .reject c = .ok direct.toList ∧ compile .reject (some c) = .ok pushed.toList ∧
      ∃ f g, Filter.parse direct = .ok f ∧ Filter.parse pushed = .ok g ∧
        ∀ (α : Type) (L : Logic α) (assign : Item String → α), f.eval L assign = g.eval L assign := by
  intro age c direct pushed
  have hdirect : fragment .reject c = .ok direct.toList := toOption_eq_some.mp (by decide +kernel)
  have hpushed : compile .reject (some c) = .ok pushed.toList := toOption_eq_some.mp (by decide +kernel)
  have hattrs : ∀ column ∈ c.columns, Attribute column.sourceName.toList := by decide +kernel
  obtain ⟨f, g, hf, hg, heval⟩ := compile_equivalent .reject c _ _ hattrs hdirect hpushed
  rw [String.ofList_toList] at hf hg
  exact ⟨hdirect, hpushed, f, g, hf, hg, heval⟩

end Selection

end DirectorySearch
