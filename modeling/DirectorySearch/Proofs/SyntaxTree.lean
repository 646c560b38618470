import DirectorySearch.Proofs.Except
import DirectorySearch.Proofs.Grammar

/-! Filters read off syntax trees. A reader that does not know where a syntax tree comes from has to reckon with every
    tree: nodes may lack parts, or have parts of the wrong rule. On the trees of the grammar none of this happens, and
    it gives what is read from the text. -/

namespace DirectorySearch

namespace FilterTree
variable {ε κ α β : Type}

mutual

/-- Errors may be renamed value by value. -/
theorem mapError_traverse (read : α → Except ε β) (g : ε → κ) : ∀ t : FilterTree α,
    (t.traverse read).mapError g = t.traverse fun a => (read a).mapError g
  | .and parts => by simp only [traverse, mapError_bind, mapError_traverseAll read g parts, mapError_pure]
  | .or parts => by simp only [traverse, mapError_bind, mapError_traverseAll read g parts, mapError_pure]
  | .not part => by simp only [traverse, mapError_bind, mapError_traverse read g part, mapError_pure]
  | .compare .. => by simp only [traverse, mapError_bind, mapError_pure]
  | .present _ => rfl
  | .substrings .. => by
    simp only [traverse, mapError_bind, mapError_mapM, mapError_option_mapM, mapError_pure]

theorem mapError_traverseAll (read : α → Except ε β) (g : ε → κ) : ∀ ts : List (FilterTree α),
    (traverseAll read ts).mapError g = traverseAll (fun a => (read a).mapError g) ts
  | [] => rfl
  | t :: ts => by
    simp only [traverseAll, mapError_bind, mapError_traverse read g t, mapError_traverseAll read g ts, mapError_pure]

end

end FilterTree

namespace Grammar

/-! ### Syntax trees -/

/-- The rules whose matches are nodes. -/
inductive Rule where
  | filter
  | component
  | and
  | or
  | not
  | present
  | substring
  | simple
  | relation
  | star
  | attr
  | value
  | stop
deriving Repr, DecidableEq

def Rule.name : Rule → String
  | .filter => "filter"
  | .component => "filter_expr"
  | .and => "and"
  | .or => "or"
  | .not => "not"
  | .present => "present"
  | .substring => "substring"
  | .simple => "simple"
  | .relation => "filter_type"
  | .star => "star"
  | .attr => "attr"
  | .value => "value"
  | .stop => "EOI"

/-- A match: its rule, the text it covers, and the matches in it. -/
inductive Node where
  | mk (rule : Rule) (text : List Char) (parts : List Node)

namespace Node

def rule : Node → Rule
  | .mk rule _ _ => rule

def text : Node → List Char
  | .mk _ text _ => text

/-- Why no filter is read off a tree. -/
inductive Error where
  /-- The tree is none of the grammar. -/
  | malformed (reason : String)
  | value (error : FilterError)
deriving Repr, DecidableEq

/-! ### Reading -/

/-- The text that a written value stands for. -/
def decode (written : List Char) : Except Error String :=
  (Reader.decode written).mapError .value

def present : List Node → Except Error Filter
  | .mk .attr attr _ :: _ => .ok (.present (.ofList attr))
  | _ => .error (.malformed "Missing attribute description")

def simple : List Node → Except Error Filter
  | [] => .error (.malformed "Missing attribute description")
  | [_] => .error (.malformed "Missing filter type")
  | attr :: relation :: others => do
    let value ← match others with
      | value :: _ => decode value.text
      | [] => pure ""
    match relation.text with
    | ['='] => .ok (.compare .equal (.ofList attr.text) value)
    | ['>', '='] => .ok (.compare .greaterOrEqual (.ofList attr.text) value)
    | ['<', '='] => .ok (.compare .lessOrEqual (.ofList attr.text) value)
    | ['~', '='] => .ok (.compare .approx (.ofList attr.text) value)
    | other => .error (.malformed s!"Unknown filter type: {String.ofList other}")

/-- The pieces of a substring item: those with a star after them, and the one after the last star. -/
structure Pieces where
  starred : List (Option String)
  last : Option String

def pieces (sofar : Pieces) : List Node → Except Error Pieces
  | [] => .ok sofar
  | .mk .star _ _ :: parts => pieces ⟨sofar.starred ++ [sofar.last], none⟩ parts
  | .mk .value text _ :: parts => do
    let piece ← decode text
    pieces ⟨sofar.starred, some piece⟩ parts
  | .mk rule _ _ :: _ => .error (.malformed s!"Unexpected rule: {rule.name}")

/-- Without a star, the one piece is the first. -/
def Pieces.filter (attr : List Char) (p : Pieces) : Filter :=
  match p.starred with
  | [] => .substrings (.ofList attr) p.last [] none
  | initial :: any => .substrings (.ofList attr) initial any.reduceOption p.last

def substring : List Node → Except Error Filter
  | [] => .error (.malformed "Missing attribute description")
  | attr :: parts => do return (← pieces ⟨[], none⟩ parts).filter attr.text

mutual

def component : Node → Except Error Filter
  | .mk _ _ (.mk .and _ parts :: _) => do return .and (← components parts)
  | .mk _ _ (.mk .or _ parts :: _) => do return .or (← components parts)
  | .mk _ _ (.mk .not _ (part :: _) :: _) => do return .not (← component part)
  | .mk _ _ (.mk .not _ [] :: _) => .error (.malformed "Negation without operand")
  | .mk _ _ (.mk .present _ parts :: _) => present parts
  | .mk _ _ (.mk .substring _ parts :: _) => substring parts
  | .mk _ _ (.mk .simple _ parts :: _) => simple parts
  | .mk _ _ (.mk rule _ _ :: _) => .error (.malformed s!"Unexpected rule: {rule.name}")
  | .mk _ _ [] => .error (.malformed "Empty filter component")

def components : List Node → Except Error (List Filter)
  | [] => return []
  | part :: parts => do
    let part ← component part
    return part :: (← components parts)

end

/-- Reads a filter off the matches of a whole text. -/
def read : List Node → Except Error Filter
  | [] => .error (.malformed "Empty input")
  | .mk _ _ parts :: _ =>
    match parts.find? (·.rule = .component) with
    | some part => part.component
    | none => .error (.malformed "Missing filter")

end Node

/-! ### The trees of the grammar -/

def Attr.node (a : Attr) : Node := .mk .attr a.text []

def Value.node (v : Value) : Node := .mk .value v.text []

/-- A star, without parts of its own. -/
def Node.starred : Node := .mk .star ['*'] []

/-- What stands between parentheses, as a match of its own in that of the component. -/
def Node.enclosed (rule : Rule) (inner : List Char) (parts : List Node) : Node :=
  .mk .component ('(' :: (inner ++ [')'])) [.mk rule inner parts]

namespace Component

mutual

/-- The match of a component. -/
def node : Component → Node
  | .and first others => .enclosed .and ('&' :: (text first ++ texts others)) (node first :: nodes others)
  | .or first others => .enclosed .or ('|' :: (text first ++ texts others)) (node first :: nodes others)
  | .not part => .enclosed .not ('!' :: text part) [node part]
  | .present attr => .enclosed .present (attr.text ++ ['=', '*']) [attr.node]
  | .substring attr initial any final =>
    .enclosed .substring
      (attr.text ++ '=' :: (valueText initial ++ '*' :: (any.flatMap (·.text ++ ['*']) ++ valueText final)))
      (attr.node :: ((initial.map Value.node).toList ++
        Node.starred :: (any.flatMap (fun v => [v.node, Node.starred]) ++ (final.map Value.node).toList)))
  | .simple attr relation value =>
    .enclosed .simple (attr.text ++ relation.symbol ++ valueText value)
      (attr.node :: .mk .relation relation.symbol [] :: (value.map Value.node).toList)

def nodes : List Component → List Node
  | [] => []
  | part :: parts => node part :: nodes parts

end

/-- The matches of a whole text: one, with the component in it and the end of the text. -/
def root (d : Component) : List Node :=
  [.mk .filter d.text [d.node, .mk .stop [] []]]

end Component

/-! ### Reading the trees of the grammar -/

namespace Node

/-- Behind the first piece of a substring item, every star opens the next. -/
theorem pieces_starred (starred : List (Option String)) (last : Option String) (any : List Value)
    (final : Option Value) :
    pieces ⟨starred, last⟩
        (Node.starred :: (any.flatMap (fun v => [v.node, Node.starred]) ++ (final.map Value.node).toList)) = do
      let any ← (any.map (·.text)).mapM decode
      let final ← (final.map (·.text)).mapM decode
      return ⟨starred ++ last :: any.map some, final⟩ := by
  induction any generalizing starred last with
  | nil =>
    cases final with
    | none => rfl
    | some v =>
      have hstep : pieces ⟨starred, last⟩ [Node.starred, v.node] =
          decode v.text >>= fun piece => pure ⟨starred ++ [last], some piece⟩ := rfl
      refine hstep.trans ?_
      simp only [List.map_nil, List.mapM_nil, Option.map_some, Option.mapM_some, map_eq_pure_bind, bind_assoc, pure_bind]
  | cons v any ih =>
    have hstep : pieces ⟨starred, last⟩ (Node.starred :: ((v :: any).flatMap (fun v => [v.node, Node.starred]) ++
        (final.map Value.node).toList)) = decode v.text >>= fun piece => pieces ⟨starred ++ [last], some piece⟩
          (Node.starred :: (any.flatMap (fun v => [v.node, Node.starred]) ++ (final.map Value.node).toList)) := rfl
    rw [hstep, List.map_cons, List.mapM_cons]
    simp only [ih, bind_assoc, pure_bind]
    simp

theorem reduceOption_map_some {α : Type} (l : List α) : (l.map some).reduceOption = l := by
  show (l.map some).filterMap id = l
  rw [List.filterMap_map]
  exact List.filterMap_some

theorem substring_node (attr : Attr) (initial : Option Value) (any : List Value) (final : Option Value) :
    (Component.substring attr initial any final).node.component =
      (Component.substring attr initial any final).tree.traverse decode := by
  have hread (last : Option String) : (pieces ⟨[], last⟩ (Node.starred :: (any.flatMap (fun v => [v.node, Node.starred]) ++
      (final.map Value.node).toList)) >>= fun p => pure (p.filter attr.text)) = do
        let any ← (any.map (·.text)).mapM decode
        let final ← (final.map (·.text)).mapM decode
        return (.substrings (.ofList attr.text) last any final : Filter) := by
    rw [pieces_starred]
    simp [Pieces.filter, reduceOption_map_some]
  cases initial with
  | none => exact hread none
  | some v =>
    have hfirst : (Component.substring attr (some v) any final).node.component = decode v.text >>= fun piece =>
        pieces ⟨[], some piece⟩ (Node.starred :: (any.flatMap (fun v => [v.node, Node.starred]) ++
          (final.map Value.node).toList)) >>= fun p => pure (p.filter attr.text) := bind_assoc ..
    rw [hfirst]
    simp only [hread, Component.tree, FilterTree.traverse, Option.map_some, Option.mapM_some, map_eq_pure_bind,
      bind_assoc, pure_bind]

theorem simple_node (attr : Attr) (relation : Relation) (value : Option Value) :
    (Component.simple attr relation value).node.component =
      (Component.simple attr relation value).tree.traverse decode := by
  cases value with
  | none => cases relation <;> rfl
  | some v => cases relation <;> rfl

mutual

/-- On the trees of the grammar, nothing is refused but values. -/
theorem component_node : ∀ d : Component, d.node.component = d.tree.traverse decode
  | .and first others => congrArg (· >>= fun parts => pure (FilterTree.and parts)) (components_nodes (first :: others))
  | .or first others => congrArg (· >>= fun parts => pure (FilterTree.or parts)) (components_nodes (first :: others))
  | .not part => congrArg (· >>= fun f => pure (FilterTree.not f)) (component_node part)
  | .present _ => rfl
  | .substring attr initial any final => substring_node attr initial any final
  | .simple attr relation value => simple_node attr relation value

theorem components_nodes : ∀ ds : List Component,
    components (Component.nodes ds) = FilterTree.traverseAll decode (Component.trees ds)
  | [] => rfl
  | part :: parts => by
    rw [Component.nodes, components, component_node part, components_nodes parts]
    rfl

end

/-- Off the tree of a text, with the choices that the grammar makes, the filter is read that is read from the text. -/
theorem read_root (d : Component) : read d.resolve.root = (Filter.parse (.ofList d.text)).mapError .value := by
  have hread : read d.resolve.root = d.resolve.node.component := by
    cases d.resolve <;> rfl
  rw [hread, component_node, Filter.parse, String.toList_ofList, d.filter_eq]
  exact (FilterTree.mapError_traverse Reader.decode Error.value d.resolve.tree).symm

end Node

end Grammar
end DirectorySearch
