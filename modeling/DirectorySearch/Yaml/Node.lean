import DirectorySearch.Yaml.Token

/-! The one document of a YAML text, as a tree. What is left out is an empty plain scalar. -/

namespace DirectorySearch.Yaml

inductive Node where
  | scalar (isPlain : Bool) (text : String)
  | sequence (items : List Node)
  | mapping (pairs : List (Node × Node))
deriving Repr, BEq

namespace Node

def empty : Node := .scalar true ""

/-- Inside brackets a comma comes before every item but the first. -/
def separated (first : Bool) (ts : List Token) : Option (List Token) :=
  if first then some ts
  else
    match ts with
    | .comma :: r => some r
    | _ => none

/-! Each of these reads what comes after its opening token, and gives the tokens that are left. -/

mutual

/-- A node. Only a block may hold blocks, and only the key or value of a block mapping may be a
    sequence that is no deeper than the mapping. -/
def read (block inMapping : Bool) : Nat → List Token → Option (Node × List Token)
  | 0, _ => none
  | fuel + 1, ts =>
    match ts with
    | .scalar isPlain text :: r => some (.scalar isPlain text, r)
    | .openSequence :: r => (flowItems true fuel r).map fun (items, r) => (.sequence items, r)
    | .openMapping :: r => (flowPairs true fuel r).map fun (pairs, r) => (.mapping pairs, r)
    | .blockSequence :: r =>
      if block then (blockItems fuel r).map fun (items, r) => (.sequence items, r) else none
    | .blockMapping :: r =>
      if block then (blockPairs fuel r).map fun (pairs, r) => (.mapping pairs, r) else none
    | .item :: _ =>
      if inMapping then (levelItems fuel ts).map fun (items, r) => (.sequence items, r) else none
    | _ => none

/-- A node, or nothing before one of the tokens that end its place. -/
def readUnless (ends : List Token) (block inMapping : Bool) : Nat → List Token → Option (Node × List Token)
  | 0, _ => none
  | fuel + 1, ts =>
    if ts.head?.any ends.contains then some (empty, ts) else read block inMapping fuel ts

/-- What follows a key: the mark of a value and the value, or nothing. -/
def readValue (ends : List Token) (block : Bool) : Nat → List Token → Option (Node × List Token)
  | 0, _ => none
  | fuel + 1, ts =>
    match ts with
    | .value :: r => readUnless ends block block fuel r
    | _ => some (empty, ts)

def blockItems : Nat → List Token → Option (List Node × List Token)
  | 0, _ => none
  | fuel + 1, ts =>
    match ts with
    | .item :: r => do
      let (first, r) ← readUnless [.item, .blockEnd] true false fuel r
      let (rest, r) ← blockItems fuel r
      return (first :: rest, r)
    | .blockEnd :: r => some ([], r)
    | _ => none

/-- The items of a sequence that no token closes. -/
def levelItems : Nat → List Token → Option (List Node × List Token)
  | 0, _ => none
  | fuel + 1, ts =>
    match ts with
    | .item :: r => do
      let (first, r) ← readUnless [.item, .key, .value, .blockEnd] true false fuel r
      let (rest, r) ← levelItems fuel r
      return (first :: rest, r)
    | _ => some ([], ts)

def blockPairs : Nat → List Token → Option (List (Node × Node) × List Token)
  | 0, _ => none
  | fuel + 1, ts =>
    match ts with
    | .key :: r => do
      let (key, r) ← readUnless [.key, .value, .blockEnd] true true fuel r
      let (value, r) ← readValue [.key, .value, .blockEnd] true fuel r
      let (rest, r) ← blockPairs fuel r
      return ((key, value) :: rest, r)
    | .blockEnd :: r => some ([], r)
    | _ => none

/-- The items in square brackets, one of which may be a pair. -/
def flowItems (first : Bool) : Nat → List Token → Option (List Node × List Token)
  | 0, _ => none
  | fuel + 1, ts =>
    match ts with
    | .closeSequence :: r => some ([], r)
    | _ => do
      let ts ← separated first ts
      match ts with
      | .closeSequence :: r => return ([], r)
      | .key :: r => do
        let ends := [Token.comma, .closeSequence]
        let (key, r) ← if r.head?.any (Token.value :: ends).contains then some (empty, r.tail)
          else read false false fuel r
        let (value, r) ← readValue ends false fuel r
        let (rest, r) ← flowItems false fuel r
        return (.mapping [(key, value)] :: rest, r)
      | _ => do
        let (item, r) ← read false false fuel ts
        let (rest, r) ← flowItems false fuel r
        return (item :: rest, r)

/-- The pairs in braces, which may leave out the value. -/
def flowPairs (first : Bool) : Nat → List Token → Option (List (Node × Node) × List Token)
  | 0, _ => none
  | fuel + 1, ts =>
    match ts with
    | .closeMapping :: r => some ([], r)
    | _ => do
      let ts ← separated first ts
      match ts with
      | .closeMapping :: r => return ([], r)
      | .key :: r => do
        let ends := [Token.comma, .closeMapping]
        let (key, r) ← readUnless (.value :: ends) false false fuel r
        let (value, r) ← readValue ends false fuel r
        let (rest, r) ← flowPairs false fuel r
        return ((key, value) :: rest, r)
      | _ => do
        let (key, r) ← read false false fuel ts
        let (rest, r) ← flowPairs false fuel r
        return ((key, empty) :: rest, r)

end

/-- The document of a text. A text without one, or with an empty one, holds the empty scalar. -/
def ofText? (text : String) : Option Node := do
  let tokens ← Token.ofText? text
  let fuel := 3 * tokens.length + 3
  let (node, rest) ←
    match tokens with
    | [] => some (empty, [])
    | .documentStart :: r =>
      match r with
      | [] => some (empty, [])
      | .documentStart :: _ | .documentEnd :: _ => some (empty, r)
      | _ => read true false fuel r
    | _ => read true false fuel tokens
  if rest.all (· == .documentEnd) then some node else none

end Node

end DirectorySearch.Yaml
