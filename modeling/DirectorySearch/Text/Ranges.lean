/-! Sets of characters, given by ranges of codes. -/

namespace DirectorySearch

/-- Ranges of codes, each from its first to its last. -/
abbrev CodeRanges := List (Nat × Nat)

def CodeRanges.contains (ranges : CodeRanges) (c : Char) : Bool :=
  ranges.any fun (first, last) => first ≤ c.toNat && c.toNat ≤ last

end DirectorySearch
