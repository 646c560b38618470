import DirectorySearch.Text.Ranges

/-! Blank characters, and texts without them at their ends. -/

namespace DirectorySearch.Text

def blankRanges : CodeRanges :=
  [(0x9, 0xD), (0x20, 0x20), (0x85, 0x85), (0xA0, 0xA0), (0x1680, 0x1680), (0x2000, 0x200A),
    (0x2028, 0x2029), (0x202F, 0x202F), (0x205F, 0x205F), (0x3000, 0x3000)]

def isBlank (c : Char) : Bool :=
  blankRanges.contains c

/-- A text without blanks at its start and its end. -/
def trim (s : List Char) : List Char :=
  ((s.dropWhile isBlank).reverse.dropWhile isBlank).reverse

/-- Whether a text has nothing but blanks. -/
def isBlankText (s : String) : Bool :=
  s.toList.all isBlank

/-- A text with the letters of ASCII in lower case. -/
def asciiLower (s : String) : String :=
  .ofList (s.toList.map Char.toLower)

end DirectorySearch.Text
