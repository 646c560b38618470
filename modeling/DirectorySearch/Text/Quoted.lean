import DirectorySearch.Text.Extending
import DirectorySearch.Text.Hex
import DirectorySearch.Text.Unprintable

/-!
Texts in quotes, for messages. What a reader could not see, or could not tell from the character
before it, is given by its code.
-/

namespace DirectorySearch.Text

def codeChars (c : Char) : List Char :=
  '\\' :: 'u' :: '\x7b' :: Nat.toDigits 16 c.toNat ++ ['\x7d']

def quotedChar (c : Char) : List Char :=
  match c with
  | '"' => ['\\', '"']
  | '\\' => ['\\', '\\']
  | '\n' => ['\\', 'n']
  | '\r' => ['\\', 'r']
  | '\t' => ['\\', 't']
  | '\x00' => ['\\', '0']
  | c => if isExtending c || isUnprintable c then codeChars c else [c]

def quoted (s : String) : String :=
  .ofList ('"' :: s.toList.flatMap quotedChar ++ ['"'])

end DirectorySearch.Text
