import Treewalk.Text.Invisible

/-!
Quoted text, in which every character can be seen: quotes and backslashes are escaped, and
characters without a visible form are written by name or by code point.
-/

namespace Treewalk.Text

/-- A character as it stands in quoted text. -/
def quoteCharacter (character : Char) : List Char :=
  match character with
  | '"' => ['\\', '"']
  | '\\' => ['\\', '\\']
  | '\t' => ['\\', 't']
  | '\n' => ['\\', 'n']
  | '\r' => ['\\', 'r']
  | '\x00' => ['\\', '0']
  | _ =>
      if isInvisible character then
        '\\' :: 'u' :: '{' :: (Nat.toDigits 16 character.toNat ++ ['}'])
      else [character]

/-- The quoted form of a text. -/
def quote (text : String) : String :=
  String.ofList ('"' :: (text.toList.flatMap quoteCharacter ++ ['"']))

end Treewalk.Text
