import GrammarService.Text.Unmarked

namespace GrammarService

/-!
# Texts in quotes

A text is shown in double quotes, a single character in single quotes. The quote, backslashes and
the usual controls are written with a backslash, and any other character that leaves no mark of its
own by its code point.
-/

namespace Text

/-- A character as it is written between quotes of a kind. -/
def escapeQuoted
    (quote character : Char) :
    List Char :=
  if character = quote then
    ['\\', quote]
  else if character = '\\' then
    ['\\', '\\']
  else if character = '\n' then
    ['\\', 'n']
  else if character = '\r' then
    ['\\', 'r']
  else if character = '\t' then
    ['\\', 't']
  else if character = '\x00' then
    ['\\', '0']
  else if isUnmarked character then
    ['\\', 'u', '\x7b'] ++ Nat.toDigits 16 character.toNat ++ ['\x7d']
  else
    [character]

/-- A text in double quotes. -/
def quoted (text : String) : String :=
  "\"" ++ String.ofList (text.toList.flatMap (escapeQuoted '"')) ++ "\""

/-- A character in single quotes. -/
def quotedCharacter (character : Char) : String :=
  String.ofList (['\''] ++ escapeQuoted '\'' character ++ ['\''])

end Text

end GrammarService
