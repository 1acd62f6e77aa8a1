namespace GrammarService

/-!
# Lines of a text

A line ends at a line feed, or at a carriage return that a line feed follows. The last line need
not be ended, and a text that ends with a line end has no further empty line after it.
-/

namespace Text

/-- Put a character in front of the first of the lines that follow it. -/
def extendLine
    (character : Char) :
    List (List Char) → List (List Char)
  | [] => [[character]]
  | line :: following => (character :: line) :: following

/-- The lines of a text, without their ends. -/
def lines : List Char → List (List Char)
  | [] => []
  | '\n' :: rest => [] :: lines rest
  | '\r' :: '\n' :: rest => [] :: lines rest
  | character :: rest => extendLine character (lines rest)

/-- Escape one character as `escapeBreaks` does. -/
def escapeBreak (character : Char) : List Char :=
  if character = '\n' then
    ['\\', 'n']
  else if character = '\r' then
    ['\\', 'r']
  else if character = '\t' then
    ['\\', 't']
  else
    [character]

/-- The text with line feeds, carriage returns and tabs spelled out. -/
def escapeBreaks (text : String) : String :=
  String.ofList (text.toList.flatMap escapeBreak)

end Text

end GrammarService
