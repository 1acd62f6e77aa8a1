import GrammarService.Text.WhiteSpace

namespace GrammarService

/-!
# The name a grammar declares

A grammar declares its name in a header: at the start of a line and behind any white space, the
word `grammar`, with `lexer` or `parser` in front of it or not, and then a name. The header may
span lines, and the first line at which one starts counts.
-/

namespace Header

/-- Whether a name can begin with a character. -/
def beginsName (character : Char) : Bool :=
  character.isAlpha || character = '_'

/-- Whether a name can go on with a character. -/
def continuesName (character : Char) : Bool :=
  character.isAlphanum || character = '_'

/-- The text behind a word, if it begins with the word. -/
def behindWord? (word : String) (text : List Char) : Option (List Char) :=
  if word.toList.isPrefixOf text then
    some (text.drop word.toList.length)
  else
    none

/-- The text behind `lexer` or `parser` if it begins with one of them, or else the text itself. -/
def behindQualifier (text : List Char) : List Char :=
  match behindWord? "lexer" text with
  | some rest => rest
  | none => (behindWord? "parser" text).getD text

/-- The name that a text begins with. -/
def name? : List Char → Option (List Char)
  | [] => none
  | character :: rest =>
      if beginsName character then
        some (character :: rest.takeWhile continuesName)
      else
        none

/-- The name behind the word `grammar`, which white space has to separate from it. -/
def nameBehindKeyword? : List Char → Option (List Char)
  | [] => none
  | character :: rest =>
      if isWhiteSpace character then
        name? (Text.trimStart rest)
      else
        none

/-- The name that a header at the start of a line declares. -/
def nameAt? (line : List Char) : Option (List Char) :=
  let keyword := Text.trimStart (behindQualifier (Text.trimStart line))
  (behindWord? "grammar" keyword).bind nameBehindKeyword?

/-- The name that the first header in a text declares; `atLineStart` tells where the text begins. -/
def firstName? (atLineStart : Bool) : List Char → Option (List Char)
  | [] => none
  | character :: rest =>
      let here := if atLineStart then nameAt? (character :: rest) else none
      here.or (firstName? (character == '\n') rest)

/-- The name that a grammar declares. -/
def declaredName? (grammar : String) : Option String :=
  (firstName? true grammar.toList).map String.ofList

end Header

end GrammarService
