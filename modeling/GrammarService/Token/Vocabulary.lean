import GrammarService.Token.Basic

namespace GrammarService

/-!
# Names of token types
-/

/-- The names a grammar gives to its token types, indexed by type. -/
structure Vocabulary where
  literalNames : Array (Option String)
  symbolicNames : Array (Option String)
  deriving Repr, DecidableEq, Inhabited

namespace Vocabulary

/-- The entry for a token type in a table of names. -/
def lookup?
    (names : Array (Option String))
    (type : Int) :
    Option String :=
  if type < 0 then
    none
  else
    (names[type.toNat]?).join

/--
The name of a token type in messages: the literal, or else the symbolic name, or else the number.
-/
def displayName
    (vocabulary : Vocabulary)
    (type : Int) :
    String :=
  if type = endOfInput then
    Token.endText
  else
    match lookup? vocabulary.literalNames type with
    | some literal => literal
    | none =>
        match lookup? vocabulary.symbolicNames type with
        | some symbolic => symbolic
        | none => toString type

end Vocabulary

end GrammarService
